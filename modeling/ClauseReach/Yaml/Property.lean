import ClauseReach.Text.Utf8
import ClauseReach.Yaml.Scalar.Quoted
import ClauseReach.Yaml.Token

/-!
What may stand in front of a node or of a document: anchors, tags and directives.
-/

namespace ClauseReach.Yaml.Property

open Text

def nameEnds : List Char := ['?', ':', ',', ']', '\x7d', '%', '@', '\x60']

def scanName (cursor : Cursor) : Except Error (String × Cursor) := do
  let cursor := cursor.advance 1
  let name := cursor.rest.takeWhile isNameChar
  let cursor := cursor.advance name.length
  if name.isEmpty || !(atGap cursor.rest || cursor.rest.head?.any nameEnds.contains) then
    throw .badName
  return (String.ofList name, cursor)

def tagChars : List Char :=
  [';', '/', '?', ':', '@', '&', '=', '+', '$', ',', '.', '!', '~', '*', '\'', '(', ')', '[', ']']

def escapedByte? : List Char → Option UInt8
  | '%' :: high :: low :: _ => (Quoted.hexValue? [high, low]).map UInt8.ofNat
  | _ => none

def escapedBytes? (rest : List Char) : Option Utf8.Bytes := do
  let first ← escapedByte? rest
  let (count, _, _) ← Utf8.shape? first
  let others ← (List.range count).mapM fun index => do
    let byte ← escapedByte? (rest.drop (3 * (index + 1)))
    if (Utf8.continuation? byte).isSome then some byte else none
  return first :: others

/-- The bytes and the length of a tag, after some characters that belong to an escape. -/
def scanBytes : Nat → List Char → Except Error (Utf8.Bytes × Nat)
  | _, [] => return ([], 0)
  | skipped + 1, _ :: rest => do
    let (bytes, length) ← scanBytes skipped rest
    return (bytes, length + 1)
  | 0, c :: rest => do
    if c = '%' then
      match escapedBytes? (c :: rest) with
      | none => throw .badTag
      | some escaped =>
        let (bytes, length) ← scanBytes (3 * escaped.length - 1) rest
        return (escaped ++ bytes, length + 1)
    else if isNameChar c || tagChars.contains c then
      let (bytes, length) ← scanBytes 0 rest
      return (Utf8.encodeChar c ++ bytes, length + 1)
    else return ([], 0)

def scanSuffix (cursor : Cursor) : Except Error (String × Cursor) := do
  let (bytes, length) ← scanBytes 0 cursor.rest
  return (Utf8.decode bytes, cursor.advance length)

def scanFilledSuffix (cursor : Cursor) : Except Error (String × Cursor) := do
  let (suffix, after) ← scanSuffix cursor
  if after.mark = cursor.mark then throw .badTag
  return (suffix, after)

def scanHandle (cursor : Cursor) : List Char × Bool × Cursor :=
  let name := (cursor.rest.drop 1).takeWhile isNameChar
  let cursor := cursor.advance (name.length + 1)
  if cursor.rest.head? = some '!' then ('!' :: name ++ ['!'], true, cursor.advance 1)
  else ('!' :: name, false, cursor)

/-- Reads a tag: one in angle brackets has no handle, and one exclamation mark alone is a tag of
its own. -/
def scanTag (cursor : Cursor) : Except Error (Token × Cursor) := do
  let (token, cursor) ←
    if cursor.rest.take 2 = ['!', '<'] then do
      let (suffix, cursor) ← scanFilledSuffix (cursor.advance 2)
      if cursor.rest.head? ≠ some '>' then throw .badTag
      pure (Token.tag "" suffix, cursor.advance 1)
    else do
      let (name, closed, cursor) := scanHandle cursor
      if closed then do
        let (suffix, cursor) ← scanFilledSuffix cursor
        pure (Token.tag (String.ofList name) suffix, cursor)
      else do
        let (more, cursor) ← scanSuffix cursor
        let suffix := String.ofList (name.drop 1) ++ more
        pure (if suffix.isEmpty then Token.tag "" "!" else Token.tag "!" suffix, cursor)
  if !atGap cursor.rest then throw .badTag
  return (token, cursor)

def scanVersionPart (cursor : Cursor) : Except Error (Nat × Cursor) := do
  let digits := cursor.rest.takeWhile Char.isDigit
  if digits.isEmpty || digits.length > 2 then throw .badDirective
  let value := digits.foldl (fun value c => 10 * value + (c.toNat - '0'.toNat)) 0
  return (value, cursor.advance digits.length)

def scanVersion (cursor : Cursor) : Except Error (Token × Cursor) := do
  let (major, cursor) ← scanVersionPart (cursor.skipWhile isBlank)
  if cursor.rest.head? ≠ some '.' then throw .badDirective
  let (minor, cursor) ← scanVersionPart (cursor.advance 1)
  return (.version major minor, cursor)

def scanHandleMeaning (cursor : Cursor) : Except Error (Token × Cursor) := do
  let cursor := cursor.skipWhile isBlank
  if cursor.rest.head? ≠ some '!' then throw .badDirective
  let (name, closed, cursor) := scanHandle cursor
  if !closed && name.length > 1 then throw .badDirective
  if !cursor.rest.head?.any isBlank then throw .badDirective
  let (meaning, cursor) ← scanFilledSuffix (cursor.skipWhile isBlank)
  if !atGap cursor.rest then throw .badDirective
  return (.handle (String.ofList name) meaning, cursor)

def scanDirective (cursor : Cursor) : Except Error (Token × Cursor) := do
  let name := (cursor.rest.drop 1).takeWhile isNameChar
  let cursor := cursor.advance (name.length + 1)
  if !atGap cursor.rest then throw .badDirective
  let (token, cursor) ← match String.ofList name with
    | "YAML" => scanVersion cursor
    | "TAG" => scanHandleMeaning cursor
    | _ => throw .badDirective
  let cursor := cursor.skipWhile isBlank
  let cursor := if cursor.rest.head? = some '#' then cursor.skipWhile (!isBreak ·) else cursor
  if !atLineEnd cursor.rest then throw .badDirective
  return (token, cursor.skipBreak)

end ClauseReach.Yaml.Property
