import ClauseReach.Yaml.Cursor

/-!
Block scalars: indented lines under a header. The lines are kept as they are, or folded into
paragraphs.
-/

namespace ClauseReach.Yaml.Block

inductive Chomping where
  | strip
  | clip
  | keep
  deriving DecidableEq, Repr

structure Header where
  chomping : Chomping := .clip
  /-- Columns between the margin and the lines; unless given, the lines show it. -/
  indent : Option Nat := none

def chomping? (rest : List Char) : Option Chomping :=
  match rest with
  | '+' :: _ => some .keep
  | '-' :: _ => some .strip
  | _ => none

def digit? (rest : List Char) : Except Error (Option Nat) :=
  match rest with
  | [] => return none
  | c :: _ =>
    if c = '0' then throw .badBlockHeader
    else if c.isDigit then return some (c.toNat - '0'.toNat)
    else return none

def scanHeader (cursor : Cursor) : Except Error (Header × Cursor) := do
  let (header, cursor) ← match chomping? cursor.rest with
    | some chomping => do
      let cursor := cursor.advance 1
      let indent ← digit? cursor.rest
      pure ({ chomping, indent : Header }, if indent.isSome then cursor.advance 1 else cursor)
    | none => do
      let indent ← digit? cursor.rest
      if indent.isNone then pure ({}, cursor)
      else
        let cursor := cursor.advance 1
        match chomping? cursor.rest with
        | some chomping => pure ({ chomping, indent : Header }, cursor.advance 1)
        | none => pure ({ indent }, cursor)
  let cursor := cursor.skipWhile isBlank
  let cursor :=
    if cursor.rest.head? = some '#' then cursor.skipWhile (!isBreak ·) else cursor
  if !atLineEnd cursor.rest then throw .badBlockHeader
  return (header, cursor.skipBreak)

/-- Passes empty lines and the indentation of the next one. The result holds the line ends and the
widest indentation. -/
def skipLines (indent : Option Nat) :
    Nat → List Char → Nat → Cursor → Except Error (List Char × Nat × Cursor)
  | 0, _, _, _ => throw .exhausted
  | fuel + 1, breaks, widest, cursor =>
    let spaces := (cursor.rest.takeWhile (· = ' ')).length
    let cursor := cursor.advance <| match indent with
      | none => spaces
      | some indent => min spaces (indent - cursor.column)
    let widest := max widest cursor.column
    if indent.all (cursor.column < ·) && cursor.rest.head? = some '\t' then throw .strayTab
    else if atBreak cursor.rest then
      skipLines indent fuel (breaks ++ cursor.breakText) widest cursor.skipBreak
    else return (breaks, widest, cursor)

/-- Adds lines to a text. `ended` is the end of the line before, `breaks` are the ends of empty
lines behind it, and `led` tells whether that line starts with a blank. -/
def scanLines (literal : Bool) (indent : Nat) :
    Nat → List Char → List Char → List Char → Bool → Cursor →
      Except Error (List Char × List Char × List Char × Cursor)
  | 0, _, _, _, _, _ => throw .exhausted
  | fuel + 1, text, ended, breaks, led, cursor => do
    if cursor.column ≠ indent || cursor.rest.isEmpty then return (text, ended, breaks, cursor)
    let leads := cursor.rest.head?.any isBlank
    let folded := !literal && !led && !leads && ended = ['\n']
    let joint := if !folded then ended else if breaks.isEmpty then [' '] else []
    let line := cursor.rest.takeWhile (!isBreak ·)
    let text := text ++ joint ++ breaks ++ line
    let cursor := cursor.advance line.length
    let ended := cursor.breakText
    let cursor := cursor.skipBreak
    let (breaks, _, cursor) ← skipLines (some indent) (cursor.rest.length + 1) [] 0 cursor
    scanLines literal indent fuel text ended breaks leads cursor

def scan (literal : Bool) (margin : Nat) (cursor : Cursor) :
    Except Error (List Char × Cursor) := do
  let (header, cursor) ← scanHeader (cursor.advance 1)
  let given := header.indent.map fun indent => margin - 1 + indent
  let (breaks, widest, cursor) ← skipLines given (cursor.rest.length + 1) [] 0 cursor
  let indent := given.getD (max 1 (max margin widest))
  let (text, ended, breaks, cursor) ←
    scanLines literal indent (cursor.rest.length + 1) [] [] breaks false cursor
  let tail := match header.chomping with
    | .strip => []
    | .clip => ended
    | .keep => ended ++ breaks
  return (text ++ tail, cursor)

end ClauseReach.Yaml.Block
