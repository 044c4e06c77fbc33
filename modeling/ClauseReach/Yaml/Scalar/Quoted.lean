import ClauseReach.Yaml.Scalar.Fold

/-!
Quoted scalars. Between single quotes a quote is written twice; between double quotes a backslash
starts an escape, and at the end of a line it takes the line end away.
-/

namespace ClauseReach.Yaml.Quoted

def hexDigit? (c : Char) : Option Nat :=
  if c.isDigit then some (c.toNat - '0'.toNat)
  else if 'a' ≤ c && c ≤ 'f' then some (c.toNat - 'a'.toNat + 10)
  else if 'A' ≤ c && c ≤ 'F' then some (c.toNat - 'A'.toNat + 10)
  else none

def hexValue? (digits : List Char) : Option Nat :=
  digits.foldlM (fun value digit => (hexDigit? digit).map (16 * value + ·)) 0

def hexChar? (width : Nat) (rest : List Char) : Option Char := do
  let digits := rest.take width
  if digits.length < width then none
  else
    let code ← hexValue? digits
    if code.isValidChar then some (Char.ofNat code) else none

def letter? (c : Char) : Option Char :=
  match c with
  | '0' => some '\x00'
  | 'a' => some '\x07'
  | 'b' => some '\x08'
  | 't' | '\t' => some '\t'
  | 'n' => some '\n'
  | 'v' => some '\x0b'
  | 'f' => some '\x0c'
  | 'r' => some '\r'
  | 'e' => some '\x1b'
  | ' ' | '"' | '\'' | '\\' => some c
  | 'N' => some '\u0085'
  | '_' => some '\u00a0'
  | 'L' => some '\u2028'
  | 'P' => some '\u2029'
  | _ => none

def escape? : List Char → Option (Char × Nat)
  | [] => none
  | 'x' :: rest => (hexChar? 2 rest).map (·, 3)
  | 'u' :: rest => (hexChar? 4 rest).map (·, 5)
  | 'U' :: rest => (hexChar? 8 rest).map (·, 9)
  | c :: _ => (letter? c).map (·, 1)

/-- A word between quotes: its text, its length, and whether a backslash before a line end comes
next. -/
structure Word where
  text : List Char := []
  length : Nat := 0
  joined : Bool := false

def Word.cons (c : Char) (width : Nat) (word : Word) : Word :=
  { word with text := c :: word.text, length := word.length + width }

def singleWord : List Char → Word
  | [] => {}
  | '\'' :: '\'' :: rest => (singleWord rest).cons '\'' 2
  | c :: rest =>
    if c = '\'' || isBlank c || isBreak c then {} else (singleWord rest).cons c 1

def doubleWord : Nat → List Char → Except Error Word
  | _, [] => return {}
  | skipped + 1, _ :: rest => doubleWord skipped rest
  | 0, c :: rest =>
    if c = '"' || isBlank c || isBreak c then return {}
    else if c ≠ '\\' then do return (← doubleWord 0 rest).cons c 1
    else if atBreak rest then return { joined := true }
    else
      match escape? rest with
      | none => throw .badEscape
      | some (escaped, width) => do
        return (← doubleWord width rest).cons escaped (width + 1)

def scanWithin (single : Bool) : Nat → List Char → Cursor → Except Error (List Char × Cursor)
  | 0, _, _ => throw .exhausted
  | fuel + 1, text, cursor => do
    if cursor.atDocumentMark then throw .documentInQuote
    if cursor.rest.isEmpty then throw .openQuote
    let word ← if single then pure (singleWord cursor.rest) else doubleWord 0 cursor.rest
    let text := text ++ word.text
    let cursor := cursor.advance word.length
    if cursor.rest.head? = some (if single then '\'' else '"') then
      return (text, cursor.advance 1)
    let (fold, cursor) ←
      if word.joined then Fold.scan 0 { ended := true } (cursor.advance 1).skipBreak
      else Fold.scan 0 {} cursor
    scanWithin single fuel (text ++ fold.text) cursor

def scan (single : Bool) (cursor : Cursor) : Except Error (List Char × Cursor) :=
  scanWithin single (cursor.rest.length + 1) [] (cursor.advance 1)

end ClauseReach.Yaml.Quoted
