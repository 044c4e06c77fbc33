import ClauseReach.Yaml.Scalar.Fold

/-!
Plain scalars: words without quotes, which end before a comment, before a colon that makes them a
key, and in a block at the margin.
-/

namespace ClauseReach.Yaml.Plain

def indicators : List Char :=
  ['-', '?', ':', ',', '[', ']', '\x7b', '\x7d', '#', '&', '*', '!', '|', '>', '\'', '"', '%', '@',
    '\x60']

def separators : List Char := [',', '?', '[', ']', '\x7b', '\x7d']

def starts (bracketed : Bool) : List Char → Bool
  | [] => false
  | c :: rest =>
    if isBlank c || isBreak c then false
    else if c = '-' then !(rest.head?.any isBlank)
    else if c = '?' || c = ':' then !bracketed && !atGap rest
    else !indicators.contains c

def wordLength (bracketed : Bool) : List Char → Nat
  | [] => 0
  | c :: rest =>
    if isBlank c || isBreak c || (c = ':' && atGap rest) || (bracketed && separators.contains c)
    then 0
    else wordLength bracketed rest + 1

/-- Adds words to a text. The result also tells whether a line has ended behind the last word. -/
def scanWithin (bracketed : Bool) (margin : Nat) :
    Nat → List Char → Fold → Cursor → Except Error (List Char × Bool × Cursor)
  | 0, _, _, _ => throw .exhausted
  | fuel + 1, text, fold, cursor => do
    let length := wordLength bracketed cursor.rest
    if cursor.atDocumentMark || cursor.rest.head? = some '#' || length = 0 then
      return (text, fold.ended, cursor)
    let text := text ++ fold.text ++ cursor.rest.take length
    let (fold, cursor) ← Fold.scan margin {} (cursor.advance length)
    if !bracketed && cursor.column < margin then return (text, fold.ended, cursor)
    scanWithin bracketed margin fuel text fold cursor

def scan (bracketed : Bool) (margin : Nat) (cursor : Cursor) :
    Except Error (List Char × Bool × Cursor) :=
  scanWithin bracketed margin (cursor.rest.length + 1) [] {} cursor

end ClauseReach.Yaml.Plain
