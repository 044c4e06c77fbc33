import ClauseReach.Yaml.Cursor

/-!
Blanks and line ends between two words of a scalar. One line end is read as a space, and of more
than one all but the first are kept.
-/

namespace ClauseReach.Yaml

/-- `blanks` stand before any line end; `first` is the first line end and `later` the others. -/
structure Fold where
  blanks : List Char := []
  ended : Bool := false
  first : List Char := []
  later : List Char := []

namespace Fold

def text (fold : Fold) : List Char :=
  if !fold.ended then fold.blanks
  else if fold.first ≠ ['\n'] then fold.first ++ fold.later
  else if fold.later.isEmpty then [' ']
  else fold.later

def scanWithin (margin : Nat) : Nat → Fold → Cursor → Except Error (Fold × Cursor)
  | 0, _, _ => throw .exhausted
  | fuel + 1, fold, cursor =>
    match cursor.rest with
    | [] => return (fold, cursor)
    | c :: _ =>
      if isBlank c then
        if fold.ended && cursor.column < margin && c = '\t' then throw .strayTab
        else
          let blanks := if fold.ended then fold.blanks else fold.blanks ++ [c]
          scanWithin margin fuel { fold with blanks } (cursor.advance 1)
      else if isBreak c then
        let fold : Fold :=
          if fold.ended then { fold with later := fold.later ++ cursor.breakText }
          else { ended := true, first := cursor.breakText }
        scanWithin margin fuel fold cursor.skipBreak
      else return (fold, cursor)

/-- Passes blanks and line ends. No tab may stand left of the margin. -/
def scan (margin : Nat) (fold : Fold) (cursor : Cursor) : Except Error (Fold × Cursor) :=
  scanWithin margin (cursor.rest.length + 1) fold cursor

end Fold

end ClauseReach.Yaml
