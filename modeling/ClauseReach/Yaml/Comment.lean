import ClauseReach.Yaml.Cursor

/-!
What stands between tokens: blanks, line ends and comments.
-/

namespace ClauseReach.Yaml.Cursor

def commentReach : Nat := 512

def skipTo : Nat → Nat → Cursor → Cursor
  | 0, _, cursor => cursor
  | fuel + 1, index, cursor =>
    if index ≤ cursor.mark.index then cursor
    else if atBreak cursor.rest then skipTo fuel index cursor.skipBreak
    else skipTo fuel index (cursor.advance 1)

/-- From the end of a comment, the distance to a comment on one of the next lines, if nothing but
blanks and lines comes before it. -/
def nextComment? (rest : List Char) : Option Nat :=
  match rest with
  | c :: rest =>
    if c = '\n' || c = '\r' then
      let gap := rest.takeWhile fun c => isBlank c || c = '\n' || c = '\r'
      let distance := gap.length + 1
      if distance < commentReach && (rest.drop gap.length).head? = some '#' then some distance
      else none
    else none
  | [] => none

def skipComments : Nat → Cursor → Cursor
  | 0, cursor => cursor
  | fuel + 1, cursor =>
    let cursor := cursor.skipWhile (!isBreak ·)
    match nextComment? cursor.rest with
    | some distance =>
      skipComments fuel (cursor.skipTo distance (cursor.mark.index + distance))
    | none => cursor

def skipLineComment (cursor : Cursor) : Cursor :=
  let blanks := (cursor.rest.takeWhile isBlank).length
  if !cursor.fresh && blanks < commentReach && (cursor.rest.drop blanks).head? = some '#' then
    cursor.skipWhile (!isBreak ·)
  else cursor

/-- Passes all that is no token. The result tells whether a line has ended. Tabs count as blanks
if `tabs` says so; in a block, they do not at the start of a line. -/
def skipGap (bracketed : Bool) : Nat → Bool → Bool → Cursor → Cursor × Bool
  | 0, _, ended, cursor => (cursor, ended)
  | fuel + 1, tabs, ended, cursor =>
    let cursor :=
      if cursor.column = 0 && cursor.rest.head? = some orderMark then cursor.advance 1 else cursor
    let cursor := cursor.skipWhile fun c => c = ' ' || (tabs && c = '\t')
    let cursor :=
      if cursor.rest.head? = some '#' then cursor.skipComments (cursor.rest.length + 1) else cursor
    if atBreak cursor.rest then skipGap bracketed fuel bracketed true cursor.skipBreak
    else (cursor, ended)

end ClauseReach.Yaml.Cursor
