import ClauseReach.Glob.Segment

/-!
Matching names against glob patterns. A star stands for any bytes but slashes and takes as few of
them as the next segment allows; an earlier star is never tried again. A pattern is checked to its
end, whether the name matches or not.
-/

namespace ClauseReach.Glob

open Text
open Utf8 (Bytes Rune)

structure Segment where
  star : Bool
  text : List Rune
  deriving DecidableEq, Repr

/-- The text up to the first star outside brackets, and the segments from there. -/
def split : Bool → List Rune → List Rune × List Segment
  | _, [] => ([], [])
  | inside, .char '\\' :: c :: rest =>
    let (text, later) := split inside rest
    ('\\' :: c :: text, later)
  | inside, c :: rest =>
    if c = '*' ∧ ¬inside then
      match split false rest with
      | ([], next :: later) => ([], next :: later)
      | (text, later) => ([], ⟨true, text⟩ :: later)
    else
      let (text, later) := split (if c = '[' then true else if c = ']' then false else inside) rest
      (c :: text, later)

def segments (pattern : List Rune) : List Segment :=
  match split false pattern with
  | ([], later) => later
  | (text, later) => ⟨false, text⟩ :: later

/-- What is left of a name behind a segment; behind the last one nothing may be. -/
def accept? (items : List Item) (last : Bool) (name : Bytes) : Option Bytes := do
  let rest ← takeAll? items name
  if last ∧ ¬rest.isEmpty then none else some rest

/-- Gives the star before a segment one byte after another, up to a slash, until the segment
matches. -/
def search? (items : List Item) (last : Bool) : Bytes → Option Bytes
  | [] => none
  | byte :: rest =>
    if byte = slash then none else (accept? items last rest).or (search? items last rest)

def check : List Segment → Except Malformed Unit
  | [] => return ()
  | segment :: rest => do
    let _ ← readItems .outside segment.text
    check rest

def matchSegments : List Segment → Bytes → Except Malformed Bool
  | [], name => return name.isEmpty
  | segment :: rest, name => do
    if segment.star ∧ segment.text.isEmpty then return !name.contains slash
    else
      let items ← readItems .outside segment.text
      let last := rest.isEmpty
      match (accept? items last name).or (if segment.star then search? items last name else none) with
      | some name => matchSegments rest name
      | none => do
        check rest
        return false

def run (pattern name : Bytes) : Except Malformed Bool := matchSegments (segments (Utf8.runes pattern)) name

end ClauseReach.Glob
