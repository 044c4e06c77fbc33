import ClauseReach.Text.Utf8

/-!
Glob segments: the parts of a pattern between stars. A segment is a row of items that each take one
character of a name, or of a literal all its bytes. Outside of a class a stray byte stands for itself.
-/

namespace ClauseReach.Glob

open Text
open Utf8 (Bytes Rune)

inductive Malformed where
  | malformed
  deriving DecidableEq, Repr

/-- A character class: closed ranges of code points, or all characters outside them. -/
structure CharClass where
  negated : Bool
  ranges : List (Nat × Nat)
  deriving DecidableEq, Repr

def CharClass.contains (set : CharClass) (code : Nat) : Bool :=
  (set.ranges.any fun (low, high) => low ≤ code && code ≤ high) != set.negated

inductive Item where
  | literal (rune : Rune)
  | any
  | oneOf (set : CharClass)
  deriving DecidableEq, Repr

inductive Mode where
  | outside
  | escape
  | opening
  | low (negated : Bool) (ranges : List (Nat × Nat))
  | lowEscape (negated : Bool) (ranges : List (Nat × Nat))
  | between (negated : Bool) (ranges : List (Nat × Nat)) (low : Nat)
  | high (negated : Bool) (ranges : List (Nat × Nat)) (low : Nat)
  | highEscape (negated : Bool) (ranges : List (Nat × Nat)) (low : Nat)
  | closing (negated : Bool) (ranges : List (Nat × Nat))

/-- The code point of a bound. No stray byte is one, not even an escaped one. -/
def bound : Rune → Except Malformed Nat
  | .char c => return c.toNat
  | .stray _ => throw .malformed

/-- The start of a range: a dash or a closing bracket must be escaped. -/
def startRange (negated : Bool) (ranges : List (Nat × Nat)) (c : Rune) : Except Malformed Mode := do
  if c = '-' ∨ c = ']' then throw .malformed
  else if c = '\\' then return .lowEscape negated ranges
  else return .between negated ranges (← bound c)

def endRange (negated : Bool) (ranges : List (Nat × Nat)) (low : Nat) (c : Rune) : Except Malformed Mode := do
  return .closing negated (ranges ++ [(low, ← bound c)])

/-- Reads a segment. A class has at least one range, and nothing may be left open at the end. -/
def readItems : Mode → List Rune → Except Malformed (List Item)
  | .outside, [] => return []
  | _, [] => throw .malformed
  | .outside, c :: rest =>
    if c = '[' then readItems .opening rest
    else if c = '\\' then readItems .escape rest
    else if c = '?' then return .any :: (← readItems .outside rest)
    else return .literal c :: (← readItems .outside rest)
  | .escape, c :: rest => return .literal c :: (← readItems .outside rest)
  | .opening, c :: rest => do
    if c = '^' then readItems (.low true []) rest else readItems (← startRange false [] c) rest
  | .low negated ranges, c :: rest => do readItems (← startRange negated ranges c) rest
  | .lowEscape negated ranges, c :: rest => do readItems (.between negated ranges (← bound c)) rest
  | .between negated ranges low, c :: rest => do
    if c = '-' then readItems (.high negated ranges low) rest
    else
      let ranges := ranges ++ [(low, low)]
      if c = ']' then return .oneOf ⟨negated, ranges⟩ :: (← readItems .outside rest)
      else readItems (← startRange negated ranges c) rest
  | .high negated ranges low, c :: rest => do
    if c = '-' ∨ c = ']' then throw .malformed
    else if c = '\\' then readItems (.highEscape negated ranges low) rest
    else readItems (← endRange negated ranges low c) rest
  | .highEscape negated ranges low, c :: rest => do readItems (← endRange negated ranges low c) rest
  | .closing negated ranges, c :: rest => do
    if c = ']' then return .oneOf ⟨negated, ranges⟩ :: (← readItems .outside rest)
    else readItems (← startRange negated ranges c) rest

def slash : UInt8 := 0x2f

def strip? : Bytes → Bytes → Option Bytes
  | [], name => some name
  | _ :: _, [] => none
  | byte :: bytes, first :: rest => if byte = first then strip? bytes rest else none

/-- What is left of a name behind an item. A class may take a slash, the question mark may not. -/
def Item.take? (item : Item) (name : Bytes) : Option Bytes :=
  match item with
  | .literal rune => strip? rune.bytes name
  | .any => do
    let (rune, rest) ← Utf8.decode? name
    if rune = '/' then none else some rest
  | .oneOf set => do
    let (rune, rest) ← Utf8.decode? name
    if set.contains rune.toChar.toNat then some rest else none

def takeAll? : List Item → Bytes → Option Bytes
  | [], name => some name
  | item :: items, name => (item.take? name).bind (takeAll? items)

end ClauseReach.Glob
