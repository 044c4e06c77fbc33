import ClauseReach.Constant

/-!
Number literals. Digits may be grouped by underscores; `0x`, `0b` and `0o` change the base, and in
an integer a leading `0` alone means octal. The exponent of a decimal literal scales by ten, that
of the other bases by two.
-/

namespace ClauseReach.Constant.Literal

def digit? (base : Nat) (c : Char) : Option Nat :=
  let value :=
    if c.isDigit then c.toNat - '0'.toNat
    else if 'a' ≤ c ∧ c ≤ 'f' then c.toNat - 'a'.toNat + 10
    else if 'A' ≤ c ∧ c ≤ 'F' then c.toNat - 'A'.toNat + 10
    else base
  if value < base then some value else none

/-- The number that the digits spell; no digits spell zero. -/
def digits? (base : Nat) (digits : List Char) : Option Nat :=
  digits.foldlM (fun value c => (digit? base c).map (base * value + ·)) 0

def base? : List Char → Option (Nat × List Char)
  | '0' :: mark :: rest =>
    if mark = 'x' ∨ mark = 'X' then some (16, rest)
    else if mark = 'b' ∨ mark = 'B' then some (2, rest)
    else if mark = 'o' ∨ mark = 'O' then some (8, rest)
    else none
  | _ => none

def natural? (literal : List Char) : Option Nat :=
  match base? literal, literal with
  | some (_, []), _ => none
  | some (base, digits), _ => digits? base digits
  | none, '0' :: digits => digits? 8 digits
  | none, [] => none
  | none, digits => digits? 10 digits

/-- Takes a sign off; the flag tells a minus. -/
def sign : List Char → Bool × List Char
  | '-' :: rest => (true, rest)
  | '+' :: rest => (false, rest)
  | literal => (false, literal)

def ungroup (literal : String) : List Char := literal.toList.filter (· ≠ '_')

def int? (literal : String) : Option Int :=
  let (negative, magnitude) := sign (ungroup literal)
  (natural? magnitude).map fun value => if negative then -(value : Int) else value

def power (base : Nat) (exponent : Int) : Rat :=
  let magnitude : Rat := (base.pow exponent.natAbs : Nat)
  if exponent < 0 then 1 / magnitude else magnitude

def decimal? (digits : List Char) : Option Int :=
  let (negative, magnitude) := sign digits
  if magnitude.isEmpty then none
  else (digits? 10 magnitude).map fun value => if negative then -(value : Int) else value

def scale? (base : Nat) : List Char → Option Rat
  | [] => some 1
  | mark :: exponent =>
    if base = 10 ∧ (mark = 'e' ∨ mark = 'E') then (decimal? exponent).map (power 10)
    else (decimal? exponent).map (power 2)

def isExponentMark (base : Nat) (c : Char) : Bool :=
  c = 'p' ∨ c = 'P' ∨ (base = 10 ∧ (c = 'e' ∨ c = 'E'))

def magnitude? (literal : List Char) : Option Rat := do
  let (base, rest) := (base? literal).getD (10, literal)
  let (mantissa, exponent) := rest.span (!isExponentMark base ·)
  let (whole, point) := mantissa.span (· ≠ '.')
  let fraction := point.drop 1
  if whole.isEmpty ∧ fraction.isEmpty then none
  else
    let value ← digits? base (whole ++ fraction)
    let factor ← scale? base exponent
    return (value : Rat) * power base (-fraction.length) * factor

/-- A quotient of two decimal integers, or a floating-point literal, in either case exactly. -/
def rational? (literal : String) : Option Rat :=
  let text := ungroup literal
  match text.span (· ≠ '/') with
  | (numerator, _ :: denominator) => do
    let numerator ← decimal? numerator
    let denominator ← decimal? denominator
    return (numerator : Rat) / (denominator : Rat)
  | _ =>
    let (negative, magnitude) := sign text
    (magnitude? magnitude).map fun value => if negative then -value else value

def int (literal : String) : Constant := ((int? literal).map Constant.int).getD .unknown

def float (literal : String) : Constant := ((rational? literal).map Constant.float).getD .unknown

end ClauseReach.Constant.Literal
