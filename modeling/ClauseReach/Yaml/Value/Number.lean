/-!
Which texts are numbers. Underscores between digits do not count.
-/

namespace ClauseReach.Yaml.Number

def digit? (base : Nat) (c : Char) : Option Nat :=
  let value :=
    if c.isDigit then c.toNat - '0'.toNat
    else if c.isLower then c.toNat - 'a'.toNat + 10
    else if c.isUpper then c.toNat - 'A'.toNat + 10
    else base
  if value < base then some value else none

def digits? (base : Nat) (text : List Char) : Option Nat :=
  text.foldlM (fun value c => (digit? base c).map (base * value + ·)) 0

def unsigned? (text : List Char) : Option Nat :=
  match text with
  | [] => none
  | '0' :: mark :: first :: rest =>
    match mark.toLower with
    | 'b' => digits? 2 (first :: rest)
    | 'o' => digits? 8 (first :: rest)
    | 'x' => digits? 16 (first :: rest)
    | _ => digits? 8 (mark :: first :: rest)
  | '0' :: rest => digits? 8 rest
  | text => digits? 10 text

def signed? (read? : List Char → Option Nat) (text : List Char) : Option Int :=
  match text with
  | '-' :: rest => do
    let value ← read? rest
    if value ≤ Nat.pow 2 63 then some (-value) else none
  | '+' :: rest => positive rest
  | text => positive text
where
  positive (rest : List Char) : Option Int := do
    let value ← read? rest
    if value < Nat.pow 2 63 then some value else none

def nonempty? (base : Nat) (text : List Char) : Option Nat :=
  if text.isEmpty then none else digits? base text

/-- Signs are also read behind the mark of a base. -/
def signedInside? (text : List Char) : Option Int :=
  match text with
  | '0' :: 'b' :: rest => signed? (nonempty? 2) rest
  | '0' :: 'o' :: rest => signed? (nonempty? 8) rest
  | _ => none

def starts (text : List Char) : Bool :=
  text.head?.any fun c => c.isDigit || c = '+' || c = '-'

def isSigned (text : List Char) : Bool :=
  (signed? unsigned? text).isSome || (signedInside? text).isSome

def isUnsigned (text : List Char) : Bool := (unsigned? text).any (· < Nat.pow 2 64)

structure Decimal where
  whole : List Char
  fraction : List Char
  exponent : Int

def exponent? : List Char → Option Int
  | [] => some 0
  | mark :: rest =>
    if mark ≠ 'e' && mark ≠ 'E' then none
    else
      match rest with
      | '-' :: rest => (nonempty? 10 rest).map fun value => -value
      | '+' :: rest => (nonempty? 10 rest).map fun value => value
      | rest => (nonempty? 10 rest).map fun value => value

def decimal? (text : List Char) : Option Decimal := do
  let text := match text with
    | '+' :: rest | '-' :: rest => rest
    | text => text
  let (whole, rest) := text.span Char.isDigit
  let (fraction, rest) := match rest with
    | '.' :: rest => rest.span Char.isDigit
    | rest => ([], rest)
  if whole.isEmpty && fraction.isEmpty then none
  else return { whole, fraction, exponent := ← exponent? rest }

/-- Numbers from here on are too large for a double. -/
def limit : Nat := Nat.pow 2 1024 - Nat.pow 2 970

def Decimal.fits (decimal : Decimal) : Bool :=
  let digits := (decimal.whole ++ decimal.fraction).dropWhile (· = '0')
  let value := (digits? 10 digits).getD 0
  let exponent := decimal.exponent - decimal.fraction.length
  let size := digits.length + exponent
  if digits.isEmpty || size < 300 then true
  else if 310 < size then false
  else if 0 ≤ exponent then value * Nat.pow 10 exponent.toNat < limit
  else value < limit * Nat.pow 10 (-exponent).toNat

def isDecimal (text : List Char) : Bool := (decimal? text).any Decimal.fits

def withoutUnderscores (text : List Char) : List Char := text.filter (· ≠ '_')

def separated : List Char → Bool
  | before :: '_' :: after :: rest =>
    before.isDigit && after.isDigit && separated (after :: rest)
  | [_, '_'] => false
  | c :: rest => c ≠ '_' && separated rest
  | [] => true

def words : List String :=
  [".nan", ".NaN", ".NAN", ".inf", ".Inf", ".INF", "+.inf", "+.Inf", "+.INF", "-.inf", "-.Inf",
    "-.INF"]

def isWhole (text : String) : Bool :=
  let digits := withoutUnderscores text.toList
  starts text.toList && (isSigned digits || isUnsigned digits)

/-- Whether a text is a number. A whole one is, if it fits in 64 bits with its sign. -/
def isNumber (text : String) : Bool :=
  let digits := withoutUnderscores text.toList
  words.contains text ||
    (if text.toList.head? = some '.' then separated text.toList && isDecimal digits
    else starts text.toList && (isSigned digits || (!isUnsigned digits && isDecimal digits)))

end ClauseReach.Yaml.Number
