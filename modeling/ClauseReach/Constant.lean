/-!
Compile-time constants with exact numbers. Numbers of different kinds are compared by value; an
unknown constant matches nothing, itself included.
-/

namespace ClauseReach

inductive Constant where
  | unknown
  | bool (value : Bool)
  | text (bytes : List UInt8)
  | int (value : Int)
  | float (value : Rat)
  | complex (re im : Rat)
  deriving DecidableEq

namespace Constant

/-- Whether two constants are equal after the narrower number is widened to the other's kind. -/
def equals : Constant → Constant → Bool
  | .bool left, .bool right => left == right
  | .text left, .text right => left == right
  | .int left, .int right => left == right
  | .int left, .float right => (left : Rat) == right
  | .float left, .int right => left == (right : Rat)
  | .float left, .float right => left == right
  | .int left, .complex re im => (left : Rat) == re && im == 0
  | .complex re im, .int right => re == (right : Rat) && im == 0
  | .float left, .complex re im => left == re && im == 0
  | .complex re im, .float right => re == right && im == 0
  | .complex re im, .complex re' im' => re == re' && im == im'
  | _, _ => false

def equal? : Option Constant → Option Constant → Bool
  | some left, some right => left.equals right
  | _, _ => false

def real? : Constant → Option Rat
  | .int value => some value
  | .float value => some value
  | _ => none

def ofParts (re im : Constant) : Constant :=
  match re.real?, im.real? with
  | some re, some im => .complex re im
  | _, _ => .unknown

end Constant

end ClauseReach
