import ClauseReach.Text.Utf8

/-!
Bytes written in base 64: four digits for three bytes, filled up at the end with equals signs. Line
ends between the digits do not count.
-/

namespace ClauseReach.Text.Base64

def digit? (c : Char) : Option Nat :=
  if c.isUpper then some (c.toNat - 'A'.toNat)
  else if c.isLower then some (c.toNat - 'a'.toNat + 26)
  else if c.isDigit then some (c.toNat - '0'.toNat + 52)
  else if c = '+' then some 62
  else if c = '/' then some 63
  else none

def group? (count : Nat) (first second third fourth : Char) : Option Utf8.Bytes := do
  let value := 64 * (64 * (64 * (← digit? first) + (← digit? second)) + (← digit? third)) +
    (← digit? fourth)
  return [value / 65536, value / 256, value].take count |>.map UInt8.ofNat

def decodeDigits? : List Char → Option Utf8.Bytes
  | [] => some []
  | [first, second, '=', '='] => group? 1 first second 'A' 'A'
  | [first, second, third, '='] => group? 2 first second third 'A'
  | first :: second :: third :: fourth :: rest => do
    return (← group? 3 first second third fourth) ++ (← decodeDigits? rest)
  | _ => none

def decode? (text : String) : Option Utf8.Bytes :=
  decodeDigits? (text.toList.filter fun c => c ≠ '\n' && c ≠ '\r')

end ClauseReach.Text.Base64
