/-!
Reading characters from UTF-8 bytes. Where the bytes encode no character, one byte is read by itself.
-/

namespace ClauseReach.Text.Utf8

abbrev Bytes := List UInt8

def encodeChar (c : Char) : Bytes := String.utf8EncodeChar c

def encode (text : String) : Bytes := text.toList.flatMap encodeChar

/-- A character, or a byte where none is encoded. -/
inductive Rune where
  | char (c : Char)
  | stray (byte : UInt8)
  deriving DecidableEq, Repr

instance : Coe Char Rune := ⟨.char⟩

namespace Rune

def toChar : Rune → Char
  | .char c => c
  | .stray _ => '\ufffd'

def bytes : Rune → Bytes
  | .char c => encodeChar c
  | .stray byte => [byte]

end Rune

def continuation? (byte : UInt8) : Option Nat :=
  if 0x80 ≤ byte ∧ byte < 0xc0 then some (byte.toNat - 0x80) else none

def assemble? (lead : Nat) (least : Nat) (followers : List UInt8) : Option Nat := do
  let code ← followers.foldlM (fun code byte => (continuation? byte).map (64 * code + ·)) lead
  if least ≤ code ∧ code ≤ 0x10ffff ∧ ¬(0xd800 ≤ code ∧ code ≤ 0xdfff) then some code else none

/-- How many bytes follow a first byte, the bits it carries, and the least code point that needs
so many. -/
def shape? (byte : UInt8) : Option (Nat × Nat × Nat) :=
  let value := byte.toNat
  if value < 0x80 then some (0, value, 0)
  else if value < 0xc0 then none
  else if value < 0xe0 then some (1, value - 0xc0, 0x80)
  else if value < 0xf0 then some (2, value - 0xe0, 0x800)
  else if value < 0xf8 then some (3, value - 0xf0, 0x10000)
  else none

/-- What a first byte and those behind it start with, and how many of those belong to it. -/
def read (byte : UInt8) (rest : Bytes) : Rune × Nat :=
  let found : Option (Rune × Nat) := do
    let (count, lead, least) ← shape? byte
    let followers := rest.take count
    if followers.length < count then none
    else return (.char (Char.ofNat (← assemble? lead least followers)), count)
  found.getD (.stray byte, 0)

def decode? : Bytes → Option (Rune × Bytes)
  | [] => none
  | byte :: rest =>
    let (rune, more) := read byte rest
    some (rune, rest.drop more)

def runesAfter : Nat → Bytes → List Rune
  | _, [] => []
  | passed + 1, _ :: rest => runesAfter passed rest
  | 0, byte :: rest =>
    let (rune, more) := read byte rest
    rune :: runesAfter more rest

def runes (bytes : Bytes) : List Rune := runesAfter 0 bytes

def decode (bytes : Bytes) : String := String.ofList ((runes bytes).map Rune.toChar)

end ClauseReach.Text.Utf8
