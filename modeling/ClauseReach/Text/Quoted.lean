import ClauseReach.Text.Printable
import ClauseReach.Text.Utf8

/-!
Quoted text: between double quotes, with escapes for quotes, backslashes and all that cannot be
printed.
-/

namespace ClauseReach.Text.Quoted

def hex (width code : Nat) : String :=
  let digits := Nat.toDigits 16 code
  String.ofList (List.replicate (width - digits.length) '0' ++ digits)

def shortEscape? (c : Char) : Option String :=
  match c.toNat with
  | 0x07 => some "\\a"
  | 0x08 => some "\\b"
  | 0x09 => some "\\t"
  | 0x0a => some "\\n"
  | 0x0b => some "\\v"
  | 0x0c => some "\\f"
  | 0x0d => some "\\r"
  | 0x22 => some "\\\""
  | 0x5c => some "\\\\"
  | _ => none

def escape (c : Char) : String :=
  match shortEscape? c with
  | some escaped => escaped
  | none =>
    if isPrintable c then String.singleton c
    else if c.toNat < 0x80 then "\\x" ++ hex 2 c.toNat
    else if c.toNat < 0x10000 then "\\u" ++ hex 4 c.toNat
    else "\\U" ++ hex 8 c.toNat

def escapeRune : Utf8.Rune → String
  | .char c => escape c
  | .stray byte => "\\x" ++ hex 2 byte.toNat

def quote (bytes : Utf8.Bytes) : String := "\"" ++ String.join ((Utf8.runes bytes).map escapeRune) ++ "\""

end ClauseReach.Text.Quoted
