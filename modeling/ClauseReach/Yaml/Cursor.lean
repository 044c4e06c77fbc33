import ClauseReach.Yaml.Error

/-!
A place in a text: what is left of the text from there on, and the line and the column. Texts are
read in blocks of bytes, and a block with a forbidden character cannot be read at all.
-/

namespace ClauseReach.Yaml

def isBlank (c : Char) : Bool := c = ' ' || c = '\t'

def isBreak (c : Char) : Bool :=
  c = '\n' || c = '\r' || c = '\u0085' || c = '\u2028' || c = '\u2029'

def orderMark : Char := '\ufeff'

def atGap : List Char → Bool
  | [] => true
  | c :: _ => isBlank c || isBreak c

def atBreak : List Char → Bool
  | [] => false
  | c :: _ => isBreak c

def atLineEnd : List Char → Bool
  | [] => true
  | c :: _ => isBreak c

def isNameChar (c : Char) : Bool := c.isAlphanum || c = '_' || c = '-'

def isAllowed (c : Char) : Bool :=
  let code := c.toNat
  code = 0x09 || code = 0x0a || code = 0x0d || (0x20 ≤ code && code ≤ 0x7e) || code = 0x85 ||
    (0xa0 ≤ code && code ≤ 0xfffd) || 0x10000 ≤ code

def blockSize : Nat := 512

/-- The part of a text that can be read, and whether it breaks off before a block that cannot.
`room` bytes are left in the block; `block` is what the block holds, last character first. -/
def readable (room : Nat) (block : List Char) : List Char → List Char × Bool
  | [] => (block.reverse, false)
  | c :: rest =>
    let full := room < c.utf8Size
    let start := if full then block.reverse else []
    if !isAllowed c then (start, true)
    else
      let (more, torn) :=
        if full then readable (blockSize - c.utf8Size) [c] rest
        else readable (room - c.utf8Size) (c :: block) rest
      (start ++ more, torn)

/-- What can be read of a text. A byte order mark in front does not belong to it. -/
def readText (text : List Char) : List Char × Bool :=
  match text with
  | c :: rest =>
    if c = orderMark then readable (blockSize - c.utf8Size) [] rest
    else readable blockSize [] text
  | [] => ([], false)

structure Mark where
  index : Nat
  line : Nat
  column : Nat
  deriving DecidableEq, Repr

/-- `fresh` tells whether only blanks have been passed since the last line end. -/
structure Cursor where
  mark : Mark
  rest : List Char
  fresh : Bool

namespace Cursor

def start (text : List Char) : Cursor := ⟨⟨0, 0, 0⟩, text, false⟩

def column (cursor : Cursor) : Nat := cursor.mark.column

def advance (cursor : Cursor) (count : Nat) : Cursor where
  mark := { cursor.mark with
    index := cursor.mark.index + count, column := cursor.mark.column + count }
  rest := cursor.rest.drop count
  fresh := cursor.fresh && (cursor.rest.take count).all isBlank

def skipWhile (cursor : Cursor) (passes : Char → Bool) : Cursor :=
  cursor.advance (cursor.rest.takeWhile passes).length

def skipBreak (cursor : Cursor) : Cursor :=
  match cursor.rest with
  | '\r' :: '\n' :: rest => nextLine 2 rest
  | c :: rest => if isBreak c then nextLine 1 rest else cursor
  | [] => cursor
where
  nextLine (width : Nat) (rest : List Char) : Cursor :=
    ⟨⟨cursor.mark.index + width, cursor.mark.line + 1, 0⟩, rest, true⟩

def breakText (cursor : Cursor) : List Char :=
  match cursor.rest with
  | c :: _ => if c = '\u2028' || c = '\u2029' then [c] else if isBreak c then ['\n'] else []
  | [] => []

def atDocumentMark (cursor : Cursor) : Bool :=
  cursor.column = 0 &&
    (cursor.rest.take 3 = ['-', '-', '-'] || cursor.rest.take 3 = ['.', '.', '.']) &&
    atGap (cursor.rest.drop 3)

end Cursor

end ClauseReach.Yaml
