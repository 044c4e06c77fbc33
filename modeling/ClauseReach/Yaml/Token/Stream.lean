import ClauseReach.Yaml.Comment
import ClauseReach.Yaml.Property
import ClauseReach.Yaml.Scalar.Block
import ClauseReach.Yaml.Scalar.Plain

/-!
The stream of the tokens of a text. Tokens are found on demand and wait in a queue. What turns out
to be a key by a colon behind it gets its token put in front later, so a token leaves the queue
only once it is clear whether it starts a key.
-/

namespace ClauseReach.Yaml

/-- The start of a possible key: the number of its first token, and its place. On a line where the
keys of the block stand, it has to be one. -/
structure KeyStart where
  required : Bool
  number : Nat
  mark : Mark

/-- `torn` tells that the text cannot be read beyond its end. `taken` tokens have left the queue.
`blocks` holds the margins of the open blocks, innermost first: where the lines of the block start,
plus one. `outer` holds the possible keys outside of each open bracket. -/
structure Stream where
  cursor : Cursor
  torn : Bool
  queue : List Token := [.streamStart]
  taken : Nat := 0
  blocks : List Nat := []
  keyAllowed : Bool := true
  key : Option KeyStart := none
  outer : List (Option KeyStart) := []

namespace Stream

abbrev Scan := StateT Stream (Except Error)

def depthLimit : Nat := 10000

/-- How long a key may be that has no mark of its own. -/
def keyLimit : Nat := 1024

def margin (stream : Stream) : Nat := stream.blocks.headD 0

def bracketed (stream : Stream) : Bool := !stream.outer.isEmpty

def holds (stream : Stream) (key : KeyStart) : Bool :=
  stream.cursor.mark.line ≤ key.mark.line && stream.cursor.mark.index ≤ key.mark.index + keyLimit

def push (token : Token) : Scan Unit :=
  modify fun stream => { stream with queue := stream.queue ++ [token] }

def insert (number : Nat) (token : Token) : Scan Unit :=
  modify fun stream =>
    let (front, back) := stream.queue.splitAt (number - stream.taken)
    { stream with queue := front ++ token :: back }

def moveTo (cursor : Cursor) : Scan Unit :=
  modify fun stream => { stream with cursor }

def allowKey (keyAllowed : Bool) : Scan Unit :=
  modify fun stream => { stream with keyAllowed }

def pushIndicator (token : Token) (width : Nat) : Scan Unit := do
  moveTo ((← get).cursor.advance width)
  push token

def dropKey : Scan Unit := do
  if (← get).key.any (·.required) then throw .lonelyKey
  modify fun stream => { stream with key := none }

def noteKey : Scan Unit := do
  if (← get).keyAllowed then
    dropKey
    modify fun stream =>
      { stream with
        key := some
          { required := !stream.bracketed && stream.margin = stream.cursor.column + 1
            number := stream.taken + stream.queue.length
            mark := stream.cursor.mark } }

/-- Opens a block at a column, unless it is open. Its token goes in front of the numbered one. -/
def openBlock (column : Nat) (number : Option Nat) (token : Token) : Scan Unit := do
  let stream ← get
  if !stream.bracketed && stream.margin ≤ column then
    if stream.blocks.length ≥ depthLimit then throw .tooDeep
    modify fun stream => { stream with blocks := (column + 1) :: stream.blocks }
    match number with
    | some number => insert number token
    | none => push token

def closeBlocks (margin : Nat) : Scan Unit :=
  modify fun stream =>
    if stream.bracketed then stream
    else
      let (closed, blocks) := stream.blocks.span (margin < ·)
      { stream with blocks, queue := stream.queue ++ closed.map fun _ => .blockEnd }

def scanStreamEnd : Scan Unit := do
  modify fun stream =>
    let mark := stream.cursor.mark
    if mark.column = 0 then stream
    else { stream with cursor.mark := { mark with line := mark.line + 1, column := 0 } }
  closeBlocks 0
  dropKey
  allowKey false
  push .streamEnd

def scanDirective : Scan Unit := do
  closeBlocks 0
  dropKey
  allowKey false
  let (token, cursor) ← Property.scanDirective (← get).cursor
  moveTo cursor
  push token

def scanDocumentMark (token : Token) : Scan Unit := do
  closeBlocks 0
  dropKey
  allowKey false
  pushIndicator token 3

def scanOpening (token : Token) : Scan Unit := do
  noteKey
  if (← get).outer.length ≥ depthLimit then throw .tooDeep
  modify fun stream =>
    { stream with key := none, outer := stream.key :: stream.outer, keyAllowed := true }
  pushIndicator token 1

def scanClosing (token : Token) : Scan Unit := do
  dropKey
  modify fun stream =>
    match stream.outer with
    | [] => { stream with keyAllowed := false }
    | key :: outer => { stream with key, outer, keyAllowed := false }
  pushIndicator token 1

def scanComma : Scan Unit := do
  dropKey
  allowKey true
  pushIndicator .comma 1

def scanDash : Scan Unit := do
  let stream ← get
  if !stream.bracketed then
    if !stream.keyAllowed then throw .misplacedEntry
    openBlock stream.cursor.column none .blockSequence
  dropKey
  allowKey true
  pushIndicator .dash 1

def scanQuestion : Scan Unit := do
  let stream ← get
  if !stream.bracketed then
    if !stream.keyAllowed then throw .misplacedKey
    openBlock stream.cursor.column none .blockMapping
  dropKey
  allowKey !stream.bracketed
  pushIndicator .key 1

/-- The colon between a key and its value. What stands before it becomes the key if it can. -/
def scanColon : Scan Unit := do
  let stream ← get
  match stream.key.filter stream.holds with
  | some key =>
    insert key.number .key
    openBlock key.mark.column (some key.number) .blockMapping
    modify fun stream => { stream with key := none, keyAllowed := false }
  | none =>
    dropKey
    if !stream.bracketed then
      if !stream.keyAllowed then throw .misplacedValue
      openBlock stream.cursor.column none .blockMapping
    allowKey !stream.bracketed
  pushIndicator .value 1

def scanName (token : String → Token) : Scan Unit := do
  noteKey
  allowKey false
  let (name, cursor) ← Property.scanName (← get).cursor
  moveTo cursor
  push (token name)

def scanTag : Scan Unit := do
  noteKey
  allowKey false
  let (token, cursor) ← Property.scanTag (← get).cursor
  moveTo cursor
  push token

def scanBlockScalar (literal : Bool) : Scan Unit := do
  dropKey
  allowKey true
  let stream ← get
  let (text, cursor) ← Block.scan literal stream.margin stream.cursor
  moveTo cursor
  push (.scalar false (String.ofList text))

def scanQuoted (single : Bool) : Scan Unit := do
  noteKey
  allowKey false
  let (text, cursor) ← Quoted.scan single (← get).cursor
  moveTo cursor
  push (.scalar false (String.ofList text))

def scanPlain : Scan Unit := do
  noteKey
  let stream ← get
  let (text, ended, cursor) ← Plain.scan stream.bracketed stream.margin stream.cursor
  allowKey ended
  moveTo cursor
  push (.scalar true (String.ofList text))

def scanContent (c : Char) (rest : List Char) : Scan Unit := do
  let bracketed := (← get).bracketed
  let separate := bracketed || atGap rest
  match c with
  | '[' => scanOpening .bracketOpen
  | '\x7b' => scanOpening .braceOpen
  | ']' => scanClosing .bracketClose
  | '\x7d' => scanClosing .braceClose
  | ',' => scanComma
  | '*' => scanName .reference
  | '&' => scanName .anchor
  | '!' => scanTag
  | '\'' => scanQuoted true
  | '"' => scanQuoted false
  | _ =>
    if c = '-' && atGap rest then scanDash
    else if c = '?' && separate then scanQuestion
    else if c = ':' && separate then scanColon
    else if c = '|' && !bracketed then scanBlockScalar true
    else if c = '>' && !bracketed then scanBlockScalar false
    else if Plain.starts bracketed (c :: rest) then scanPlain
    else throw .strayCharacter

def skipGap : Scan Unit := do
  let stream ← get
  let (cursor, ended) := stream.cursor.skipGap stream.bracketed (stream.cursor.rest.length + 1)
    (stream.bracketed || !stream.keyAllowed) false
  moveTo cursor
  if ended && !stream.bracketed then allowKey true
  closeBlocks (cursor.column + 1)

/-- Passes the comment on the line of a token. Behind a dash it is left for the next token. -/
def skipLineComment : Scan Unit :=
  modify fun stream =>
    if stream.queue.getLast? = some .dash then stream
    else { stream with cursor := stream.cursor.skipLineComment }

/-- Fails where the text cannot be read for so many characters. -/
def require (count : Nat) : Scan Unit := do
  let stream ← get
  if stream.torn && stream.cursor.rest.length < count then throw .controlCharacter

def scanNext : Scan Unit := do
  skipGap
  require 4
  let cursor := (← get).cursor
  match cursor.rest with
  | [] => scanStreamEnd
  | c :: rest =>
    if cursor.column = 0 && c = '%' then scanDirective
    else if cursor.atDocumentMark then
      scanDocumentMark (if c = '-' then .documentStart else .documentEnd)
    else
      scanContent c rest
      skipLineComment
  require 1

/-- Whether the first token of the queue has to wait: tokens are found two ahead, and further
while it may still become a key. -/
def mustScan : Scan Bool := do
  let stream ← get
  if stream.queue.length < 3 then return true
  match (stream.key :: stream.outer).find? (·.any (·.number = stream.taken)) with
  | some (some key) =>
    if stream.holds key then return true
    if key.required then throw .lonelyKey
    return false
  | _ => return false

def scanAhead : Nat → Scan Unit
  | 0 => throw .exhausted
  | fuel + 1 => do
    if ← mustScan then
      scanNext
      scanAhead fuel

def peek : Scan Token := do
  scanAhead ((← get).cursor.rest.length + 4)
  return (← get).queue.headD .streamEnd

def take : Scan Unit :=
  modify fun stream => { stream with queue := stream.queue.tail, taken := stream.taken + 1 }

end Stream

end ClauseReach.Yaml
