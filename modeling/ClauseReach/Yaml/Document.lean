import ClauseReach.Yaml.Node
import ClauseReach.Yaml.Token.Stream

/-!
Reading the first document of a text. Nothing behind the document is looked at, but for the two
tokens that are found ahead.
-/

namespace ClauseReach.Yaml

/-- `handles` are those of the tags, `anchors` the names with the places of their nodes, latest
first. -/
structure Reader where
  stream : Stream
  handles : List (String × String) := []
  anchors : List (String × Nat) := []
  anchored : Array Node := #[]

namespace Reader

abbrev Read := StateT Reader (Except Error)

def peek : Read Token := do
  let (token, stream) ← Stream.peek.run (← get).stream
  modify fun reader => { reader with stream }
  return token

def take : Read Unit := do
  let (_, stream) ← Stream.take.run (← get).stream
  modify fun reader => { reader with stream }

/-- Keeps a place for a node with an anchor. The name is known inside the node already. -/
def anchor (name : Option String) : Read (Option Nat) := do
  let some name := name | return none
  let place := (← get).anchored.size
  modify fun reader =>
    { reader with anchors := (name, place) :: reader.anchors, anchored := reader.anchored.push .empty }
  return some place

def settle (place : Option Nat) (node : Node) : Read Node := do
  if let some place := place then
    modify fun reader => { reader with anchored := reader.anchored.setIfInBounds place node }
  return node

def reference (name : String) : Read Node := do
  match (← get).anchors.lookup name with
  | some target => return .reference name target
  | none => throw .unknownAnchor

def languageTags : String := "tag:yaml.org,2002:"

def shortTag (tag : String) : String :=
  match tag.dropPrefix? languageTags with
  | some name => "!!" ++ name.toString
  | none => tag

/-- A tag by its handle. One exclamation mark alone is the same as no tag. -/
def fullTag (handle suffix : String) : Read String := do
  if handle.isEmpty then return suffix
  match (← get).handles.lookup handle with
  | some meaning => return meaning ++ suffix
  | none => throw .unknownHandle

structure Properties where
  anchor : Option String := none
  tag : Option String := none

def tag? : Read (Option String) := do
  let .tag handle suffix ← peek | return none
  take
  return some (← fullTag handle suffix)

def anchor? : Read (Option String) := do
  let .anchor name ← peek | return none
  take
  return some name

def properties : Read Properties := do
  match ← anchor? with
  | some name => return { anchor := some name, tag := ← tag? }
  | none =>
    match ← tag? with
    | some tag => return { anchor := ← anchor?, tag := some tag }
    | none => return {}

def scalar (given : Properties) (plain : Bool) (text : String) : Read Node := do
  let tag := (given.tag.filter (· ≠ "!")).map shortTag
  settle (← anchor given.anchor) (.scalar tag plain text)

mutual

/-- Reads a node. Blocks may stand here if `block` says so, and the dashes of a sequence may be in
the column of the key if `level` does. -/
def node (fuel : Nat) (block level : Bool) : Read Node :=
  match fuel with
  | 0 => throw .exhausted
  | fuel + 1 => do
    if let .reference name ← peek then
      take
      return ← reference name
    let given ← properties
    match ← peek with
    | .scalar plain text =>
      take
      scalar given plain text
    | .bracketOpen =>
      take
      let place ← anchor given.anchor
      settle place (.sequence (← bracketEntries fuel true))
    | .braceOpen =>
      take
      let place ← anchor given.anchor
      settle place (.mapping (← braceEntries fuel true))
    | token =>
      if level && token = .dash then
        let place ← anchor given.anchor
        settle place (.sequence (← levelEntries fuel))
      else if block && token = .blockSequence then
        take
        let place ← anchor given.anchor
        settle place (.sequence (← blockElements fuel))
      else if block && token = .blockMapping then
        take
        let place ← anchor given.anchor
        settle place (.mapping (← blockEntries fuel))
      else if given.anchor.isSome || given.tag.isSome then
        scalar given true ""
      else throw .unexpectedToken

def nodeUnless (fuel : Nat) (ends : List Token) (block level : Bool) : Read Node :=
  match fuel with
  | 0 => throw .exhausted
  | fuel + 1 => do
    if ends.contains (← peek) then return .empty
    node fuel block level

def blockElements (fuel : Nat) : Read (List Node) :=
  match fuel with
  | 0 => throw .exhausted
  | fuel + 1 => do
    match ← peek with
    | .dash =>
      take
      let element ← nodeUnless fuel [.dash, .blockEnd] true false
      return element :: (← blockElements fuel)
    | .blockEnd =>
      take
      return []
    | _ => throw .unexpectedToken

/-- Elements whose dashes are in the column of the key before them. -/
def levelEntries (fuel : Nat) : Read (List Node) :=
  match fuel with
  | 0 => throw .exhausted
  | fuel + 1 => do
    match ← peek with
    | .dash =>
      take
      let element ← nodeUnless fuel [.dash, .key, .value, .blockEnd] true false
      return element :: (← levelEntries fuel)
    | _ => return []

def blockEntries (fuel : Nat) : Read (List (Node × Node)) :=
  match fuel with
  | 0 => throw .exhausted
  | fuel + 1 => do
    match ← peek with
    | .key =>
      take
      let key ← nodeUnless fuel [.key, .value, .blockEnd] true true
      let value ← blockValue fuel
      return (key, value) :: (← blockEntries fuel)
    | .blockEnd =>
      take
      return []
    | _ => throw .unexpectedToken

def blockValue (fuel : Nat) : Read Node :=
  match fuel with
  | 0 => throw .exhausted
  | fuel + 1 => do
    let .value ← peek | return .empty
    take
    nodeUnless fuel [.key, .value, .blockEnd] true true

/-- Elements between brackets, with commas between them. A key among them makes a mapping of one
entry. -/
def bracketEntries (fuel : Nat) (first : Bool) : Read (List Node) :=
  match fuel with
  | 0 => throw .exhausted
  | fuel + 1 => do
    unless first || (← peek) = .bracketClose do
      let .comma ← peek | throw .unexpectedToken
      take
    match ← peek with
    | .bracketClose =>
      take
      return []
    | .key =>
      take
      let entry ← bracketPair fuel
      return .mapping [entry] :: (← bracketEntries fuel false)
    | _ =>
      let element ← node fuel false false
      return element :: (← bracketEntries fuel false)

def bracketPair (fuel : Nat) : Read (Node × Node) :=
  match fuel with
  | 0 => throw .exhausted
  | fuel + 1 => do
    let ends := [Token.value, .comma, .bracketClose].contains (← peek)
    if ends then take
    let key ← if ends then pure .empty else node fuel false false
    let .value ← peek | return (key, .empty)
    take
    return (key, ← nodeUnless fuel [.comma, .bracketClose] false false)

def braceEntries (fuel : Nat) (first : Bool) : Read (List (Node × Node)) :=
  match fuel with
  | 0 => throw .exhausted
  | fuel + 1 => do
    unless first || (← peek) = .braceClose do
      let .comma ← peek | throw .unexpectedToken
      take
    match ← peek with
    | .braceClose =>
      take
      return []
    | .key =>
      take
      let key ← nodeUnless fuel [.value, .comma, .braceClose] false false
      let value ← braceValue fuel
      return (key, value) :: (← braceEntries fuel false)
    | _ =>
      let key ← node fuel false false
      return (key, .empty) :: (← braceEntries fuel false)

def braceValue (fuel : Nat) : Read Node :=
  match fuel with
  | 0 => throw .exhausted
  | fuel + 1 => do
    let .value ← peek | return .empty
    take
    nodeUnless fuel [.comma, .braceClose] false false

end

def directives : Nat → Bool → List (String × String) → Read (List (String × String))
  | 0, _, _ => throw .exhausted
  | fuel + 1, versioned, handles => do
    match ← peek with
    | .version major minor =>
      if versioned || major ≠ 1 || minor ≠ 1 then throw .badDirective
      take
      directives fuel true handles
    | .handle name meaning =>
      if (handles.lookup name).isSome then throw .badDirective
      take
      directives fuel versioned (handles ++ [(name, meaning)])
    | _ => return handles

def ownHandles : List (String × String) := [("!", "!"), ("!!", languageTags)]

def document? (fuel : Nat) : Read (Option Document) := do
  take
  if (← peek) = .streamEnd then return none
  let bare := match ← peek with
    | .version .. | .handle .. | .documentStart => false
    | _ => true
  let handles ← directives fuel false []
  modify fun reader => { reader with handles := handles ++ ownHandles }
  let root ←
    if bare then node fuel true false
    else do
      let .documentStart ← peek | throw .unexpectedToken
      take
      match ← peek with
      | .version .. | .handle .. | .documentStart | .documentEnd | .streamEnd => pure .empty
      | _ => node fuel true false
  let _ ← peek
  return some { root, anchored := (← get).anchored }

end Reader

/-- The first document of a text, if there is one. A text of `n` characters has fewer than `4 n + 8`
tokens. -/
def Document.read (text : String) : Except Error (Option Document) := do
  let (text, torn) := readText text.toList
  let reader : Reader := { stream := { cursor := Cursor.start text, torn } }
  let (document, _) ← (Reader.document? (8 * text.length + 16)).run reader
  return document

end ClauseReach.Yaml
