import ClauseReach.Settings
import ClauseReach.Yaml.Document
import ClauseReach.Yaml.Value

/-!
Settings written in YAML: the decoder that settings files are read with.
-/

namespace ClauseReach.Settings

open Text
open Utf8 (Bytes)

open Yaml

def sameKey (left right : Node) : Bool :=
  match left, right with
  | .scalar _ _ left, .scalar _ _ right => left = right
  | .reference left _, .reference right _ => left = right
  | .sequence _, .sequence _ | .mapping _, .mapping _ => true
  | _, _ => false

def hasRepeatedKey : List (Node × Node) → Bool
  | [] => false
  | (key, _) :: rest => rest.any (sameKey key ·.1) || hasRepeatedKey rest

/-- The key whose value holds more entries, for keys that are not there themselves. -/
def isMergeKey : Node → Bool
  | .scalar tag plain text => text = "<<" && (tag = some "!!merge" || (tag.isNone && plain))
  | _ => false

/-- Settings in the making, with the number of nodes visited so far, and of those among them that
were reached by a reference. -/
structure Loading where
  settings : Settings
  visited : Nat := 0
  referred : Nat := 0

abbrev Load := StateT Loading Option

def Loading.isExcessive (loading : Loading) : Bool :=
  loading.referred > 100 && loading.visited > 1000 && loading.referred * 100 > loading.visited * 99

def count (referred : Bool) : Load Unit := do
  modify fun loading =>
    { loading with
      visited := loading.visited + 1
      referred := if referred then loading.referred + 1 else loading.referred }
  if (← get).isExcessive then failure

def visit (document : Document) (referred : Bool) (node : Node) : Load (Node × Bool) := do
  count referred
  match node with
  | .reference .. =>
    count true
    return (document.resolve node, true)
  | node => return (node, referred)

def text (document : Document) (referred : Bool) (node : Node) : Load (Option Bytes) := do
  let (.scalar tag plain text, _) ← visit document referred node | failure
  match ← Value.ofScalar? tag plain text with
  | .null => return none
  | .text bytes => return some bytes
  | .bool _ | .number => return some (Utf8.encode text)

def truth (document : Document) (referred : Bool) (node : Node) : Load (Option Bool) := do
  let (.scalar tag plain text, _) ← visit document referred node | failure
  match ← Value.ofScalar? tag plain text with
  | .null => return none
  | .bool value => return some value
  | .text bytes => return some (← Value.olderWord? bytes)
  | .number => failure

def texts (document : Document) (referred : Bool) (node : Node) : Load (List Bytes) := do
  match ← visit document referred node with
  | (.sequence elements, referred) =>
    return (← elements.mapM (text document referred)).filterMap id
  | (.scalar tag plain text, _) =>
    if (← Value.ofScalar? tag plain text) = .null then return [] else failure
  | _ => failure

def update (change : Settings → Settings) : Load Unit :=
  modify fun loading => { loading with settings := change loading.settings }

def names : List Bytes := ["tests", "color", "exclude"].map Utf8.encode

/-- Takes over one entry. A key that is no setting is passed over, and a truth value or a color that
is not given stays as it is. -/
def set (document : Document) (referred : Bool) (name : Bytes) (value : Node) : Load Unit := do
  if name = Utf8.encode "tests" then
    if let some tests ← truth document referred value then update ({ · with tests })
  else if name = Utf8.encode "color" then
    if let some color ← text document referred value then update ({ · with color })
  else if name = Utf8.encode "exclude" then
    let exclude ← texts document referred value
    update ({ · with exclude })

/-- Takes over the entries of a mapping. `known` holds the keys that are not to be merged again, if
the mapping is one that is merged into another; the result is what it holds afterwards. No setting
may be given twice. -/
def setAll (document : Document) (referred : Bool) :
    List (Node × Node) → Option (List Bytes) → List Bytes → Load (Option (List Bytes))
  | [], known, _ => return known
  | (key, value) :: rest, known, given => do
    if isMergeKey key then setAll document referred rest known given
    else
      match ← text document referred key with
      | none => setAll document referred rest known given
      | some name =>
        if known.any (·.contains name) then setAll document referred rest known given
        else
          let known := known.map (name :: ·)
          if given.contains name then failure
          set document referred name value
          let given := if names.contains name then name :: given else given
          setAll document referred rest known given

def mergeValue? (entries : List (Node × Node)) : Option Node :=
  (entries.find? (isMergeKey ·.1)).map (·.2)

mutual

/-- Takes over a mapping. An entry of its own comes before one that is merged into it. -/
def mapping (document : Document) (fuel : Nat) (referred : Bool) (known : Option (List Bytes))
    (entries : List (Node × Node)) : Load (Option (List Bytes)) :=
  match fuel with
  | 0 => failure
  | fuel + 1 => do
    if hasRepeatedKey entries then failure
    let known ← setAll document referred entries known []
    match mergeValue? entries with
    | none => return known
    | some value =>
      let inner ← match known with
        | some known => pure known
        | none => do pure ((← entries.mapM (text document referred ·.1)).filterMap id)
      let inner ← match value with
        | .sequence elements => mergeAll document fuel referred inner elements
        | value => merge document fuel referred inner value
      return known.map fun _ => inner

def mergeAll (document : Document) (fuel : Nat) (referred : Bool) (known : List Bytes)
    (values : List Node) : Load (List Bytes) :=
  match fuel, values with
  | 0, _ => failure
  | _, [] => return known
  | fuel + 1, value :: rest => do
    let known ← merge document fuel referred known value
    mergeAll document fuel referred known rest

def merge (document : Document) (fuel : Nat) (referred : Bool) (known : List Bytes)
    (value : Node) : Load (List Bytes) :=
  match fuel with
  | 0 => failure
  | fuel + 1 => do
    let (.mapping entries, referred) ← visit document referred value | failure
    return (← mapping document fuel referred (some known) entries).getD known

end

def ofDocument? (defaults : Settings) (document : Document) (fuel : Nat) : Option Settings := do
  let read : Load Unit := do
    count false
    count false
    match document.root with
    | .mapping entries => discard <| mapping document fuel false none entries
    | .scalar tag plain text => if (← Value.ofScalar? tag plain text) ≠ .null then failure
    | _ => failure
  let (_, loading) ← read.run { settings := defaults }
  return loading.settings

/-- Reads a text. No document nests more deeply than its text is long, unless a node contains
itself. -/
def ofText? (defaults : Settings) (content : String) : Option Settings :=
  match Document.read content with
  | .error _ => none
  | .ok none => some defaults
  | .ok (some document) => ofDocument? defaults document (4 * content.length + 8)

end ClauseReach.Settings
