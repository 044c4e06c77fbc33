/-!
Labels: the places in a function that a jump can name. A label is an identity with a kind and,
for display, a name; two labels of one kind and name are still different places.
-/

namespace ClauseReach

namespace Label

/-- What a label marks. A code outside the five known kinds keeps its number. -/
inductive Kind where
  | case
  | default
  | break
  | continue
  | user
  | other (code : Int)
  deriving DecidableEq, Repr

def Kind.ofCode (code : Int) : Kind :=
  match code with
  | 0 => .case
  | 1 => .default
  | 2 => .break
  | 3 => .continue
  | 4 => .user
  | code => .other code

def Kind.text : Kind → String
  | .case => "case"
  | .default => "default"
  | .break => "break"
  | .continue => "continue"
  | .user => "label"
  | .other code => s!"LabelKind({code})"

end Label

/-- A jump target. The serial number tells apart labels of one kind and name. -/
structure Label where
  serial : Nat
  kind : Label.Kind
  name : String
  deriving DecidableEq, Repr

def Label.text (label : Label) : String :=
  if label.name = "" then label.kind.text else s!"{label.kind.text} {label.name}"

/-- Where a branch goes. A branch to no label is kept under a key of its own. -/
abbrev Dest := Option Label

def Dest.text (dest : Dest) : String :=
  match dest with
  | some label => label.text
  | none => "nil"

end ClauseReach
