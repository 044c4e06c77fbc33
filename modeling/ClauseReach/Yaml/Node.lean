/-!
Nodes of a YAML document.
-/

namespace ClauseReach.Yaml

/-- A reference points into the list of the anchored nodes of its document. Tags of collections say
nothing about settings and are not kept. -/
inductive Node where
  | scalar (tag : Option String) (plain : Bool) (text : String)
  | sequence (elements : List Node)
  | mapping (entries : List (Node × Node))
  | reference (name : String) (target : Nat)

def Node.empty : Node := .scalar none true ""

structure Document where
  root : Node
  anchored : Array Node

def Document.resolve (document : Document) (node : Node) : Node :=
  match node with
  | .reference _ target => document.anchored.getD target .empty
  | node => node

end ClauseReach.Yaml
