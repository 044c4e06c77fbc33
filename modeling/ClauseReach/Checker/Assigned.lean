import ClauseReach.Elements
import ClauseReach.Source.Object
import ClauseReach.State.Facts

/-!
Definite assignment: which variables every way to a point has assigned.
-/

namespace ClauseReach.Checker

open Source

abbrev Assigned := Must ObjectId

namespace Assigned

def entry : Assigned := ⟨some .empty⟩

def isReachable (state : Assigned) : Bool := state.facts.isSome

def objects (state : Assigned) : List ObjectId :=
  match state.facts with
  | some facts => facts.toList
  | none => []

def contains (state : Assigned) (object : ObjectId) : Bool := state.objects.contains object

def assign (state : Assigned) (objects : List (Option ObjectId)) : Assigned :=
  ⟨state.facts.map fun facts => facts.insertAll (objects.filterMap id)⟩

def equal (left right : Assigned) : Bool :=
  if left.isReachable && right.isReachable then Elements.agree left.objects right.objects
  else left.isReachable == right.isReachable

/-- The names of the assigned objects in ascending order; objects of one name repeat it. -/
def names (nameOf : ObjectId → String) (state : Assigned) : List String :=
  (state.objects.map nameOf).mergeSort fun left right => decide (left ≤ right)

def text (nameOf : ObjectId → String) (state : Assigned) : String :=
  if state.isReachable then "assigned\x7b" ++ ", ".intercalate (state.names nameOf) ++ "\x7d"
  else "unreachable"

end Assigned

end ClauseReach.Checker
