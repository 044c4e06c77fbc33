import ClauseReach.State.Facts
import ClauseReach.State.Trace

/-!
The states a script can run on: an algebra that takes named facts and can be shown.
-/

namespace ClauseReach.Script

/-- Adding a fact where control does not come changes nothing. -/
class Domain (σ : Type) extends StateAlgebra σ where
  add : σ → String → σ
  text : σ → String

def unreachableText : String := "⊥"

def factsText (facts : Option (FactSet String)) : String :=
  match facts with
  | none => unreachableText
  | some facts => "\x7b" ++ ",".intercalate facts.toList ++ "\x7d"

instance : Domain (May String) where
  add := May.add
  text state := factsText state.facts

instance : Domain (Must String) where
  add := Must.add
  text state := factsText state.facts

instance : Domain Trace where
  add := Trace.add
  text state := state.history.getD unreachableText

end ClauseReach.Script
