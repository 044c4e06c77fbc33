import ClauseReach.State.Algebra

/-!
States that spell out the operations that made them, for watching an analysis at work.
-/

namespace ClauseReach

/-- The operations so far as a text; `none` where control does not come. -/
structure Trace where
  history : Option String
  deriving DecidableEq

namespace Trace

def add (state : Trace) (fact : String) : Trace := ⟨state.history.map fun text => s!"{text}.{fact}"⟩

instance : StateAlgebra Trace where
  unreachable := ⟨none⟩
  clone state := ⟨state.history.map fun text => text ++ "'"⟩
  merge left right :=
    match left.history, right.history with
    | none, _ => right
    | _, none => left
    | some first, some second => ⟨some s!"({first}+{second})"⟩

end Trace

end ClauseReach
