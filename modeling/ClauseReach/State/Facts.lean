import ClauseReach.FactSet
import ClauseReach.State.Algebra

/-!
States that are sets of facts. A fact of a `May` state holds on some way to the point, a fact of a
`Must` state on every way; no facts at all are kept where control does not come.
-/

namespace ClauseReach

variable {α : Type} [LT α] [LE α] [DecidableLT α] [Std.IsLinearOrder α] [Std.LawfulOrderLT α]

def mergeReached {β : Type} (join : β → β → β) : Option β → Option β → Option β
  | none, state => state
  | state, none => state
  | some left, some right => some (join left right)

/-- Facts that hold on at least one way; `none` where control does not come. -/
structure May (α : Type) [LT α] where
  facts : Option (FactSet α)

/-- Facts that hold on every way; `none` where control does not come. -/
structure Must (α : Type) [LT α] where
  facts : Option (FactSet α)

instance [DecidableEq α] : DecidableEq (May α) := fun left right =>
  decidable_of_iff (left.facts = right.facts)
    ⟨fun same => by cases left; cases right; cases same; rfl, fun same => same ▸ rfl⟩

instance [DecidableEq α] : DecidableEq (Must α) := fun left right =>
  decidable_of_iff (left.facts = right.facts)
    ⟨fun same => by cases left; cases right; cases same; rfl, fun same => same ▸ rfl⟩

instance : StateAlgebra (May α) where
  unreachable := ⟨none⟩
  clone state := state
  merge left right := ⟨mergeReached FactSet.union left.facts right.facts⟩

instance [DecidableEq α] : StateAlgebra (Must α) where
  unreachable := ⟨none⟩
  clone state := state
  merge left right := ⟨mergeReached FactSet.inter left.facts right.facts⟩

instance : TransparentClone (May α) := ⟨fun _ => rfl⟩

instance [DecidableEq α] : TransparentClone (Must α) := ⟨fun _ => rfl⟩

theorem mergeReached_comm {β : Type} {join : β → β → β}
    (comm : ∀ left right, join left right = join right left) (left right : Option β) :
    mergeReached join left right = mergeReached join right left := by
  cases left <;> cases right <;> simp [mergeReached]
  exact comm _ _

theorem mergeReached_assoc {β : Type} {join : β → β → β}
    (assoc : ∀ first second third, join (join first second) third = join first (join second third))
    (first second third : Option β) :
    mergeReached join (mergeReached join first second) third =
      mergeReached join first (mergeReached join second third) := by
  cases first <;> cases second <;> cases third <;> simp [mergeReached]
  exact assoc _ _ _

theorem none_mergeReached {β : Type} (join : β → β → β) (state : Option β) :
    mergeReached join none state = state := by
  cases state <;> rfl

instance : LawfulMerge (May α) where
  merge_comm left right :=
    congrArg May.mk (mergeReached_comm (fun _ _ => FactSet.ext fun _ => by simp [or_comm]) _ _)
  merge_assoc first second third :=
    congrArg May.mk (mergeReached_assoc (fun _ _ _ => FactSet.ext fun _ => by simp [or_assoc]) _ _ _)
  unreachable_merge state := congrArg May.mk (none_mergeReached _ state.facts)

instance [DecidableEq α] : LawfulMerge (Must α) where
  merge_comm left right :=
    congrArg Must.mk (mergeReached_comm (fun _ _ => FactSet.ext fun _ => by simp [and_comm]) _ _)
  merge_assoc first second third :=
    congrArg Must.mk
      (mergeReached_assoc (fun _ _ _ => FactSet.ext fun _ => by simp [and_assoc]) _ _ _)
  unreachable_merge state := congrArg Must.mk (none_mergeReached _ state.facts)

def May.add (state : May α) (fact : α) : May α := ⟨state.facts.map (·.insert fact)⟩

def Must.add (state : Must α) (fact : α) : Must α := ⟨state.facts.map (·.insert fact)⟩

end ClauseReach
