import Mathlib.Data.Set.Image
import ClauseReach.Proofs.Path

/-!
A flow state as the merge of the stores that paths bring to one point: it is reachable if there are any, and
a variable is assigned in it if it is assigned in each of them. Merging states is union of the stores, so
nothing is lost where ways meet.
-/

namespace ClauseReach

namespace Source.Expr

theorem mayBe_known {condition : Expr} {value : Bool} (known : condition.value? = some (.bool value))
    (outcome : Bool) : condition.mayBe outcome = (value == outcome) := by
  rw [Expr.mayBe.eq_def, known]

theorem mayBe_unknown {condition : Expr} (notTrue : condition.value? = some (.bool true) → False)
    (notFalse : condition.value? = some (.bool false) → False) (outcome : Bool) :
    condition.mayBe outcome =
      match condition with
      | .paren _ inner => inner.mayBe outcome
      | .unary _ .not operand => operand.mayBe !outcome
      | .binary _ .and left right =>
        if outcome then left.mayBe true && right.mayBe true
        else left.mayBe false || (left.mayBe true && right.mayBe false)
      | .binary _ .or left right =>
        if outcome then left.mayBe true || (left.mayBe false && right.mayBe true)
        else left.mayBe false && right.mayBe false
      | _ => true := by
  rw [Expr.mayBe.eq_def]
  split
  next value known =>
    cases value
    · exact (notFalse known).elim
    · exact (notTrue known).elim
  next => split <;> simp_all

end Source.Expr

namespace Checker

open Source StateAlgebra Paths

namespace Assigned

/-- The state is the merge of the stores of all paths to a point. -/
structure Summarizes (state : Assigned) (stores : Set Store) : Prop where
  reachable : state.isReachable = true ↔ stores.Nonempty
  assigned : stores.Nonempty →
    ∀ object, state.contains object = true ↔ ∀ store ∈ stores, object ∈ store

variable {state left right : Assigned} {stores more : Set Store}

theorem summarizes_none : Summarizes ⟨none⟩ stores ↔ stores = ∅ := by
  constructor
  · intro summary
    rw [← Set.not_nonempty_iff_eq_empty, ← summary.reachable]
    simp [isReachable]
  · rintro rfl
    exact ⟨by simp [isReachable], by simp⟩

theorem summarizes_some {facts : FactSet ObjectId} :
    Summarizes ⟨some facts⟩ stores ↔
      stores.Nonempty ∧ ∀ object, object ∈ facts ↔ ∀ store ∈ stores, object ∈ store := by
  have member (object : ObjectId) : contains ⟨some facts⟩ object = true ↔ object ∈ facts := by
    simp [contains, objects, FactSet.mem_toList]
  constructor
  · intro summary
    have reached := summary.reachable.mp rfl
    exact ⟨reached, fun object => (member object).symm.trans (summary.assigned reached object)⟩
  · rintro ⟨reached, assigned⟩
    exact ⟨by simp [isReachable, reached], fun _ object => (member object).trans (assigned object)⟩

theorem summarizes_unreachable : (unreachable : Assigned).Summarizes ∅ := summarizes_none.mpr rfl

theorem summarizes_entry : entry.Summarizes {∅} :=
  summarizes_some.mpr ⟨Set.singleton_nonempty _, by simp⟩

/-- Where ways meet, the paths of both come together. -/
theorem Summarizes.merge (first : left.Summarizes stores) (second : right.Summarizes more) :
    (merge left right).Summarizes (stores ∪ more) := by
  obtain ⟨_ | leftFacts⟩ := left
  · rw [summarizes_none] at first
    subst first
    rw [Set.empty_union]
    exact (LawfulMerge.unreachable_merge right).symm ▸ second
  obtain ⟨_ | rightFacts⟩ := right
  · rw [summarizes_none] at second
    subst second
    rw [Set.union_empty]
    exact first
  rw [summarizes_some] at first second
  have joined : StateAlgebra.merge (⟨some leftFacts⟩ : Assigned) ⟨some rightFacts⟩ =
      ⟨some (leftFacts.inter rightFacts)⟩ := rfl
  rw [joined, summarizes_some]
  refine ⟨first.1.inl, fun object => ?_⟩
  rw [FactSet.mem_inter, first.2, second.2]
  simp only [Set.mem_union]
  grind

theorem Summarizes.assign (summary : state.Summarizes stores) (objects : List ObjectId) :
    (state.assign (objects.map some)).Summarizes
      {after | ∃ before ∈ stores, after = before ∪ {object | object ∈ objects}} := by
  obtain ⟨_ | facts⟩ := state
  · rw [summarizes_none] at summary
    subst summary
    exact summarizes_none.mpr (by simp)
  rw [summarizes_some] at summary
  obtain ⟨⟨store, member⟩, assigned⟩ := summary
  refine summarizes_some.mpr ⟨⟨_, store, member, rfl⟩, fun object => ?_⟩
  rw [FactSet.mem_insertAll, assigned]
  simp only [List.filterMap_map, Function.comp_def, id, List.filterMap_some]
  constructor
  · rintro (listed | everywhere) _ ⟨before, inside, rfl⟩
    · exact Or.inr listed
    · exact Or.inl (everywhere before inside)
  · intro everywhere
    by_cases listed : object ∈ objects
    · exact .inl listed
    · exact .inr fun before inside => (everywhere _ ⟨before, inside, rfl⟩).resolve_right listed

/-- Further paths change nothing if each brings at least what an earlier one brings. -/
theorem Summarizes.grow (summary : state.Summarizes stores) (included : stores ⊆ more)
    (above : ∀ store ∈ more, ∃ lower ∈ stores, lower ⊆ store) : state.Summarizes more where
  reachable := by
    rw [summary.reachable]
    constructor
    · exact fun reached => reached.mono included
    · rintro ⟨store, member⟩
      obtain ⟨lower, inside, _⟩ := above store member
      exact ⟨lower, inside⟩
  assigned := by
    rintro ⟨store, member⟩ object
    obtain ⟨lower, inside, _⟩ := above store member
    rw [summary.assigned ⟨lower, inside⟩]
    constructor
    · intro everywhere other found
      obtain ⟨lower, inside, below⟩ := above other found
      exact below (everywhere lower inside)
    · exact fun everywhere other found => everywhere other (included found)

def passing (condition : Expr) (outcome : Bool) (stores : Set Store) : Set Store :=
  {store | store ∈ stores ∧ condition.mayBe outcome = true}

theorem Summarizes.split (condition : Expr) (summary : state.Summarizes stores) :
    (condition.split state).1.Summarizes (passing condition true stores) ∧
      (condition.split state).2.Summarizes (passing condition false stores) := by
  fun_induction Expr.split state condition generalizing stores
  case case1 condition state known =>
    simpa [passing, Expr.mayBe_known known] using! ⟨summary, summarizes_unreachable⟩
  case case2 condition state known =>
    simpa [passing, Expr.mayBe_known known] using! ⟨summarizes_unreachable, summary⟩
  case case3 state fact inner notTrue notFalse ih =>
    simp only [passing, Expr.mayBe_unknown notTrue notFalse]
    exact ih summary
  case case4 state fact operand notTrue notFalse ih =>
    simp only [passing, Expr.mayBe_unknown notTrue notFalse]
    exact (ih summary).symm
  case case5 state fact left right first second notTrue notFalse ihLeft ihRight =>
    obtain ⟨holds, fails⟩ := ihLeft summary
    obtain ⟨bothHold, secondFails⟩ := ihRight holds
    simp only [passing, Expr.mayBe_unknown notTrue notFalse]
    refine ⟨?_, ?_⟩
    · convert bothHold using 1
      ext store
      simp [passing, and_assoc]
    · convert fails.merge secondFails using 1
      ext store
      simp only [passing, Set.mem_union, Set.mem_ofPred_eq, reduceIte, Bool.false_eq_true, Bool.or_eq_true,
        Bool.and_eq_true]
      grind
  case case6 state fact left right first second notTrue notFalse ihLeft ihRight =>
    obtain ⟨holds, fails⟩ := ihLeft summary
    obtain ⟨secondHolds, bothFail⟩ := ihRight fails
    simp only [passing, Expr.mayBe_unknown notTrue notFalse]
    refine ⟨?_, ?_⟩
    · convert holds.merge secondHolds using 1
      ext store
      simp only [passing, Set.mem_union, Set.mem_ofPred_eq, reduceIte, Bool.or_eq_true, Bool.and_eq_true]
      grind
    · convert bothFail using 1
      ext store
      simp [passing, and_assoc]
  case case7 condition state notTrue notFalse notParen notNot notAnd notOr =>
    have either (outcome : Bool) : condition.mayBe outcome = true := by
      rw [Expr.mayBe_unknown notTrue notFalse]
      split <;> simp_all
    simpa [passing, either] using summary

end Assigned

end Checker

end ClauseReach
