import ClauseReach.Proofs.StateOrder

/-!
Where lists without repetitions come from. A map has each of its keys once, so the list of its keys has no repetitions, in
whatever order they are gone through, and on such lists the tests decide inclusion and equality of the sets. The assigned
objects of a state are the keys of a map.
-/

namespace ClauseReach

namespace Elements

variable {α : Type} [DecidableEq α]

theorem mem_addKey {keys : List α} {element other : α} : other ∈ addKey keys element ↔ other = element ∨ other ∈ keys := by
  unfold addKey
  split
  · rename_i known
    rw [List.contains_iff_mem] at known
    constructor
    · exact .inr
    · rintro (rfl | member)
      · exact known
      · exact member
  · exact List.mem_cons

theorem nodup_addKey {keys : List α} (distinct : keys.Nodup) (element : α) : (addKey keys element).Nodup := by
  unfold addKey
  split
  · exact distinct
  · rename_i unknown
    rw [List.contains_iff_mem] at unknown
    exact List.nodup_cons.mpr ⟨unknown, distinct⟩

theorem mem_keysOf {elements : List α} {element : α} : element ∈ keysOf elements ↔ element ∈ elements := by
  have filled (keys : List α) : element ∈ elements.foldl addKey keys ↔ element ∈ elements ∨ element ∈ keys := by
    induction elements generalizing keys with
    | nil => simp
    | cons first later ih =>
      rw [List.foldl_cons, ih, mem_addKey, List.mem_cons, or_assoc, or_left_comm]
  rw [keysOf, filled]
  simp

theorem nodup_keysOf (elements : List α) : (keysOf elements).Nodup := by
  have filled {keys : List α} (distinct : keys.Nodup) : (elements.foldl addKey keys).Nodup := by
    induction elements generalizing keys with
    | nil => exact distinct
    | cons first later ih => exact ih (nodup_addKey distinct first)
  exact filled List.nodup_nil

theorem perm_keysOf_iff {listed elements : List α} :
    listed.Perm (keysOf elements) ↔ listed.Nodup ∧ ∀ element, element ∈ listed ↔ element ∈ elements := by
  constructor
  · intro permuted
    refine ⟨permuted.nodup_iff.mpr (nodup_keysOf elements), fun element => ?_⟩
    rw [permuted.mem_iff, mem_keysOf]
  · intro given
    obtain ⟨distinct, same⟩ := given
    apply (List.perm_ext_iff_of_nodup distinct (nodup_keysOf elements)).mpr
    intro element
    rw [same, mem_keysOf]

/-- Where nothing is repeated the comparison of lengths decides nothing. -/
theorem included_eq_all {left right : List α} (distinct : left.Nodup) :
    included left right = left.all fun element => right.contains element := by
  rw [Bool.eq_iff_iff, included_iff distinct]
  simp [List.subset_def]

/-- With repetitions the lengths do decide, and the tests depend on which list comes first. -/
example : included [1, 1] [1] = false ∧ agree [1, 1] [1, 2] = true ∧ agree [1, 2] [1, 1] = false := by decide

end Elements

namespace Checker.Assigned

open Source StateAlgebra Elements

theorem objects_assign {state : Assigned} (reached : state.isReachable = true) (objects : List (Option ObjectId)) :
    (state.assign objects).objects.Perm (keysOf (state.objects ++ objects.filterMap id)) := by
  refine perm_keysOf_iff.mpr ⟨nodup_objects _, fun object => ?_⟩
  rw [← contains_iff, contains_assign, contains_iff, List.mem_append]
  simp [reached, or_comm]

theorem objects_merge {left right : Assigned} (reachedLeft : left.isReachable = true)
    (reachedRight : right.isReachable = true) :
    (merge left right).objects.Perm (keysOf (left.objects.filter right.contains)) := by
  refine perm_keysOf_iff.mpr ⟨nodup_objects _, fun object => ?_⟩
  obtain ⟨leftFacts, knownLeft⟩ := Option.isSome_iff_exists.mp reachedLeft
  obtain ⟨rightFacts, knownRight⟩ := Option.isSome_iff_exists.mp reachedRight
  have inter : (merge left right).objects = (leftFacts.inter rightFacts).toList := by
    simp only [objects, merge, knownLeft, knownRight, mergeReached]
  rw [inter, List.mem_filter, contains_iff, FactSet.mem_toList, FactSet.mem_inter]
  simp only [objects, knownLeft, knownRight, FactSet.mem_toList]

end Checker.Assigned

namespace Elements

open Checker Source StateAlgebra

/-- On lists without repetitions the tests decide inclusion and equality of sets, and the keys of a map are such a list, in
any order. The states build their maps by adding keys and by leaving some out, so what is compared there are such lists too,
and their order does not matter. -/
theorem tests_decide_sets {α : Type} [DecidableEq α] :
    (∀ first second : List α, first.Nodup → second.Nodup →
      (included first second = true ↔ ∀ element ∈ first, element ∈ second) ∧
      (included first second = first.all fun element => second.contains element) ∧
      (agree first second = true ↔ first.Perm second) ∧
      agree first second = agree second first ∧
      ∀ third : List α, third.Nodup → agree first second = true → agree second third = true → agree first third = true) ∧
    (∀ elements listed : List α, listed.Perm (keysOf elements) →
      listed.Nodup ∧ ∀ element, element ∈ listed ↔ element ∈ elements) ∧
    (∀ state : Assigned, state.isReachable = true → ∀ objects : List (Option ObjectId),
      (state.assign objects).objects.Perm (keysOf (state.objects ++ objects.filterMap id))) ∧
    (∀ left right : Assigned, left.isReachable = true → right.isReachable = true →
      (merge left right).objects.Perm (keysOf (left.objects.filter right.contains)) ∧
      ∀ first second : List ObjectId, first.Perm left.objects → second.Perm right.objects →
        first.Nodup ∧ second.Nodup ∧ left.equal right = agree first second) := by
  refine ⟨?_, ?_, ?_, ?_⟩
  · intro first second distinctFirst distinctSecond
    refine ⟨included_iff distinctFirst, included_eq_all distinctFirst, agree_iff_perm distinctFirst, ?_, ?_⟩
    · rw [Bool.eq_iff_iff, agree_iff_perm distinctFirst, agree_iff_perm distinctSecond]
      exact List.perm_comm
    · intro third _ near further
      rw [agree_iff_perm distinctFirst] at near ⊢
      rw [agree_iff_perm distinctSecond] at further
      exact near.trans further
  · intro elements listed permuted
    exact perm_keysOf_iff.mp permuted
  · intro state reached objects
    exact Assigned.objects_assign reached objects
  · intro left right reachedLeft reachedRight
    refine ⟨Assigned.objects_merge reachedLeft reachedRight, fun first second listedLeft listedRight => ?_⟩
    refine ⟨listedLeft.nodup_iff.mpr left.nodup_objects, listedRight.nodup_iff.mpr right.nodup_objects, ?_⟩
    exact (Assigned.agree_of_perm reachedLeft reachedRight listedLeft listedRight).symm

theorem shuffled_keys_agree :
    let left := Assigned.entry.assign [some 2, none, some 1]
    let right := Assigned.entry.assign [some 1, some 2, some 1]
    ["b", "a"].Nodup ∧ (∀ text, text ∈ ["b", "a"] ↔ text ∈ ["a", "b", "a"]) ∧
      agree ["b", "a"] ["a", "b"] = true ∧ ["b", "a"].Perm ["a", "b"] ∧
      left.equal right = agree [2, 1] [1, 2] := by
  intro left right
  obtain ⟨tests, keys, _, _⟩ := tests_decide_sets (α := String)
  obtain ⟨_, _, _, states⟩ := tests_decide_sets (α := ObjectId)
  obtain ⟨distinct, members⟩ := keys ["a", "b", "a"] ["b", "a"] (by decide)
  obtain ⟨_, _, decides, _⟩ := tests ["b", "a"] ["a", "b"] distinct (by decide)
  have permuted : ["b", "a"].Perm ["a", "b"] := by decide
  refine ⟨distinct, members, decides.mpr permuted, permuted, ?_⟩
  exact ((states left right rfl rfl).2 [2, 1] [1, 2] (by decide) (by decide)).2.2

end Elements

end ClauseReach
