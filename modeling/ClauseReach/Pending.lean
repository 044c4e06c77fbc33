import ClauseReach.Label
import ClauseReach.Queue

/-!
Pending branches: jumps seen before the place they go to. Each destination has a queue of the
states that were sent there, and the destinations stand in the order of their first branch.
-/

namespace ClauseReach

structure Pending (σ : Type) where
  entries : List (Dest × Queue σ)

namespace Pending

variable {σ : Type}

def empty : Pending σ := ⟨[]⟩

/-- The destinations with a branch, oldest first branch first. -/
def dests (pending : Pending σ) : List Dest := pending.entries.map Prod.fst

def states (pending : Pending σ) (dest : Dest) : List σ :=
  match pending.entries.find? (·.1 = dest) with
  | some entry => entry.2.toList
  | none => []

/-- Adds a state to the first entry of its destination, or a new entry at the end. -/
def extend (dest : Dest) (state : σ) : List (Dest × Queue σ) → List (Dest × Queue σ)
  | [] => [(dest, Queue.empty.push state)]
  | entry :: rest =>
    if entry.1 = dest then (dest, entry.2.push state) :: rest else entry :: extend dest state rest

def record (pending : Pending σ) (dest : Dest) (state : σ) : Pending σ :=
  ⟨extend dest state pending.entries⟩

def forget (pending : Pending σ) (dest : Dest) : Pending σ :=
  ⟨pending.entries.filter (·.1 ≠ dest)⟩

@[simp] theorem dests_empty : (empty : Pending σ).dests = [] := rfl

@[simp] theorem states_empty (dest : Dest) : (empty : Pending σ).states dest = [] := rfl

theorem dests_record (pending : Pending σ) (dest : Dest) (state : σ) :
    (pending.record dest state).dests =
      if dest ∈ pending.dests then pending.dests else pending.dests ++ [dest] := by
  obtain ⟨entries⟩ := pending
  induction entries with
  | nil => simp [record, extend, dests]
  | cons entry rest ih =>
    simp only [record, dests] at ih ⊢
    by_cases here : entry.1 = dest
    · simp [extend, here]
    · have elsewhere : dest ≠ entry.1 := fun same => here same.symm
      rw [extend, if_neg here, List.map_cons, ih]
      by_cases later : dest ∈ rest.map Prod.fst <;> simp [later, elsewhere]

theorem states_record (pending : Pending σ) (dest other : Dest) (state : σ) :
    (pending.record dest state).states other =
      if other = dest then pending.states dest ++ [state] else pending.states other := by
  obtain ⟨entries⟩ := pending
  induction entries with
  | nil =>
    by_cases same : other = dest
    · simp [record, extend, states, same]
    · have different : dest ≠ other := fun equal => same equal.symm
      simp [record, extend, states, same, different]
  | cons entry rest ih =>
    simp only [record, states] at ih ⊢
    by_cases here : entry.1 = dest
    · by_cases same : other = dest
      · simp [extend, here, same]
      · have different : dest ≠ other := fun equal => same equal.symm
        simp [extend, here, same, different]
    · by_cases same : other = dest
      · subst same
        simpa [extend, here] using ih
      · by_cases found : entry.1 = other
        · simp [extend, same, found]
        · simpa [extend, here, same, found] using ih

@[simp] theorem dests_forget (pending : Pending σ) (dest : Dest) :
    (pending.forget dest).dests = pending.dests.filter (· ≠ dest) := by
  simp [forget, dests, List.filter_map, Function.comp_def]

theorem states_forget (pending : Pending σ) (dest other : Dest) :
    (pending.forget dest).states other = if other = dest then [] else pending.states other := by
  obtain ⟨entries⟩ := pending
  induction entries with
  | nil => simp [forget, states]
  | cons entry rest ih =>
    simp only [forget, states] at ih ⊢
    by_cases here : entry.1 = dest
    · by_cases same : other = dest
      · simpa [here, same] using ih
      · have different : dest ≠ other := fun equal => same equal.symm
        simpa [here, same, different] using ih
    · by_cases found : entry.1 = other
      · subst found
        simp [here]
      · simpa [here, found] using ih

theorem forget_record (pending : Pending σ) (dest hidden : Dest) (state : σ) :
    (pending.record dest state).forget hidden =
      if dest = hidden then pending.forget hidden else (pending.forget hidden).record dest state := by
  obtain ⟨entries⟩ := pending
  simp only [forget, record, ← apply_ite Pending.mk]
  congr 1
  induction entries with
  | nil => by_cases same : dest = hidden <;> simp [extend, same]
  | cons entry rest ih =>
    by_cases here : entry.1 = dest
    · by_cases same : dest = hidden <;> simp [extend, here, same]
    · rw [extend, if_neg here]
      by_cases gone : entry.1 = hidden
      · simpa [gone] using ih
      · by_cases same : dest = hidden <;> simpa [extend, here, gone, same] using ih

theorem forget_comm (pending : Pending σ) (first second : Dest) :
    (pending.forget first).forget second = (pending.forget second).forget first := by
  simp only [forget, List.filter_filter, Bool.and_comm]

end Pending

end ClauseReach
