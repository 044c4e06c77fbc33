import Mathlib.Data.List.Perm.Subperm
import ClauseReach.Elements

/-!
Lists without repetitions, read as sets. A list that is included in another one is no longer than it, so the test by
length refuses nothing; and if both are equally long, one inclusion is enough to know that they hold the same.
-/

namespace ClauseReach.Elements

variable {α : Type} [DecidableEq α] {left right : List α}

theorem included_iff (distinct : left.Nodup) : included left right = true ↔ left ⊆ right := by
  have each : (left.all fun element => right.contains element) = true ↔ left ⊆ right := by
    simp [List.subset_def]
  unfold included
  split
  · rename_i longer
    simp only [Bool.false_eq_true, false_iff]
    intro among
    have fits := (List.subperm_of_subset distinct among).length_le
    omega
  · exact each

theorem agree_iff_perm (distinct : left.Nodup) : agree left right = true ↔ left.Perm right := by
  rw [agree, Bool.and_eq_true, beq_iff_eq, included_iff distinct]
  constructor
  · intro given
    obtain ⟨long, among⟩ := given
    exact (List.subperm_of_subset distinct among).perm_of_length_le (Nat.le_of_eq long.symm)
  · intro permuted
    exact ⟨permuted.length_eq, permuted.subset⟩

end ClauseReach.Elements
