/-!
Flow states: what an analysis knows at one point of a program, as an algebra of three operations.
Nothing is assumed of the operations here; the laws that some results need are named apart.
-/

namespace ClauseReach

/-- `clone` is taken wherever one state goes two ways, `merge` wherever two ways meet, and
`unreachable` stands behind every statement that control does not pass. -/
class StateAlgebra (σ : Type) where
  unreachable : σ
  clone : σ → σ
  merge : σ → σ → σ

class TransparentClone (σ : Type) [StateAlgebra σ] : Prop where
  clone_eq (state : σ) : StateAlgebra.clone state = state

/-- Ways may meet in any order, and a way that nothing takes adds nothing. -/
class LawfulMerge (σ : Type) [StateAlgebra σ] : Prop where
  merge_comm (left right : σ) : StateAlgebra.merge left right = StateAlgebra.merge right left
  merge_assoc (first second third : σ) :
    StateAlgebra.merge (StateAlgebra.merge first second) third =
      StateAlgebra.merge first (StateAlgebra.merge second third)
  unreachable_merge (state : σ) : StateAlgebra.merge StateAlgebra.unreachable state = state

namespace LawfulMerge

open StateAlgebra

variable {σ : Type} [StateAlgebra σ] [LawfulMerge σ]

theorem merge_unreachable (state : σ) : merge state unreachable = state := by
  rw [merge_comm, unreachable_merge]

theorem foldl_merge_merge (first state : σ) (arrived : List σ) :
    arrived.foldl merge (merge first state) = merge first (arrived.foldl merge state) := by
  induction arrived generalizing state with
  | nil => rfl
  | cons next rest ih => rw [List.foldl_cons, List.foldl_cons, merge_assoc, ih]

theorem foldl_merge (state : σ) (arrived : List σ) :
    arrived.foldl merge state = merge state (arrived.foldl merge unreachable) := by
  rw [← foldl_merge_merge, merge_unreachable]

end LawfulMerge

end ClauseReach
