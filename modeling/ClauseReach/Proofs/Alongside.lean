import ClauseReach.Switch

/-!
Two runs side by side. The runs are compared by a relation between their sessions: they come to the same
result, or to the same fault, and their sessions stay related.
-/

namespace ClauseReach

variable {σ τ α β : Type}

/-- Two outcomes that differ by their sessions alone. -/
inductive SameOutcome (related : Session σ τ → Session σ τ → Prop) :
    EStateM.Result Fault (Session σ τ) α → EStateM.Result Fault (Session σ τ) α → Prop where
  | ok {result : α} {first second : Session σ τ} (kept : related first second) :
      SameOutcome related (.ok result first) (.ok result second)
  | error {fault : Fault} {first second : Session σ τ} (kept : related first second) :
      SameOutcome related (.error fault first) (.error fault second)

def Alongside (related : Session σ τ → Session σ τ → Prop) (left right : Analysis σ τ α) : Prop :=
  ∀ first second, related first second → SameOutcome related (left first) (right second)

theorem SameOutcome.exists_of_ok {related : Session σ τ → Session σ τ → Prop} {result : α} {first : Session σ τ}
    {outcome : EStateM.Result Fault (Session σ τ) α} (same : SameOutcome related (.ok result first) outcome) :
    ∃ second, outcome = .ok result second ∧ related first second := by
  cases same with
  | ok kept => exact ⟨_, rfl, kept⟩

theorem SameOutcome.exists_of_error {related : Session σ τ → Session σ τ → Prop} {fault : Fault}
    {first : Session σ τ} {outcome : EStateM.Result Fault (Session σ τ) α}
    (same : SameOutcome related (.error fault first) outcome) :
    ∃ second, outcome = .error fault second ∧ related first second := by
  cases same with
  | error kept => exact ⟨_, rfl, kept⟩

namespace Alongside

variable {related : Session σ τ → Session σ τ → Prop}

theorem pure (value : α) : Alongside related (pure value) (pure value) :=
  fun _ _ held => .ok held

theorem bind {left right : Analysis σ τ α} {next other : α → Analysis σ τ β}
    (began : Alongside related left right) (went : ∀ value, Alongside related (next value) (other value)) :
    Alongside related (left >>= next) (right >>= other) := by
  intro first second held
  have same := began first second held
  cases ended : left first with
  | ok value middle =>
    rw [ended] at same
    obtain ⟨counterpart, reached, kept⟩ := same.exists_of_ok
    rw [Analysis.bind_ok ended, Analysis.bind_ok reached]
    exact went value middle counterpart kept
  | error fault middle =>
    rw [ended] at same
    obtain ⟨counterpart, reached, kept⟩ := same.exists_of_error
    rw [Analysis.bind_error ended, Analysis.bind_error reached]
    exact .error kept

theorem attempt {left right : Analysis σ τ α} {rescue other : Fault → Analysis σ τ α}
    (began : Alongside related left right) (went : ∀ fault, Alongside related (rescue fault) (other fault)) :
    Alongside related (tryCatch left rescue) (tryCatch right other) := by
  intro first second held
  have same := began first second held
  cases ended : left first with
  | ok value middle =>
    rw [ended] at same
    obtain ⟨counterpart, reached, kept⟩ := same.exists_of_ok
    rw [Analysis.tryCatch_ok ended, Analysis.tryCatch_ok reached]
    exact .ok kept
  | error fault middle =>
    rw [ended] at same
    obtain ⟨counterpart, reached, kept⟩ := same.exists_of_error
    rw [Analysis.tryCatch_error ended, Analysis.tryCatch_error reached]
    exact went fault middle counterpart kept

end Alongside

end ClauseReach
