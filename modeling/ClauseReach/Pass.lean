import ClauseReach.Fault
import ClauseReach.Pending
import ClauseReach.State.Algebra

/-!
One pass over a program: the state at the current point, the branches still under way, and how many
branches have arrived at each destination. An analysis is a computation on a pass and on data of
its own; a fault keeps what was done before it.
-/

namespace ClauseReach

open StateAlgebra

structure Pass (σ : Type) where
  state : σ
  pending : Pending σ
  resolved : Dest → Nat

namespace Pass

variable {σ : Type}

def start (entry : σ) : Pass σ := ⟨entry, .empty, fun _ => 0⟩

def withState (pass : Pass σ) (state : σ) : Pass σ := { pass with state }

def record (pass : Pass σ) (dest : Dest) (state : σ) : Pass σ :=
  { pass with pending := pass.pending.record dest state }

variable [StateAlgebra σ]

def join (pass : Pass σ) (state : σ) : Pass σ := pass.withState (merge pass.state state)

/-- A branch leaves for `dest` with a clone of the current state. -/
def branch (pass : Pass σ) (dest : Dest) : Pass σ := pass.record dest (clone pass.state)

/-- The branches to `dest` arrive here, oldest first; the number tells how many. -/
def resolve (pass : Pass σ) (dest : Dest) : Nat × Pass σ :=
  let arrived := pass.pending.states dest
  (arrived.length,
    { state := arrived.foldl merge pass.state
      pending := pass.pending.forget dest
      resolved := fun other =>
        if other = dest then pass.resolved dest + arrived.length else pass.resolved other })

end Pass

structure Session (σ τ : Type) where
  pass : Pass σ
  own : τ

abbrev Analysis (σ τ : Type) := EStateM Fault (Session σ τ)

namespace Analysis

variable {σ τ : Type}

section Bind

variable {α β : Type} {act : Analysis σ τ α} {next : α → Analysis σ τ β} {session middle : Session σ τ}

theorem bind_ok {value : α} (ended : act session = .ok value middle) :
    (act >>= next) session = next value middle := by
  change EStateM.bind act next session = _
  rw [EStateM.bind, ended]

theorem bind_error {fault : Fault} (ended : act session = .error fault middle) :
    (act >>= next) session = .error fault middle := by
  change EStateM.bind act next session = _
  rw [EStateM.bind, ended]

theorem bind_congr_left {other : Analysis σ τ α} (same : act session = other session) :
    (act >>= next) session = (other >>= next) session := by
  change EStateM.bind act next session = EStateM.bind other next session
  rw [EStateM.bind, EStateM.bind, same]

theorem exists_of_bind_ok {result : β} {after : Session σ τ} (ended : (act >>= next) session = .ok result after) :
    ∃ value middle, act session = .ok value middle ∧ next value middle = .ok result after := by
  cases began : act session with
  | ok value middle => exact ⟨value, middle, rfl, (bind_ok began).symm.trans ended⟩
  | error fault middle => cases (bind_error began).symm.trans ended

theorem exists_of_run' {value : α} (yields : act.run' session = some value) :
    ∃ after, act session = .ok value after := by
  unfold EStateM.run' EStateM.run at yields
  split at yields
  next _ after ended =>
    cases yields
    exact ⟨after, ended⟩
  next => cases yields

variable {rescue : Fault → Analysis σ τ α}

theorem tryCatch_ok {value : α} (ended : act session = .ok value middle) :
    tryCatch act rescue session = .ok value middle := by
  change EStateM.tryCatch act rescue session = _
  delta EStateM.tryCatch
  rw [ended]

theorem tryCatch_error {fault : Fault} (ended : act session = .error fault middle) :
    tryCatch act rescue session = rescue fault middle := by
  change EStateM.tryCatch act rescue session = _
  delta EStateM.tryCatch
  rw [ended]
  rfl

end Bind

def onPass {α : Type} (act : Pass σ → α × Pass σ) : Analysis σ τ α :=
  modifyGet fun session =>
    let (result, pass) := act session.pass
    (result, { session with pass })

def modifyPass (act : Pass σ → Pass σ) : Analysis σ τ Unit := onPass fun pass => ((), act pass)

def getOwn : Analysis σ τ τ := return (← get).own

def modifyOwn (act : τ → τ) : Analysis σ τ Unit :=
  modify fun session => { session with own := act session.own }

def current : Analysis σ τ σ := return (← get).pass.state

def setCurrent (state : σ) : Analysis σ τ Unit := modifyPass (·.withState state)

def record (dest : Dest) (state : σ) : Analysis σ τ Unit := modifyPass (·.record dest state)

variable [StateAlgebra σ]

def setUnreachable : Analysis σ τ Unit := setCurrent unreachable

def join (state : σ) : Analysis σ τ Unit := modifyPass (·.join state)

def branch (dest : Dest) : Analysis σ τ Unit := modifyPass (·.branch dest)

def resolve (dest : Dest) : Analysis σ τ Nat := onPass (·.resolve dest)

def resolveAll : List Dest → Analysis σ τ Unit
  | [] => pure ()
  | dest :: rest => do
    let _ ← resolve dest
    resolveAll rest

end Analysis

end ClauseReach
