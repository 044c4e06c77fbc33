import ClauseReach.Proofs.Client

/-!
The branches under way as a plain log. Whatever a client does comes down to three calls on the pass: it records
a branch, it resolves a destination, it sets the current state. A ledger follows the same calls with nothing
but a list of branches in the order of their recording; after every call the branches under way, the order of their
destinations and the counts of arrivals are what the ledger says, also in a switch that faults midway.
-/

namespace ClauseReach

open StateAlgebra

variable {σ τ ε ν α β : Type}

inductive Call (σ : Type) where
  | record (dest : Dest) (state : σ)
  | resolve (dest : Dest)
  | set (state : σ)

def Call.records (dest : Dest) : Call σ → Bool
  | .record other _ => decide (other = dest)
  | _ => false

/-- How many branches to a destination these calls record. -/
def recordings (dest : Dest) (calls : List (Call σ)) : Nat := calls.countP (Call.records dest)

/-- The plain account of a pass: its state, and the branches under way in the order of their recording. -/
structure Ledger (σ : Type) where
  state : σ
  log : List (Dest × σ)

namespace Ledger

def start (entry : σ) : Ledger σ := ⟨entry, []⟩

def sent (ledger : Ledger σ) (dest : Dest) : List σ :=
  (ledger.log.filter fun branch => branch.1 = dest).map Prod.snd

theorem sent_record (ledger : Ledger σ) (dest other : Dest) (state : σ) :
    sent { ledger with log := ledger.log ++ [(dest, state)] } other =
      if other = dest then ledger.sent dest ++ [state] else ledger.sent other := by
  by_cases same : other = dest
  · simp [sent, same]
  · have different : dest ≠ other := fun equal => same equal.symm
    simp [sent, same, different]

theorem sent_filter (ledger : Ledger σ) (state : σ) (dest other : Dest) :
    sent ⟨state, ledger.log.filter fun branch => branch.1 ≠ dest⟩ other =
      if other = dest then [] else ledger.sent other := by
  simp only [sent, List.filter_filter]
  split
  next same => simp [same]
  next different =>
    congr 1
    apply List.filter_congr
    intro branch _
    by_cases here : branch.1 = other <;> simp [here, different]

variable [StateAlgebra σ]

def call (ledger : Ledger σ) : Call σ → Ledger σ
  | .record dest state => { ledger with log := ledger.log ++ [(dest, state)] }
  | .resolve dest =>
    { state := (ledger.sent dest).foldl merge ledger.state
      log := ledger.log.filter fun branch => branch.1 ≠ dest }
  | .set state => { ledger with state }

end Ledger

theorem eraseDups_filter [BEq α] [LawfulBEq α] (keep : α → Bool) (list : List α) :
    (list.filter keep).eraseDups = list.eraseDups.filter keep := by
  match list with
  | [] => rfl
  | first :: rest =>
    have later := eraseDups_filter keep (rest.filter fun other => !other == first)
    rw [List.eraseDups_cons, List.filter_cons, List.filter_cons, ← later]
    split
    next => rw [List.eraseDups_cons, List.filter_filter, List.filter_filter]; simp only [Bool.and_comm]
    next dropped =>
      congr 1
      rw [List.filter_filter]
      apply List.filter_congr
      intro other _
      by_cases same : other = first <;> simp_all
termination_by list.length
decreasing_by
  have := List.length_filter_le (fun other => !other == first) rest
  simp only [List.length_cons]
  omega

/-- The pass after some calls holds what the ledger of the same calls says. -/
structure Pass.Agrees (pass : Pass σ) (calls : List (Call σ)) (ledger : Ledger σ) : Prop where
  state : pass.state = ledger.state
  queued : ∀ dest, pass.pending.states dest = ledger.sent dest
  order : pass.pending.dests = (ledger.log.map Prod.fst).eraseDups
  counted : ∀ dest, recordings dest calls = pass.resolved dest + (pass.pending.states dest).length

theorem Pass.start_agrees (entry : σ) : (Pass.start entry).Agrees [] (Ledger.start entry) where
  state := rfl
  queued _ := rfl
  order := rfl
  counted _ := rfl

variable [StateAlgebra σ]

def Pass.call (pass : Pass σ) : Call σ → Pass σ
  | .record dest state => pass.record dest state
  | .resolve dest => (pass.resolve dest).2
  | .set state => pass.withState state

namespace Pass.Agrees

variable {pass : Pass σ} {calls : List (Call σ)} {ledger : Ledger σ}

theorem record (agrees : pass.Agrees calls ledger) (dest : Dest) (state : σ) :
    (pass.record dest state).Agrees (calls ++ [.record dest state]) (ledger.call (.record dest state)) where
  state := agrees.state
  queued other := by
    change (pass.pending.record dest state).states other = _
    rw [Pending.states_record, Ledger.call, Ledger.sent_record, agrees.queued, agrees.queued]
  order := by
    change (pass.pending.record dest state).dests = ((ledger.log ++ [(dest, state)]).map Prod.fst).eraseDups
    rw [Pending.dests_record, List.map_append, List.eraseDups_append, ← agrees.order]
    have known : dest ∈ ledger.log.map Prod.fst ↔ dest ∈ pass.pending.dests := by
      rw [agrees.order, List.mem_eraseDups]
    split
    next old => simp [List.removeAll, known.mpr old]
    next new => simp [List.removeAll, mt known.mp new, List.eraseDups_cons]
  counted other := by
    change _ = pass.resolved other + ((pass.pending.record dest state).states other).length
    have counted := agrees.counted other
    rw [recordings, List.countP_append, ← recordings, counted, Pending.states_record]
    by_cases same : other = dest
    · subst same
      simp [Call.records, Nat.add_assoc]
    · simp [Call.records, same, Ne.symm same]

theorem resolve (agrees : pass.Agrees calls ledger) (dest : Dest) :
    (pass.resolve dest).2.Agrees (calls ++ [.resolve dest]) (ledger.call (.resolve dest)) where
  state := by
    change (pass.pending.states dest).foldl merge pass.state = (ledger.sent dest).foldl merge ledger.state
    rw [agrees.state, agrees.queued]
  queued other := by
    change (pass.pending.forget dest).states other = _
    rw [Pending.states_forget, Ledger.call, Ledger.sent_filter, agrees.queued]
  order := by
    change (pass.pending.forget dest).dests = ((ledger.log.filter fun branch => branch.1 ≠ dest).map Prod.fst).eraseDups
    rw [Pending.dests_forget, agrees.order, ← eraseDups_filter, List.filter_map]
    rfl
  counted other := by
    change _ = (if other = dest then pass.resolved dest + (pass.pending.states dest).length else pass.resolved other) +
      ((pass.pending.forget dest).states other).length
    have counted := agrees.counted other
    rw [recordings, List.countP_append, ← recordings, counted, Pending.states_forget]
    by_cases same : other = dest <;> simp [Call.records, same]

/-- What one call keeps. -/
theorem call (agrees : pass.Agrees calls ledger) (next : Call σ) :
    (pass.call next).Agrees (calls ++ [next]) (ledger.call next) := by
  cases next with
  | record dest state => exact agrees.record dest state
  | resolve dest => exact agrees.resolve dest
  | set state =>
    refine ⟨rfl, agrees.queued, agrees.order, ?_⟩
    intro dest
    have counted := agrees.counted dest
    rw [recordings, List.countP_append, ← recordings, counted]
    simp [Pass.call, Pass.withState, Call.records]

/-- What any number of calls keeps. -/
theorem callAll (agrees : pass.Agrees calls ledger) (more : List (Call σ)) :
    (more.foldl Pass.call pass).Agrees (calls ++ more) (more.foldl Ledger.call ledger) := by
  induction more generalizing pass calls ledger with
  | nil => simpa using agrees
  | cons next rest ih => simpa using ih (agrees.call next)

end Pass.Agrees

/-- The calls that a computation makes on its pass, in order, and how it ends. -/
inductive Performs : {α : Type} → Analysis σ τ α → Session σ τ → List (Call σ) →
    EStateM.Result Fault (Session σ τ) α → Prop where
  | pure {α : Type} (value : α) (session : Session σ τ) : Performs (pure value) session [] (.ok value session)
  | fault {α : Type} (fault : Fault) (session : Session σ τ) :
      Performs (throw fault : Analysis σ τ α) session [] (.error fault session)
  | look {α : Type} (read : Session σ τ → α) (session : Session σ τ) :
      Performs (Analysis.look read) session [] (.ok (read session) session)
  | keep (change : τ → τ) (session : Session σ τ) :
      Performs (Analysis.modifyOwn change) session [] (.ok () { session with own := change session.own })
  | set (state : σ) (session : Session σ τ) :
      Performs (Analysis.setCurrent state) session [.set state]
        (.ok () { session with pass := session.pass.call (.set state) })
  | record (dest : Dest) (state : σ) (session : Session σ τ) :
      Performs (Analysis.record dest state) session [.record dest state]
        (.ok () { session with pass := session.pass.call (.record dest state) })
  | resolve (dest : Dest) (session : Session σ τ) :
      Performs (Analysis.resolve dest) session [.resolve dest]
        (.ok (session.pass.resolve dest).1 { session with pass := session.pass.call (.resolve dest) })
  | bind {α β : Type} {act : Analysis σ τ α} {next : α → Analysis σ τ β} {session middle : Session σ τ}
      {value : α} {early late : List (Call σ)} {outcome : EStateM.Result Fault (Session σ τ) β}
      (first : Performs act session early (.ok value middle)) (rest : Performs (next value) middle late outcome) :
      Performs (act >>= next) session (early ++ late) outcome
  | stop {α β : Type} {act : Analysis σ τ α} {next : α → Analysis σ τ β} {session after : Session σ τ}
      {fault : Fault} {calls : List (Call σ)} (first : Performs act session calls (.error fault after)) :
      Performs (act >>= next) session calls (.error fault after)
  | attempt {α : Type} {act : Analysis σ τ α} {rescue : Fault → Analysis σ τ α} {session after : Session σ τ}
      {value : α} {calls : List (Call σ)} (first : Performs act session calls (.ok value after)) :
      Performs (tryCatch act rescue) session calls (.ok value after)
  | rescue {α : Type} {act : Analysis σ τ α} {rescue : Fault → Analysis σ τ α} {session middle : Session σ τ}
      {fault : Fault} {early late : List (Call σ)} {outcome : EStateM.Result Fault (Session σ τ) α}
      (first : Performs act session early (.error fault middle))
      (rest : Performs (rescue fault) middle late outcome) :
      Performs (tryCatch act rescue) session (early ++ late) outcome

def finalPass : EStateM.Result Fault (Session σ τ) α → Pass σ
  | .ok _ session => session.pass
  | .error _ session => session.pass

theorem Performs.finalPass_eq {act : Analysis σ τ α} {session : Session σ τ} {calls : List (Call σ)}
    {outcome : EStateM.Result Fault (Session σ τ) α} (performs : Performs act session calls outcome) :
    finalPass outcome = calls.foldl Pass.call session.pass := by
  induction performs with
  | bind _ _ first rest => rw [List.foldl_append, ← first]; exact rest
  | rescue _ _ first rest => rw [List.foldl_append, ← first]; exact rest
  | stop _ first => exact first
  | attempt _ first => exact first
  | _ => rfl

/-- Whatever a client does, it does by calls. -/
theorem Client.performs {owned : Dest → Prop} {act : Analysis σ τ α} (client : Client owned act)
    (session : Session σ τ) : ∃ calls, Performs act session calls (act session) := by
  induction client generalizing session with
  | pure value => exact ⟨_, .pure value session⟩
  | fault fault => exact ⟨_, .fault fault session⟩
  | look read _ => exact ⟨_, .look read session⟩
  | keep change => exact ⟨_, .keep change session⟩
  | set state => exact ⟨_, .set state session⟩
  | record dest state => exact ⟨_, .record dest state session⟩
  | resolve _ => exact ⟨_, .resolve _ session⟩
  | @bind α β act next _ _ first rest =>
    obtain ⟨early, began⟩ := first session
    cases ended : act session with
    | ok value middle =>
      rw [ended] at began
      obtain ⟨late, went⟩ := rest value middle
      rw [Analysis.bind_ok ended]
      exact ⟨_, .bind began went⟩
    | error fault after =>
      rw [ended] at began
      rw [Analysis.bind_error ended]
      exact ⟨_, .stop began⟩
  | @attempt α act rescue _ _ first rest =>
    obtain ⟨early, began⟩ := first session
    cases ended : act session with
    | ok value after =>
      rw [ended] at began
      rw [Analysis.tryCatch_ok ended]
      exact ⟨_, .attempt began⟩
    | error fault middle =>
      rw [ended] at began
      obtain ⟨late, went⟩ := rest fault middle
      rw [Analysis.tryCatch_error ended]
      exact ⟨_, .rescue began went⟩

inductive Operation (σ τ ε ν : Type) where
  | record (dest : Dest) (state : σ)
  | branch (dest : Dest)
  | resolve (dest : Dest)
  | set (state : σ)
  | join (state : σ)
  | setUnreachable
  | switch (inner : AnySwitch σ τ ε ν)

namespace Operation

def perform : Operation σ τ ε ν → Analysis σ τ Unit
  | record dest state => Analysis.record dest state
  | branch dest => Analysis.branch dest
  | resolve dest => do let _ ← Analysis.resolve dest
  | set state => Analysis.setCurrent state
  | join state => Analysis.join state
  | setUnreachable => Analysis.setUnreachable
  | .switch inner => inner.run

/-- Performs operations in turn; a fault ends its own operation only. -/
def performAll : List (Operation σ τ ε ν) → Analysis σ τ Unit
  | [] => pure ()
  | operation :: rest => do
    tryCatch operation.perform fun _ => pure ()
    performAll rest

/-- The scrutinee, the matcher and the bodies of a switch are a client's. -/
def OfClient : Operation σ τ ε ν → Prop
  | .switch inner => inner.OfClient fun _ => True
  | _ => True

theorem perform_client {operation : Operation σ τ ε ν} (parts : operation.OfClient) :
    Client (fun _ => True) operation.perform := by
  cases operation with
  | record dest state => exact .record dest state
  | branch dest => exact .branch dest
  | resolve dest => exact .bind (.resolve trivial) fun _ => .pure ()
  | set state => exact .set state
  | join state => exact .join state
  | setUnreachable => exact .set unreachable
  | switch inner => exact AnySwitch.OfClient.run parts (fun _ _ _ _ => trivial) trivial

theorem performAll_client {operations : List (Operation σ τ ε ν)}
    (parts : ∀ operation ∈ operations, operation.OfClient) :
    Client (fun _ => True) (performAll operations) := by
  induction operations with
  | nil => exact .pure ()
  | cons operation rest ih =>
    apply Client.bind
    · exact .attempt (perform_client (parts operation (List.mem_cons_self ..))) fun _ => .pure ()
    · intro _
      exact ih fun other member => parts other (List.mem_cons_of_mem _ member)

theorem performAll_ends (operations : List (Operation σ τ ε ν)) (session : Session σ τ) :
    ∃ after, performAll operations session = .ok () after := by
  induction operations generalizing session with
  | nil => exact ⟨session, rfl⟩
  | cons operation rest ih =>
    have survives : ∃ middle, tryCatch operation.perform (fun _ => pure ()) session = .ok () middle := by
      cases ended : operation.perform session with
      | ok _ middle => exact ⟨middle, Analysis.tryCatch_ok ended⟩
      | error _ middle => exact ⟨middle, Analysis.tryCatch_error ended⟩
    obtain ⟨middle, survives⟩ := survives
    rw [performAll, Analysis.bind_ok survives]
    exact ih middle

end Operation

def place (serial : Nat) : Dest := some ⟨serial, .user, ""⟩

end ClauseReach
