import ClauseReach.Proofs.ScriptSimulation

/-!
States do not steer. A state that nothing can reach is recorded, queued and counted like any other, no branch is
left out because of what it carries, and nothing asks a state which way to go. Two runs of a script on different
states, even on states of different kinds, can therefore be told apart by the states alone.
-/

namespace ClauseReach

open StateAlgebra

variable {σ σ' : Type}

/-- The passes differ in their states alone: as many branches are under way to every destination, the destinations
stand in the same order, and as many branches have arrived. -/
structure SameTraffic (left : Pass σ) (right : Pass σ') : Prop where
  order : left.pending.dests = right.pending.dests
  waiting : ∀ dest, (left.pending.states dest).length = (right.pending.states dest).length
  resolved : left.resolved = right.resolved

namespace SameTraffic

variable {left : Pass σ} {right : Pass σ'}

theorem start (entry : σ) (beginning : σ') : SameTraffic (Pass.start entry) (Pass.start beginning) :=
  ⟨rfl, fun _ => rfl, rfl⟩

theorem record (same : SameTraffic left right) (dest : Dest) (state : σ) (other : σ') :
    SameTraffic (left.record dest state) (right.record dest other) where
  order := by
    change (left.pending.record dest state).dests = (right.pending.record dest other).dests
    rw [Pending.dests_record, Pending.dests_record, same.order]
  waiting := by
    intro place
    change ((left.pending.record dest state).states place).length = ((right.pending.record dest other).states place).length
    rw [Pending.states_record, Pending.states_record]
    split
    next => rw [List.length_append, List.length_append, same.waiting]; rfl
    next => exact same.waiting place
  resolved := same.resolved

theorem resolve [StateAlgebra σ] [StateAlgebra σ'] (same : SameTraffic left right) (dest : Dest) :
    SameTraffic (left.resolve dest).2 (right.resolve dest).2 where
  order := by
    change (left.pending.forget dest).dests = (right.pending.forget dest).dests
    rw [Pending.dests_forget, Pending.dests_forget, same.order]
  waiting := by
    intro place
    change ((left.pending.forget dest).states place).length = ((right.pending.forget dest).states place).length
    rw [Pending.states_forget, Pending.states_forget]
    split
    next => rfl
    next => exact same.waiting place
  resolved := by
    funext place
    simp only [Pass.resolve, same.resolved, same.waiting]

end SameTraffic

def arrivals [StateAlgebra σ] (pass : Pass σ) : List (Call σ) → List Nat
  | [] => []
  | .resolve dest :: rest => (pass.resolve dest).1 :: arrivals (pass.call (.resolve dest)) rest
  | call :: rest => arrivals (pass.call call) rest

namespace Script

abbrev SameEvent : Event σ → Event σ' → Prop := Event.Like (fun _ _ => True) Eq

inductive Step.Agrees : Step σ → Step σ' → Prop where
  | done {left : Pass σ} {right : Pass σ'} {events : List (Event σ)} {others : List (Event σ')}
      (traffic : SameTraffic left right) (seen : List.Forall₂ SameEvent events others) :
      Step.Agrees ⟨.ok left, events⟩ ⟨.ok right, others⟩
  | stopped (fault : Fault) {events : List (Event σ)} {others : List (Event σ')}
      (seen : List.Forall₂ SameEvent events others) : Step.Agrees ⟨.error fault, events⟩ ⟨.error fault, others⟩

variable [Domain σ] [Domain σ']

def blind (σ σ' : Type) [Domain σ] [Domain σ'] : ScriptSimulation σ σ' where
  states _ _ := True
  passes := SameTraffic
  owns := List.Forall₂ SameEvent
  counts := Eq
  records _ := True
  resolves _ := True
  states_unreachable := trivial
  states_clone _ := trivial
  states_merge _ _ := trivial
  states_current _ := trivial
  passes_set same _ := ⟨same.order, same.waiting, same.resolved⟩
  passes_record same _ _ := same.record _ _ _
  passes_resolve same _ := same.resolve _
  counts_resolve same _ := same.waiting _
  states_add _ _ := trivial
  owns_log seen like := List.rel_append seen (.cons like .nil)

theorem arrivals_eq {calls : List (Call σ)} {others : List (Call σ')}
    (paired : List.Forall₂ (blind σ σ').Calls calls others) {left : Pass σ} {right : Pass σ'}
    (same : SameTraffic left right) : arrivals left calls = arrivals right others := by
  induction paired generalizing left right with
  | nil => rfl
  | cons first _ ih =>
    cases first with
    | record _ _ => exact ih (same.record _ _ _)
    | set _ => exact ih ⟨same.order, same.waiting, same.resolved⟩
    | @resolve dest _ =>
      rw [arrivals, arrivals]
      exact congrArg₂ List.cons (same.waiting dest) (ih (same.resolve dest))

theorem steps_agree (hooks : Hooks) {program : List (Stmt σ)} {other : List (Stmt σ')}
    (like : LikeAll (fun _ _ => True) program other) {left : Pass σ} {right : Pass σ'} (same : SameTraffic left right) :
    List.Forall₂ Step.Agrees (steps hooks left program) (steps hooks right other) := by
  induction program generalizing other left right with
  | nil =>
    cases like
    exact .nil
  | cons stmt rest ih =>
    cases like with
    | @cons _ counterpart _ others first later =>
      have began : (blind σ σ').Sessions ⟨left, []⟩ ⟨right, []⟩ := ⟨same, .nil⟩
      have ended := (stmt.run_inStep (blind σ σ') hooks first (fun _ _ => trivial) fun _ _ => trivial).outcomes began
      rw [steps, steps]
      rcases ended.exists_or_fault with
        ⟨_, _, after, reached, ran, went, _, kept⟩ | ⟨fault, after, reached, ran, went, kept⟩
      · rw [ran, went]
        exact .cons (.done kept.1 kept.2) (ih later kept.1)
      · rw [ran, went]
        exact .cons (.stopped fault kept.2) .nil

/-- Two runs of scripts that differ in their states alone agree after every step, and on how many branches every
call that resolves a destination finds there, those inside switches included. -/
theorem control_ignores_states (hooks : Hooks) {program : List (Stmt σ)} {other : List (Stmt σ')}
    (like : LikeAll (fun _ _ => True) program other) (entry : σ) (beginning : σ') :
    List.Forall₂ Step.Agrees (steps hooks (.start entry) program) (steps hooks (.start beginning) other) ∧
      ∃ calls others, Performs (runAll hooks program) ⟨.start entry, []⟩ calls (runAll hooks program ⟨.start entry, []⟩) ∧
        Performs (runAll hooks other) ⟨.start beginning, []⟩ others (runAll hooks other ⟨.start beginning, []⟩) ∧
        List.Forall₂ (blind σ σ').Calls calls others ∧
        arrivals (.start entry) calls = arrivals (.start beginning) others := by
  have same : SameTraffic (Pass.start entry) (Pass.start beginning) := .start entry beginning
  refine ⟨steps_agree hooks like same, ?_⟩
  obtain ⟨calls, others, performs, follows, paired, _⟩ := runAll_inStep (blind σ σ') hooks program like
    (fun _ _ => trivial) (fun _ _ => trivial) ⟨.start entry, []⟩ ⟨.start beginning, []⟩ ⟨same, .nil⟩
  exact ⟨calls, others, performs, follows, paired, arrivals_eq paired same⟩

/-- Branches of all kinds, most of them with the state given; the last switch comes upon a missing label. -/
def wandering (state : σ) : List (Stmt σ) :=
  [.record (place 1) state, .choose ⟨"c", .fact⟩ [.jump (place 1)] [.set state],
    .treeSwitch (some ⟨"x", .kill⟩) none (.leaf ["v"] (some ⟨"false", .pure⟩) (place 2) (.leaf [] none (place 3) .empty))
      (place 3) false
      [([place 2], [.jumpSwitch none [([place 5], [.resolve (place 1)])] (place 6) none]), ([place 3], [.join state])]
      (place 4),
    .jumpSwitch none [([place 2, none], [])] (place 4) none, .leave]

/-- One run in which nothing is reached, and one that writes down all that is done to its states. -/
theorem wandering_agrees :
    (steps ⟨true, true⟩ (.start ⟨none⟩) (wandering (⟨none⟩ : May String))).length = 4 ∧
      List.Forall₂ Step.Agrees (steps ⟨true, true⟩ (.start ⟨none⟩) (wandering (⟨none⟩ : May String)))
        (steps ⟨true, true⟩ (.start ⟨some "start"⟩) (wandering (⟨some "given"⟩ : Trace))) := by
  have like : LikeAll (fun _ _ => True) (wandering (⟨none⟩ : May String)) (wandering (⟨some "given"⟩ : Trace)) := by
    refine .cons (.record _ trivial) (.cons (.choose _ (.cons (.jump _) .nil) (.cons (.set trivial) .nil)) ?_)
    refine .cons (.treeSwitch _ _ _ _ _ _ ?_) (.cons (.jumpSwitch _ _ _ (.cons _ .nil .nil)) (.cons .leave .nil))
    refine .cons _ (.cons (.jumpSwitch _ _ _ (.cons _ (.cons (.resolve _) .nil) .nil)) .nil) ?_
    exact .cons _ (.cons (.join trivial) .nil) .nil
  refine ⟨by decide +kernel, ?_⟩
  exact (control_ignores_states ⟨true, true⟩ like ⟨none⟩ ⟨some "start"⟩).1

end Script

end ClauseReach
