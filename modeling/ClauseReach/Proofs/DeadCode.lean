import ClauseReach.Proofs.ScriptSimulation

/-!
Dead code stays dead. Where nothing comes to the current point and nothing is under way, no statement brings
control back: not a saved state that a switch returns to, not a guard that holds, not a branch that arrives late.
All that is needed of the states is that the unreachable one stays what it is when it is sent two ways, when it
meets itself and when a fact is added to it.
-/

namespace ClauseReach

open StateAlgebra

variable {σ : Type}

/-- Control comes neither to the current point nor to the end of any branch under way. -/
structure Pass.Dead [StateAlgebra σ] (pass : Pass σ) : Prop where
  state : pass.state = unreachable
  pending : ∀ dest, ∀ state ∈ pass.pending.states dest, state = unreachable

class LastingUnreachable (σ : Type) [StateAlgebra σ] : Prop where
  clone_unreachable : clone (unreachable : σ) = unreachable
  merge_unreachable : merge (unreachable : σ) unreachable = unreachable

instance (priority := low) [StateAlgebra σ] [TransparentClone σ] [LawfulMerge σ] : LastingUnreachable σ where
  clone_unreachable := TransparentClone.clone_eq unreachable
  merge_unreachable := LawfulMerge.unreachable_merge unreachable

instance : LastingUnreachable Trace := ⟨rfl, rfl⟩

namespace Pass.Dead

variable [StateAlgebra σ] {pass : Pass σ}

theorem start : (Pass.start (unreachable : σ)).Dead := by
  refine ⟨rfl, fun dest state member => ?_⟩
  cases member

theorem withState (dead : pass.Dead) : (pass.withState unreachable).Dead := ⟨rfl, dead.pending⟩

theorem record (dead : pass.Dead) (dest : Dest) : (pass.record dest unreachable).Dead := by
  refine ⟨dead.state, fun other state member => ?_⟩
  change state ∈ (pass.pending.record dest unreachable).states other at member
  rw [Pending.states_record] at member
  split at member
  · rcases List.mem_append.mp member with waiting | sent
    · exact dead.pending dest state waiting
    · exact List.mem_singleton.mp sent
  · exact dead.pending other state member

variable [LastingUnreachable σ]

theorem foldl_merge {arrived : List σ} (gone : ∀ state ∈ arrived, state = unreachable) :
    arrived.foldl merge unreachable = unreachable := by
  induction arrived with
  | nil => rfl
  | cons first rest ih =>
    rw [List.foldl_cons, gone first (List.mem_cons_self ..), LastingUnreachable.merge_unreachable]
    exact ih fun state member => gone state (List.mem_cons_of_mem _ member)

/-- However many branches arrive, none of them brings anything. -/
theorem resolve (dead : pass.Dead) (dest : Dest) : (pass.resolve dest).2.Dead where
  state := by
    change (pass.pending.states dest).foldl merge pass.state = unreachable
    rw [dead.state]
    exact foldl_merge (dead.pending dest)
  pending := by
    intro other state member
    change state ∈ (pass.pending.forget dest).states other at member
    rw [Pending.states_forget] at member
    split at member
    · cases member
    · exact dead.pending other state member

end Pass.Dead

namespace Script

class DeadDomain (σ : Type) [Domain σ] : Prop extends LastingUnreachable σ where
  add_unreachable (name : String) : Domain.add (unreachable : σ) name = unreachable

instance : DeadDomain (May String) := ⟨fun _ => rfl⟩

instance : DeadDomain (Must String) := ⟨fun _ => rfl⟩

instance : DeadDomain Trace := ⟨fun _ => rfl⟩

/-- No section was entered but in the unreachable state. -/
def QuietEvents [StateAlgebra σ] (events : List (Event σ)) : Prop :=
  ∀ labels state, Event.enter labels state ∈ events → state = unreachable

theorem QuietEvents.log [StateAlgebra σ] {events : List (Event σ)} (quiet : QuietEvents events) {event : Event σ}
    (silent : QuietEvents [event]) : QuietEvents (events ++ [event]) := by
  intro labels state member
  rcases List.mem_append.mp member with earlier | last
  · exact quiet labels state earlier
  · exact silent labels state last

/-- A step that leaves everything dead, and that enters dead sections only. -/
structure Step.Dead [StateAlgebra σ] (step : Step σ) : Prop where
  pass : ∀ after, step.outcome = .ok after → after.Dead
  sections : QuietEvents step.events

variable [Domain σ] [DeadDomain σ]

/-- Both passes are dead; it takes no second one, and a script may be compared with itself. -/
def bothDead (σ : Type) [Domain σ] [DeadDomain σ] : ScriptSimulation σ σ where
  states first second := first = unreachable ∧ second = unreachable
  passes left right := left.Dead ∧ right.Dead
  owns events others := QuietEvents events ∧ QuietEvents others
  counts _ _ := True
  records _ := True
  resolves _ := True
  states_unreachable := ⟨rfl, rfl⟩
  states_clone := by
    rintro _ _ ⟨rfl, rfl⟩
    exact ⟨LastingUnreachable.clone_unreachable, LastingUnreachable.clone_unreachable⟩
  states_merge := by
    rintro _ _ _ _ ⟨rfl, rfl⟩ ⟨rfl, rfl⟩
    exact ⟨LastingUnreachable.merge_unreachable, LastingUnreachable.merge_unreachable⟩
  states_current dead := ⟨dead.1.state, dead.2.state⟩
  passes_set := by
    rintro _ _ _ _ dead ⟨rfl, rfl⟩
    exact ⟨dead.1.withState, dead.2.withState⟩
  passes_record := by
    rintro _ _ dest _ _ dead _ ⟨rfl, rfl⟩
    exact ⟨dead.1.record dest, dead.2.record dest⟩
  passes_resolve dead _ := ⟨dead.1.resolve _, dead.2.resolve _⟩
  counts_resolve _ _ := trivial
  states_add := by
    rintro _ _ name ⟨rfl, rfl⟩
    exact ⟨DeadDomain.add_unreachable name, DeadDomain.add_unreachable name⟩
  owns_log := by
    intro events others event other quiet like
    cases like with
    | enter labels held =>
      exact ⟨quiet.1.log (by simp [QuietEvents, held.1]), quiet.2.log (by simp [QuietEvents, held.2])⟩
    | _ => exact ⟨quiet.1.log (by simp [QuietEvents]), quiet.2.log (by simp [QuietEvents])⟩

theorem dead_calls {calls others : List (Call σ)} (paired : List.Forall₂ (bothDead σ).Calls calls others)
    {pass : Pass σ} (dead : pass.Dead) (moment : Nat) : ((calls.take moment).foldl Pass.call pass).Dead := by
  induction paired generalizing pass moment with
  | nil => simpa using dead
  | cons first _ ih =>
    cases moment with
    | zero => exact dead
    | succ moment =>
      cases first with
      | record _ held =>
        obtain ⟨rfl, _⟩ := held
        exact ih (dead.record _) moment
      | set held =>
        obtain ⟨rfl, _⟩ := held
        exact ih dead.withState moment
      | resolve _ => exact ih (dead.resolve _) moment

theorem steps_dead (hooks : Hooks) {program : List (Stmt σ)}
    (named : ∀ state ∈ statesAll program, state = unreachable) {pass : Pass σ} (dead : pass.Dead) :
    ∀ step ∈ steps hooks pass program, step.Dead := by
  induction program generalizing pass with
  | nil =>
    intro step member
    cases member
  | cons stmt rest ih =>
    simp only [statesAll, List.mem_append, or_imp, forall_and] at named
    have like : Stmt.Like (bothDead σ).states stmt stmt :=
      stmt.like_of_states fun state member => ⟨named.1 state member, named.1 state member⟩
    have quiet : QuietEvents ([] : List (Event σ)) := fun _ _ member => by cases member
    have began : (bothDead σ).Sessions ⟨pass, []⟩ ⟨pass, []⟩ := ⟨⟨dead, dead⟩, quiet, quiet⟩
    have ended := (stmt.run_inStep (bothDead σ) hooks like (fun _ _ => trivial) fun _ _ => trivial).outcomes began
    intro step member
    rw [steps] at member
    rcases ended.exists_or_fault with ⟨_, _, after, _, ran, _, _, kept⟩ | ⟨fault, after, _, ran, _, kept⟩
    · rw [ran] at member
      rcases List.mem_cons.mp member with rfl | later
      · refine ⟨fun result same => ?_, kept.2.1⟩
        cases same
        exact kept.1.1
      · exact ih named.2 kept.1.1 step later
    · rw [ran] at member
      cases List.mem_singleton.mp member
      refine ⟨fun result same => ?_, kept.2.1⟩
      cases same

/-- A script that names no reachable state and begins where nothing can be reached never gets anywhere: after
every step, after every call on the pass inside a step, and at the entry of every section. -/
theorem dead_code_stays_dead (hooks : Hooks) {program : List (Stmt σ)}
    (named : ∀ state ∈ statesAll program, state = unreachable) {pass : Pass σ} (dead : pass.Dead) :
    (∀ step ∈ steps hooks pass program, step.Dead) ∧
      ∃ calls, Performs (runAll hooks program) ⟨pass, []⟩ calls (runAll hooks program ⟨pass, []⟩) ∧
        ∀ moment, ((calls.take moment).foldl Pass.call pass).Dead := by
  have like : LikeAll (bothDead σ).states program program :=
    likeAll_of_states program fun state member => ⟨named state member, named state member⟩
  have quiet : QuietEvents ([] : List (Event σ)) := fun _ _ member => by cases member
  obtain ⟨calls, _, performs, _, paired, _⟩ := runAll_inStep (bothDead σ) hooks program like (fun _ _ => trivial)
    (fun _ _ => trivial) ⟨pass, []⟩ ⟨pass, []⟩ ⟨⟨dead, dead⟩, quiet, quiet⟩
  exact ⟨steps_dead hooks named dead, calls, performs, dead_calls paired dead⟩

/-- States are kept and taken up again here in every way that a script knows. -/
def abandoned : List (Stmt Trace) :=
  [.branch (place 1), .choose ⟨"c", .fact⟩ [.jump (place 2)] [.fact "f", .join ⟨none⟩],
    .treeSwitch (some ⟨"x", .fact⟩) (some (.int 1))
      (.byValue [(some (.int 1), .leaf ["v"] (some ⟨"g", .pure⟩) (place 3) (.leaf [] none (place 4) .empty))] .empty)
      (place 4) false
      [([place 3], [.jumpSwitch none [([place 5], [.resolve (place 1)]), ([place 6], [])] (place 7) (place 6)]),
        ([place 4], [.set ⟨none⟩])]
      (place 8),
    .resolve (place 2)]

theorem abandoned_stays_dead :
    (steps ⟨true, true⟩ ((Pass.start ⟨none⟩).record (place 2) ⟨none⟩) abandoned).length = 4 ∧
      ∀ step ∈ steps ⟨true, true⟩ ((Pass.start ⟨none⟩).record (place 2) ⟨none⟩) abandoned, step.Dead := by
  have named : ∀ state ∈ statesAll abandoned, state = (unreachable : Trace) := by decide
  exact ⟨by decide +kernel, (dead_code_stays_dead ⟨true, true⟩ named (Pass.Dead.start.record (place 2))).1⟩

end Script

end ClauseReach
