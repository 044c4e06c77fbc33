import ClauseReach.Proofs.ScriptSimulation
import ClauseReach.Proofs.SwitchAgreement

/-!
Footprints: where a computation sends branches, and what it resolves. Seen from one destination, calls are changes
to a single queue, and a destination that is never resolved sees its queue grow at the end and nothing else. What a
computation does can depend on the branches to destinations that it resolves, and on no others; so whoever
resolves nothing of a destination forwards what is under way there.
-/

namespace ClauseReach

open StateAlgebra

variable {σ τ α β : Type}

/-- What a call makes of the queue of a destination. -/
def queueAfter (dest : Dest) (queue : List σ) : Call σ → List σ
  | .record other state => if dest = other then queue ++ [state] else queue
  | .resolve other => if dest = other then [] else queue
  | .set _ => queue

/-- Whether a destination has a queue after a call. -/
def listedAfter (dest : Dest) (listed : Prop) : Call σ → Prop
  | .record other _ => listed ∨ dest = other
  | .resolve other => listed ∧ dest ≠ other
  | .set _ => listed

def Call.sent? (dest : Dest) : Call σ → Option σ
  | .record other state => if other = dest then some state else none
  | _ => none

/-- The states that calls send to a destination, in their order. -/
def sentTo (dest : Dest) (calls : List (Call σ)) : List σ := calls.filterMap (Call.sent? dest)

def Call.Within (records resolves : Dest → Prop) : Call σ → Prop
  | .record dest _ => records dest
  | .resolve dest => resolves dest
  | .set _ => True

theorem sentTo_record (dest other : Dest) (state : σ) (rest : List (Call σ)) :
    sentTo dest (.record other state :: rest) = if other = dest then state :: sentTo dest rest else sentTo dest rest := by
  by_cases same : other = dest <;> simp [sentTo, Call.sent?, same]

theorem sentTo_eq_nil {records resolves : Dest → Prop} {calls : List (Call σ)}
    (within : ∀ call ∈ calls, call.Within records resolves) {dest : Dest} (never : ¬records dest) :
    sentTo dest calls = [] := by
  apply List.filterMap_eq_nil_iff.mpr
  intro call member
  have allowed := within call member
  cases call with
  | record other state =>
    apply if_neg
    intro same
    subst same
    exact never allowed
  | resolve other => rfl
  | set state => rfl

theorem resolve_not_mem {records resolves : Dest → Prop} {calls : List (Call σ)}
    (within : ∀ call ∈ calls, call.Within records resolves) {dest : Dest} (never : ¬resolves dest) :
    Call.resolve dest ∉ calls :=
  fun member => never (within _ member)

theorem queueAfter_calls {dest : Dest} {calls : List (Call σ)} (unresolved : Call.resolve dest ∉ calls) (queue : List σ) :
    calls.foldl (queueAfter dest) queue = queue ++ sentTo dest calls := by
  induction calls generalizing queue with
  | nil => exact (List.append_nil queue).symm
  | cons call rest ih =>
    obtain ⟨here, later⟩ := not_or.mp (mt List.mem_cons.mpr unresolved)
    rw [List.foldl_cons, ih later]
    cases call with
    | set state => rfl
    | resolve other =>
      have elsewhere : dest ≠ other := fun same => here (same ▸ rfl)
      rw [queueAfter, if_neg elsewhere]
      rfl
    | record other state =>
      rw [queueAfter, sentTo_record]
      by_cases same : dest = other
      · rw [if_pos same, if_pos same.symm, List.append_assoc]
        rfl
      · rw [if_neg same, if_neg (Ne.symm same)]

section Passes

variable [StateAlgebra σ]

theorem states_call (pass : Pass σ) (call : Call σ) (dest : Dest) :
    (pass.call call).pending.states dest = queueAfter dest (pass.pending.states dest) call := by
  cases call with
  | set state => rfl
  | resolve other =>
    change (pass.pending.forget other).states dest = _
    rw [Pending.states_forget]
    rfl
  | record other state =>
    change (pass.pending.record other state).states dest = _
    rw [Pending.states_record]
    by_cases same : dest = other
    · subst same
      simp [queueAfter]
    · simp [queueAfter, same]

theorem states_calls (pass : Pass σ) (calls : List (Call σ)) (dest : Dest) :
    (calls.foldl Pass.call pass).pending.states dest = calls.foldl (queueAfter dest) (pass.pending.states dest) := by
  induction calls generalizing pass with
  | nil => rfl
  | cons call rest ih => rw [List.foldl_cons, List.foldl_cons, ih, states_call]

theorem states_unresolved (pass : Pass σ) {calls : List (Call σ)} {dest : Dest} (unresolved : Call.resolve dest ∉ calls) :
    (calls.foldl Pass.call pass).pending.states dest = pass.pending.states dest ++ sentTo dest calls := by
  rw [states_calls, queueAfter_calls unresolved]

theorem resolved_unresolved (pass : Pass σ) {calls : List (Call σ)} {dest : Dest}
    (unresolved : Call.resolve dest ∉ calls) : (calls.foldl Pass.call pass).resolved dest = pass.resolved dest := by
  induction calls generalizing pass with
  | nil => rfl
  | cons call rest ih =>
    obtain ⟨here, later⟩ := not_or.mp (mt List.mem_cons.mpr unresolved)
    rw [List.foldl_cons, ih _ later]
    cases call with
    | record other state => rfl
    | set state => rfl
    | resolve other =>
      apply if_neg
      intro same
      exact here (same ▸ rfl)

theorem mem_dests_call (pass : Pass σ) (call : Call σ) (dest : Dest) :
    dest ∈ (pass.call call).pending.dests ↔ listedAfter dest (dest ∈ pass.pending.dests) call := by
  cases call with
  | set state => exact Iff.rfl
  | resolve other =>
    change dest ∈ (pass.pending.forget other).dests ↔ _
    rw [Pending.dests_forget, List.mem_filter, decide_eq_true_iff]
    exact Iff.rfl
  | record other state =>
    change dest ∈ (pass.pending.record other state).dests ↔ dest ∈ pass.pending.dests ∨ dest = other
    rw [Pending.dests_record]
    split
    next old =>
      constructor
      · exact Or.inl
      · rintro (listed | rfl)
        · exact listed
        · exact old
    next => rw [List.mem_append, List.mem_singleton]

theorem mem_dests_unresolved (pass : Pass σ) {calls : List (Call σ)} {dest : Dest}
    (unresolved : Call.resolve dest ∉ calls) :
    dest ∈ (calls.foldl Pass.call pass).pending.dests ↔ dest ∈ pass.pending.dests ∨ sentTo dest calls ≠ [] := by
  induction calls generalizing pass with
  | nil => simp [sentTo]
  | cons call rest ih =>
    obtain ⟨here, later⟩ := not_or.mp (mt List.mem_cons.mpr unresolved)
    rw [List.foldl_cons, ih _ later, mem_dests_call]
    cases call with
    | set state => exact Iff.rfl
    | resolve other =>
      have elsewhere : dest ≠ other := fun same => here (same ▸ rfl)
      simp [listedAfter, sentTo, Call.sent?, elsewhere]
    | record other state =>
      rw [sentTo_record, listedAfter]
      by_cases same : dest = other
      · simp [same]
      · simp [same, Ne.symm same]

/-- Of the destinations that are not resolved, those with a branch keep their order, and new ones come behind. -/
theorem dests_unresolved (pass : Pass σ) {calls : List (Call σ)} {kept : Dest → Bool}
    (within : ∀ dest, Call.resolve dest ∈ calls → kept dest = false) :
    pass.pending.dests.filter kept <+: (calls.foldl Pass.call pass).pending.dests.filter kept := by
  induction calls generalizing pass with
  | nil => exact List.prefix_refl _
  | cons call rest ih =>
    have further := ih (pass.call call) fun dest member => within dest (List.mem_cons_of_mem _ member)
    apply List.IsPrefix.trans _ further
    cases call with
    | set state => exact List.prefix_refl _
    | resolve dest =>
      have gone := within dest (List.mem_cons_self ..)
      change _ <+: (pass.pending.forget dest).dests.filter kept
      rw [Pending.dests_forget, List.filter_filter]
      have same : (pass.pending.dests.filter fun other => kept other && decide (other ≠ dest)) =
          pass.pending.dests.filter kept := by
        apply List.filter_congr
        intro other _
        by_cases equal : other = dest
        · rw [equal, gone, Bool.false_and]
        · simp [equal]
      exact same.symm ▸ List.prefix_refl _
    | record dest state =>
      change _ <+: (pass.pending.record dest state).dests.filter kept
      rw [Pending.dests_record]
      split
      · exact List.prefix_refl _
      · rw [List.filter_append]
        exact List.prefix_append _ _

theorem sendAll_calls (pass : Pass σ) (labels : List Dest) :
    pass.sendAll labels = (labels.map fun dest => Call.record dest pass.state).foldl Pass.call pass := by
  induction labels generalizing pass with
  | nil => rfl
  | cons dest rest ih => exact ih (pass.record dest pass.state)

theorem states_sendAll (pass : Pass σ) (labels : List Dest) (dest : Dest) :
    (pass.sendAll labels).pending.states dest =
      pass.pending.states dest ++ List.replicate (labels.count dest) pass.state := by
  rw [sendAll_calls, states_unresolved _ (by simp)]
  congr 1
  induction labels with
  | nil => rfl
  | cons first rest ih =>
    rw [List.map_cons, sentTo_record, ih, List.count_cons]
    by_cases same : first = dest <;> simp [same, List.replicate_succ]

theorem mem_dests_sendAll (pass : Pass σ) (labels : List Dest) (dest : Dest) :
    dest ∈ (pass.sendAll labels).pending.dests ↔ dest ∈ pass.pending.dests ∨ dest ∈ labels := by
  induction labels generalizing pass with
  | nil => simp [Pass.sendAll]
  | cons first rest ih =>
    have sent := mem_dests_call pass (.record first pass.state) dest
    rw [List.mem_cons, ← or_assoc]
    exact (ih (pass.record first pass.state)).trans (or_congr_left sent)

theorem resolved_sendAll (pass : Pass σ) (labels : List Dest) : (pass.sendAll labels).resolved = pass.resolved := by
  funext dest
  rw [sendAll_calls, resolved_unresolved _ (by simp)]

/-- Two sessions that cannot be told apart by the current state, the branches to certain destinations, and what
matters of the data. -/
def within (alike : τ → τ → Prop) (records resolves : Dest → Prop) : Simulation σ τ σ τ where
  states := Eq
  passes left right :=
    left.state = right.state ∧ ∀ dest, resolves dest → left.pending.states dest = right.pending.states dest
  owns := alike
  counts := Eq
  records := records
  resolves := resolves
  states_unreachable := rfl
  states_clone same := congrArg clone same
  states_merge same equal := congrArg₂ merge same equal
  states_current same := same.1
  passes_set same equal := ⟨equal, same.2⟩
  passes_record := by
    intro left right dest state other same allowed equal
    refine ⟨same.1, fun place own => ?_⟩
    have queue := same.2 place own
    change (left.call (.record dest state)).pending.states place = (right.call (.record dest other)).pending.states place
    rw [states_call, states_call, queue, equal]
  passes_resolve := by
    intro left right dest same allowed
    refine ⟨?_, fun place own => ?_⟩
    · change (left.pending.states dest).foldl merge left.state = (right.pending.states dest).foldl merge right.state
      rw [same.1, same.2 dest allowed]
    · have queue := same.2 place own
      change (left.call (.resolve dest)).pending.states place = (right.call (.resolve dest)).pending.states place
      rw [states_call, states_call, queue]
  counts_resolve same allowed := congrArg List.length (same.2 _ allowed)

theorem within_calls {alike : τ → τ → Prop} {records resolves : Dest → Prop} {calls others : List (Call σ)}
    (paired : List.Forall₂ (within alike records resolves).Calls calls others) :
    calls = others ∧ ∀ call ∈ calls, call.Within records resolves := by
  induction paired with
  | nil => exact ⟨rfl, List.forall_mem_nil _⟩
  | cons first _ ih =>
    obtain ⟨same, inside⟩ := ih
    subst same
    cases first with
    | record allowed equal =>
      cases equal
      exact ⟨rfl, List.forall_mem_cons.mpr ⟨allowed, inside⟩⟩
    | resolve allowed => exact ⟨rfl, List.forall_mem_cons.mpr ⟨allowed, inside⟩⟩
    | set equal =>
      cases equal
      exact ⟨rfl, List.forall_mem_cons.mpr ⟨trivial, inside⟩⟩

end Passes

namespace Script

variable [Domain σ]

/-- A script reads nothing of what it logs. -/
def scriptWithin (records resolves : Dest → Prop) : ScriptSimulation σ σ where
  toSimulation := within (fun _ _ => True) records resolves
  states_add name same := congrArg (Domain.add · name) same
  owns_log _ _ := trivial

/-- A script forwards what is under way to destinations that it does not resolve at any depth: none of it arrives,
its own branches queue up behind, in the order in which they are sent, and the destinations keep their order. -/
theorem foreign_branches_forwarded (hooks : Hooks) (program : List (Stmt σ)) (session : Session σ (List (Event σ))) :
    ∃ calls, Performs (runAll hooks program) session calls (runAll hooks program session) ∧
      let after := finalPass (runAll hooks program session)
      (∀ dest, dest ∉ resolvesAll program →
        Call.resolve dest ∉ calls ∧ after.resolved dest = session.pass.resolved dest ∧
          after.pending.states dest = session.pass.pending.states dest ++ sentTo dest calls) ∧
      (session.pass.pending.dests.filter fun dest => dest ∉ resolvesAll program) <+:
        after.pending.dests.filter fun dest => dest ∉ resolvesAll program := by
  let sim : ScriptSimulation σ σ := scriptWithin (fun _ => True) (· ∈ resolvesAll program)
  obtain ⟨calls, _, performs, _, paired, _⟩ := runAll_inStep sim hooks program (likeAll_self (fun _ => rfl) program)
    (fun _ _ => trivial) (fun _ member => member) session session ⟨⟨rfl, fun _ _ => rfl⟩, trivial⟩
  obtain ⟨_, inside⟩ := within_calls paired
  refine ⟨calls, performs, ?_⟩
  rw [performs.finalPass_eq]
  refine ⟨fun dest foreign => ?_, dests_unresolved session.pass fun dest member => ?_⟩
  · have unresolved : Call.resolve dest ∉ calls := resolve_not_mem inside foreign
    exact ⟨unresolved, resolved_unresolved session.pass unresolved, states_unresolved session.pass unresolved⟩
  · have own : dest ∈ resolvesAll program := inside _ member
    exact decide_eq_false (not_not_intro own)

def outside : Dest := place 9

/-- Two switches, one inside the other, with branches past both of them. -/
def passingBy : List (Stmt (May String)) :=
  [.jumpSwitch none
      [([place 1], [.fact "first", .branch outside, .jump (place 3)]),
        ([place 2], [.treeSwitch none none (.leaf ["v"] none outside .empty) none true [] (place 4)])]
      (place 3) none,
    .resolve (place 5)]

def waiting : Session (May String) (List (Event (May String))) :=
  ⟨((Pass.start ⟨some .empty⟩).record (place 5) ⟨none⟩).record outside ⟨none⟩, []⟩

/-- Both branches come behind the one that was waiting. -/
theorem passingBy_forwards : ∃ calls,
    Performs (runAll ⟨true, true⟩ passingBy) waiting calls (runAll ⟨true, true⟩ passingBy waiting) ∧
      sentTo outside calls = [⟨some (.ofList ["first"])⟩, ⟨some (.ofList ["bind:v"])⟩] ∧
      (finalPass (runAll ⟨true, true⟩ passingBy waiting)).pending.states outside = ⟨none⟩ :: sentTo outside calls := by
  obtain ⟨calls, performs, forwarded, _⟩ := foreign_branches_forwarded ⟨true, true⟩ passingBy waiting
  obtain ⟨_, _, queue⟩ := forwarded outside (by decide)
  have behind : (finalPass (runAll ⟨true, true⟩ passingBy waiting)).pending.states outside =
      ⟨none⟩ :: sentTo outside calls := queue
  refine ⟨calls, performs, ?_, behind⟩
  have evaluated : (finalPass (runAll ⟨true, true⟩ passingBy waiting)).pending.states outside =
      [⟨none⟩, ⟨some (.ofList ["first"])⟩, ⟨some (.ofList ["bind:v"])⟩] := by decide +kernel
  exact (List.cons.inj (behind.symm.trans evaluated)).2

end Script

end ClauseReach
