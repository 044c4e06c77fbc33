import ClauseReach.Registry
import ClauseReach.Proofs.DrainOrder
import ClauseReach.Proofs.PendingLog

/-!
The registry of a pass is kept in step. Seen as a pass, a registry makes every call as the pass does, and one whose
table, list and queues are in step stays so. By what is known of passes it then holds what a plain log of the same
calls says, after every call of every run, also of one that faults midway.
-/

namespace ClauseReach

open StateAlgebra

variable {σ τ ε ν : Type}

namespace Registry

def entryOf (queues : Dest → Option (Queue σ)) (dest : Dest) : Option (Dest × Queue σ) := (queues dest).map (dest, ·)

/-- The registry seen as a pass: the queues in the order of the list. -/
def view (registry : Registry σ) : Pass σ :=
  ⟨registry.state, ⟨registry.order.filterMap (entryOf registry.queues)⟩, registry.resolved⟩

def states (registry : Registry σ) (dest : Dest) : List σ := (registry.queues dest).elim [] Queue.toList

/-- The list holds the keys of the table, each once, and every queue holds something. -/
structure InStep (registry : Registry σ) : Prop where
  distinct : registry.order.Nodup
  keys : ∀ dest, dest ∈ registry.order ↔ (registry.queues dest).isSome = true
  nonempty : ∀ dest queue, registry.queues dest = some queue → queue.isEmpty = false

/-! ### What is seen of a registry -/

section Seen

variable {queues : Dest → Option (Queue σ)} {order : List Dest} {registry : Registry σ} {dest : Dest}

theorem map_fst_entries (keys : ∀ dest ∈ order, (queues dest).isSome = true) :
    (order.filterMap (entryOf queues)).map Prod.fst = order := by
  induction order with
  | nil => rfl
  | cons first rest ih =>
    obtain ⟨queue, found⟩ := Option.isSome_iff_exists.mp (keys first (List.mem_cons_self ..))
    have later := ih fun dest member => keys dest (List.mem_cons_of_mem _ member)
    rw [List.filterMap_cons, entryOf, found]
    exact congrArg (first :: ·) later

theorem find?_entries (dest : Dest) :
    (order.filterMap (entryOf queues)).find? (·.1 = dest) = if dest ∈ order then entryOf queues dest else none := by
  induction order with
  | nil => rfl
  | cons first rest ih =>
    by_cases here : first = dest
    · subst here
      cases found : queues first <;> simp_all [entryOf]
    · have elsewhere : dest ≠ first := fun same => here same.symm
      cases found : queues first <;> simp_all [entryOf]

namespace InStep

theorem dests_view (inStep : registry.InStep) : registry.view.pending.dests = registry.order :=
  map_fst_entries fun dest member => (inStep.keys dest).mp member

theorem states_view (inStep : registry.InStep) (dest : Dest) :
    registry.view.pending.states dest = registry.states dest := by
  have listed := inStep.keys dest
  unfold Pending.states view states
  rw [find?_entries]
  cases found : registry.queues dest with
  | none => simp_all
  | some queue => simp_all [entryOf]

theorem not_mem_order (inStep : registry.InStep) (absent : registry.queues dest = none) : dest ∉ registry.order := by
  rw [inStep.keys, absent]
  exact Bool.false_ne_true

end InStep

end Seen

/-! ### Single calls -/

section Calls

variable {queues : Dest → Option (Queue σ)} {order : List Dest} {registry : Registry σ} {dest : Dest} {state : σ}

theorem isEmpty_push (queue : Queue σ) (state : σ) : (queue.push state).isEmpty = false := by
  rw [← Bool.not_eq_true, Queue.isEmpty_iff, Queue.toList_push]
  simp

theorem record_of_some {queue : Queue σ} (found : registry.queues dest = some queue) (state : σ) :
    registry.record dest state = registry.setQueue dest (some (queue.push state)) := by
  rw [record, opened, found]

theorem record_of_none (absent : registry.queues dest = none) (state : σ) : registry.record dest state =
    { registry.setQueue dest (some (Queue.empty.push state)) with order := registry.order ++ [dest] } := by
  rw [record, opened, absent]
  simp only [setQueue]
  congr 1
  funext other
  split <;> rfl

theorem entries_setQueue (elsewhere : dest ∉ order) (queue : Option (Queue σ)) :
    order.filterMap (entryOf (registry.setQueue dest queue).queues) = order.filterMap (entryOf registry.queues) := by
  apply List.filterMap_congr
  intro other member
  have different : other ≠ dest := fun same => elsewhere (same ▸ member)
  simp only [entryOf, setQueue, if_neg different]

/-- A new state goes to the first entry of its destination, and there is no other. -/
theorem extend_entries {queue : Queue σ} (distinct : order.Nodup) (member : dest ∈ order)
    (found : registry.queues dest = some queue) (state : σ) :
    Pending.extend dest state (order.filterMap (entryOf registry.queues)) =
      order.filterMap (entryOf (registry.setQueue dest (some (queue.push state))).queues) := by
  induction order with
  | nil => cases member
  | cons first rest ih =>
    obtain ⟨new, distinct⟩ := List.nodup_cons.mp distinct
    by_cases here : first = dest
    · subst here
      rw [List.filterMap_cons, List.filterMap_cons, entries_setQueue new]
      simp [entryOf, setQueue, found, Pending.extend]
    · have later := ih distinct ((List.mem_cons.mp member).resolve_left fun same => here same.symm)
      rw [List.filterMap_cons, List.filterMap_cons, ← later]
      cases other : registry.queues first <;> simp [entryOf, setQueue, here, other, Pending.extend]

theorem extend_new (absent : dest ∉ order) (state : σ) :
    Pending.extend dest state (order.filterMap (entryOf registry.queues)) =
      order.filterMap (entryOf registry.queues) ++ [(dest, Queue.empty.push state)] := by
  induction order with
  | nil => rfl
  | cons first rest ih =>
    rw [List.mem_cons, not_or] at absent
    have later := ih absent.2
    rw [List.filterMap_cons]
    cases found : registry.queues first with
    | none => simpa [entryOf, found] using later
    | some queue => simpa [entryOf, found, Pending.extend, Ne.symm absent.1] using later

namespace InStep

theorem nonempty_setQueue (inStep : registry.InStep) {queue : Option (Queue σ)}
    (filled : ∀ held, queue = some held → held.isEmpty = false) :
    ∀ other held, (registry.setQueue dest queue).queues other = some held → held.isEmpty = false := by
  intro other held found
  by_cases same : other = dest
  · exact filled held (by simpa [setQueue, same] using found)
  · exact inStep.nonempty other held (by simpa [setQueue, same] using found)

theorem record (inStep : registry.InStep) (dest : Dest) (state : σ) : (registry.record dest state).InStep := by
  cases found : registry.queues dest with
  | some queue =>
    rw [record_of_some found]
    refine ⟨inStep.distinct, fun other => ?_, inStep.nonempty_setQueue ?_⟩
    · have listed := inStep.keys other
      by_cases same : other = dest
      · subst same
        simpa [setQueue, found] using listed
      · simpa [setQueue, same] using listed
    · rintro _ ⟨⟩
      exact isEmpty_push queue state
  | none =>
    have absent := inStep.not_mem_order found
    rw [record_of_none found]
    refine ⟨?_, fun other => ?_, inStep.nonempty_setQueue ?_⟩
    · refine List.nodup_append.mpr ⟨inStep.distinct, List.pairwise_singleton _ dest, ?_⟩
      intro other member last only same
      exact absent (List.mem_singleton.mp only ▸ same ▸ member)
    · have listed := inStep.keys other
      by_cases same : other = dest <;> simp [setQueue, same, listed]
    · rintro _ ⟨⟩
      exact isEmpty_push .empty state

theorem view_record (inStep : registry.InStep) (dest : Dest) (state : σ) :
    (registry.record dest state).view = registry.view.record dest state := by
  cases found : registry.queues dest with
  | some queue =>
    have member : dest ∈ registry.order := by rw [inStep.keys, found]; rfl
    rw [record_of_some found]
    simp only [view, Pass.record, Pending.record, extend_entries inStep.distinct member found state]
    rfl
  | none =>
    have absent := inStep.not_mem_order found
    rw [record_of_none found]
    simp only [view, Pass.record, Pending.record, extend_new absent state, List.filterMap_append]
    rw [entries_setQueue absent]
    simp [entryOf, setQueue]

theorem withState (inStep : registry.InStep) (state : σ) : (registry.withState state).InStep :=
  ⟨inStep.distinct, inStep.keys, inStep.nonempty⟩

theorem close (inStep : registry.InStep) (dest : Dest) (count : Nat) : (registry.close dest count).InStep := by
  refine ⟨inStep.distinct.erase dest, fun other => ?_, inStep.nonempty_setQueue ?_⟩
  · change other ∈ registry.order.erase dest ↔ _
    rw [inStep.distinct.mem_erase_iff, inStep.keys]
    by_cases same : other = dest <;> simp [Registry.close, setQueue, same]
  · rintro _ ⟨⟩

/-- The list has the destination once, so to strike it out once is to strike it out. -/
theorem entries_close (inStep : registry.InStep) (dest : Dest) (count : Nat) :
    (registry.close dest count).view.pending = registry.view.pending.forget dest := by
  have entries : (registry.order.erase dest).filterMap (entryOf (registry.setQueue dest none).queues) =
      (registry.order.filterMap (entryOf registry.queues)).filter (·.1 ≠ dest) := by
    rw [inStep.distinct.erase_eq_filter, List.filterMap_filter, List.filter_filterMap]
    apply List.filterMap_congr
    intro other _
    by_cases same : other = dest
    · subst same
      cases held : registry.queues other <;> simp [entryOf, held, Option.filter]
    · cases held : registry.queues other <;> simp [entryOf, setQueue, same, held, Option.filter]
  exact congrArg Pending.mk entries

end InStep

variable [StateAlgebra σ]

theorem foldl_join (states : List σ) (registry : Registry σ) :
    states.foldl join registry = registry.withState (states.foldl merge registry.state) := by
  induction states generalizing registry with
  | nil => rfl
  | cons state rest ih => exact ih (registry.join state)

/-- A queue that is drained into the current state is emptied, and its states are merged in their order. -/
theorem drain_join (queue : Queue σ) (registry : Registry σ) :
    queue.drain (fun state rest registry => (rest, registry.join state)) registry =
      some (.empty, registry.withState (queue.toList.foldl merge registry.state)) := by
  have feeds : Queue.Feeds (fun state rest (registry : Registry σ) => (rest, registry.join state)) (fun _ => []) join :=
    ⟨fun _ _ _ => (List.append_nil _).symm, fun _ _ _ => rfl⟩
  obtain ⟨after, gathered, drained⟩ := feeds.drain_round (List.append_nil queue.toList).symm registry
  rw [List.nil_append, List.flatMap_eq_nil_iff.mpr fun _ _ => rfl] at gathered
  rw [drained, Queue.eq_empty gathered, Queue.drain_empty, foldl_join]

namespace InStep

theorem resolve (inStep : registry.InStep) (dest : Dest) :
    ∃ next, registry.resolve dest = some ((registry.view.resolve dest).1, next) ∧ next.InStep ∧
      next.view = (registry.view.resolve dest).2 := by
  have arrived := inStep.states_view dest
  cases found : registry.queues dest with
  | none =>
    -- The registry is left alone, while the pass forgets the destination and counts its branches: there are none.
    have nothing : registry.view.pending.states dest = [] := by rw [arrived, states, found]; rfl
    have kept : registry.view.pending.forget dest = registry.view.pending := by
      have others : ∀ entry ∈ registry.view.pending.entries, entry.1 ≠ dest := by
        intro entry member same
        apply inStep.not_mem_order found
        rw [← inStep.dests_view]
        exact same ▸ List.mem_map_of_mem member
      exact congrArg Pending.mk (List.filter_eq_self.mpr fun entry member => decide_eq_true (others entry member))
    refine ⟨registry, ?_, inStep, ?_⟩
    · rw [Registry.resolve, found, Pass.resolve, nothing]
      rfl
    · have counts : registry.resolved = fun other =>
          if other = dest then registry.resolved dest + 0 else registry.resolved other := by
        funext other
        by_cases same : other = dest <;> simp [same]
      rw [Pass.resolve, nothing, kept]
      exact congrArg (Pass.mk registry.state registry.view.pending) counts
  | some queue =>
    have waiting : registry.view.pending.states dest = queue.toList := by rw [arrived, states, found]; rfl
    have joined := inStep.withState (queue.toList.foldl merge registry.state)
    refine ⟨_, ?_, joined.close dest queue.toList.length, ?_⟩
    · rw [Registry.resolve, found]
      simp only [drain_join, Queue.size_eq, Pass.resolve, waiting]
      rfl
    · rw [Pass.resolve, waiting, ← inStep.entries_close dest queue.toList.length]
      rfl

end InStep

end Calls

/-! ### Runs -/

section Runs

variable {registry : Registry σ}

theorem view_start (entry : σ) : (start entry).view = .start entry := rfl

theorem start_inStep (entry : σ) : (start entry).InStep :=
  ⟨.nil, fun dest => by simp [start], fun dest queue found => by cases found⟩

/-- The registry after some calls is in step, and it holds what the ledger of the same calls says. -/
structure Agrees (registry : Registry σ) (calls : List (Call σ)) (ledger : Ledger σ) : Prop
    extends registry.InStep where
  state : registry.state = ledger.state
  queued : ∀ dest, registry.states dest = ledger.sent dest
  listed : registry.order = (ledger.log.map Prod.fst).eraseDups
  counted : ∀ dest, recordings dest calls = registry.resolved dest + (registry.states dest).length

theorem InStep.agrees {pass : Pass σ} {calls : List (Call σ)} {ledger : Ledger σ} (inStep : registry.InStep)
    (seen : registry.view = pass) (agrees : pass.Agrees calls ledger) : registry.Agrees calls ledger := by
  subst seen
  refine ⟨inStep, agrees.state, fun dest => ?_, ?_, fun dest => ?_⟩
  · rw [← inStep.states_view, agrees.queued]
  · rw [← inStep.dests_view, agrees.order]
  · rw [← inStep.states_view, agrees.counted]
    rfl

variable [StateAlgebra σ]

def call (registry : Registry σ) : Call σ → Option (Registry σ)
  | .record dest state => some (registry.record dest state)
  | .resolve dest => (registry.resolve dest).map Prod.snd
  | .set state => some (registry.withState state)

theorem InStep.call (inStep : registry.InStep) (next : Call σ) :
    ∃ after, registry.call next = some after ∧ after.InStep ∧ after.view = registry.view.call next := by
  cases next with
  | record dest state => exact ⟨_, rfl, inStep.record dest state, inStep.view_record dest state⟩
  | set state => exact ⟨_, rfl, inStep.withState state, rfl⟩
  | resolve dest =>
    obtain ⟨after, resolved, kept, seen⟩ := inStep.resolve dest
    exact ⟨after, by rw [Registry.call, resolved]; rfl, kept, seen⟩

theorem InStep.callAll (inStep : registry.InStep) (calls : List (Call σ)) :
    ∃ after, calls.foldlM Registry.call registry = some after ∧ after.InStep ∧
      after.view = calls.foldl Pass.call registry.view := by
  induction calls generalizing registry with
  | nil => exact ⟨registry, rfl, inStep, rfl⟩
  | cons next rest ih =>
    obtain ⟨middle, called, kept, seen⟩ := inStep.call next
    obtain ⟨after, went, still, shown⟩ := ih kept
    refine ⟨after, ?_, still, ?_⟩
    · rw [List.foldlM_cons, called]
      exact went
    · rw [shown, seen, List.foldl_cons]

end Runs

end Registry

/-- From the start of a pass, after every call made by any operations, however they end: a registry on which the same
calls were made shows what the pass shows, so that whoever makes them cannot tell the two apart. Its table, list and
queues are in step and hold what the ledger says, and to resolve a destination there comes to an end, tells how many
branches the ledger has for it, and takes these out. -/
theorem registry_refines_log [StateAlgebra σ] (entry : σ) (own : τ) (operations : List (Operation σ τ ε ν))
    (parts : ∀ operation ∈ operations, operation.OfClient) :
    ∃ after calls, Operation.performAll operations ⟨.start entry, own⟩ = .ok () after ∧
      Performs (Operation.performAll operations) ⟨.start entry, own⟩ calls (.ok () after) ∧
      after.pass = calls.foldl Pass.call (.start entry) ∧
      ∀ made, made <+: calls →
        let ledger := made.foldl Ledger.call (.start entry)
        ∃ registry, made.foldlM Registry.call (.start entry) = some registry ∧
          registry.view = made.foldl Pass.call (.start entry) ∧ registry.Agrees made ledger ∧
          ∀ dest, ∃ next, registry.resolve dest = some ((ledger.sent dest).length, next) ∧
            next.Agrees (made ++ [.resolve dest]) (ledger.call (.resolve dest)) := by
  obtain ⟨after, ended⟩ := Operation.performAll_ends operations ⟨.start entry, own⟩
  obtain ⟨calls, performs⟩ := (Operation.performAll_client parts).performs ⟨.start entry, own⟩
  rw [ended] at performs
  refine ⟨after, calls, ended, performs, performs.finalPass_eq, ?_⟩
  intro made _ ledger
  obtain ⟨registry, reached, inStep, seen⟩ := (Registry.start_inStep entry).callAll made
  rw [Registry.view_start] at seen
  have agrees : (made.foldl Pass.call (.start entry)).Agrees made ledger := (Pass.start_agrees entry).callAll made
  refine ⟨registry, reached, seen, inStep.agrees seen agrees, fun dest => ?_⟩
  obtain ⟨next, resolved, kept, shown⟩ := inStep.resolve dest
  refine ⟨next, ?_, kept.agrees shown ?_⟩
  · have count : ((made.foldl Pass.call (.start entry)).resolve dest).1 = (ledger.sent dest).length :=
      congrArg List.length (agrees.queued dest)
    rw [resolved, seen, count]
  · rw [seen]
    exact agrees.resolve dest

section Stumbling

open Script

def faultySwitch : AnySwitch (May String) (List (Event (May String))) Script.Expr String :=
  .jump { scrutinee := pure (), sections := [⟨[place 1, none], pure ()⟩], brk := place 2, target := none }

def leavingSwitch : AnySwitch (May String) (List (Event (May String))) Script.Expr String :=
  .jump
    { scrutinee := pure (), brk := place 2, target := none
      sections := [⟨[place 3], runAll ⟨true, true⟩ [.fact "seen", .jump (place 4), .resolve (place 1)]⟩] }

def stumbling : List (Operation (May String) (List (Event (May String))) Script.Expr String) :=
  [.record (place 2) ⟨none⟩, .branch (place 1), .switch faultySwitch, .resolve (place 2), .switch leavingSwitch,
    .branch (place 1)]

theorem stumbling_parts : ∀ operation ∈ stumbling, operation.OfClient := by
  have faulty : faultySwitch.OfClient fun _ => True :=
    ⟨.pure (), by simp only [List.forall_mem_singleton]; exact .pure ()⟩
  have leaving : leavingSwitch.OfClient fun _ => True :=
    ⟨.pure (), by simp only [List.forall_mem_singleton]; exact runAll_client _ _ fun _ _ => trivial⟩
  simp only [stumbling, List.forall_mem_cons]
  exact ⟨trivial, trivial, faulty, trivial, leaving, trivial, by simp⟩

/-- The fault in the first switch leaves its two branches to be found. -/
theorem stumbling_refines : ∃ (after : Session _ _) (calls : List (Call _)) (registry : Registry _),
    Operation.performAll stumbling ⟨.start ⟨some .empty⟩, []⟩ = .ok () after ∧
      calls.foldlM Registry.call (.start ⟨some .empty⟩) = some registry ∧ registry.view = after.pass ∧
      registry.order = [none, place 4, place 1] ∧ registry.resolved (place 1) = 2 ∧
      registry.Agrees calls (calls.foldl Ledger.call (.start ⟨some .empty⟩)) := by
  obtain ⟨after, calls, ended, _, whole, agrees⟩ := registry_refines_log ⟨some .empty⟩ [] stumbling stumbling_parts
  obtain ⟨registry, reached, seen, agrees, _⟩ := agrees calls (List.prefix_refl calls)
  rw [← whole] at seen
  have evaluated : finalPass (Operation.performAll stumbling ⟨.start ⟨some .empty⟩, []⟩) = registry.view := by
    rw [ended, seen]
    rfl
  refine ⟨after, calls, registry, ended, reached, seen, ?_, ?_, agrees⟩
  · rw [← agrees.dests_view, ← evaluated]
    decide +kernel
  · change registry.view.resolved (place 1) = 2
    rw [← evaluated]
    decide +kernel

end Stumbling

end ClauseReach
