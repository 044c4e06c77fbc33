import Mathlib.Data.List.Perm.Basic
import ClauseReach.Proofs.Footprint
import ClauseReach.Proofs.ImplicitBreak
import ClauseReach.Proofs.SwitchAgreement

/-!
The order of sections. A section starts from the branches to its labels and from nothing else, so that sections
which do not wait for one another's branches may be visited in any order. Two neighbours are exchanged by a frame
argument: each makes the same calls on the pass whether or not the other has been visited before, and the calls of
both come to the same traffic. What the order leaves behind is the order in which branches stand in their queues.
-/

namespace ClauseReach

open StateAlgebra

variable {σ τ ε ν α : Type}

/-- The passes have the same branches at a destination, in whatever order. -/
structure AlikeAt (dest : Dest) (left right : Pass σ) : Prop where
  queued : (left.pending.states dest).Perm (right.pending.states dest)
  listed : dest ∈ left.pending.dests ↔ dest ∈ right.pending.dests
  resolved : left.resolved dest = right.resolved dest

namespace AlikeAt

variable {dest : Dest} {left middle right : Pass σ}

theorem refl (dest : Dest) (pass : Pass σ) : AlikeAt dest pass pass := ⟨.refl _, Iff.rfl, rfl⟩

theorem symm (near : AlikeAt dest left right) : AlikeAt dest right left :=
  ⟨near.queued.symm, near.listed.symm, near.resolved.symm⟩

theorem trans (near : AlikeAt dest left middle) (further : AlikeAt dest middle right) : AlikeAt dest left right :=
  ⟨near.queued.trans further.queued, near.listed.trans further.listed, near.resolved.trans further.resolved⟩

theorem withState (near : AlikeAt dest left right) (state : σ) : AlikeAt dest left (right.withState state) :=
  ⟨near.queued, near.listed, near.resolved⟩

variable [StateAlgebra σ]

theorem call (near : AlikeAt dest left right) (next : Call σ) : AlikeAt dest (left.call next) (right.call next) where
  queued := by
    rw [states_call, states_call]
    cases next with
    | set state => exact near.queued
    | resolve other =>
      rw [queueAfter, queueAfter]
      split
      · exact .refl _
      · exact near.queued
    | record other state =>
      rw [queueAfter, queueAfter]
      split
      · exact near.queued.append_right [state]
      · exact near.queued
  listed := by
    rw [mem_dests_call, mem_dests_call]
    cases next with
    | set state => exact near.listed
    | resolve other => exact and_congr_left fun _ => near.listed
    | record other state => exact or_congr_left near.listed
  resolved := by
    cases next with
    | set state => exact near.resolved
    | record other state => exact near.resolved
    | resolve other =>
      simp only [Pass.call, Pass.resolve]
      split
      next same => rw [← same, near.resolved, near.queued.length_eq]
      next => exact near.resolved

theorem calls (near : AlikeAt dest left right) (made : List (Call σ)) :
    AlikeAt dest (made.foldl Pass.call left) (made.foldl Pass.call right) := by
  induction made generalizing left right with
  | nil => exact near
  | cons next _ ih => exact ih (near.call next)

theorem untouched {records resolves : Dest → Prop} {made : List (Call σ)}
    (inside : ∀ call ∈ made, call.Within records resolves) (pass : Pass σ) (unsent : ¬records dest)
    (unresolved : ¬resolves dest) : AlikeAt dest pass (made.foldl Pass.call pass) where
  queued := by
    rw [states_unresolved pass (resolve_not_mem inside unresolved), sentTo_eq_nil inside unsent, List.append_nil]
  listed := by
    rw [mem_dests_unresolved pass (resolve_not_mem inside unresolved), sentTo_eq_nil inside unsent]
    simp
  resolved := (resolved_unresolved pass (resolve_not_mem inside unresolved)).symm

theorem exchange {made others : List (Call σ)} (first : Call.resolve dest ∉ made) (second : Call.resolve dest ∉ others)
    (near : AlikeAt dest left right) :
    AlikeAt dest (others.foldl Pass.call (made.foldl Pass.call left))
      (made.foldl Pass.call (others.foldl Pass.call right)) where
  queued := by
    rw [states_unresolved _ second, states_unresolved _ first, states_unresolved _ first, states_unresolved _ second,
      List.append_assoc, List.append_assoc]
    exact near.queued.append List.perm_append_comm
  listed := by
    rw [mem_dests_unresolved _ second, mem_dests_unresolved _ first, mem_dests_unresolved _ first,
      mem_dests_unresolved _ second, near.listed, or_assoc, or_assoc, or_comm (a := sentTo dest made ≠ [])]
  resolved := by
    rw [resolved_unresolved _ second, resolved_unresolved _ first, resolved_unresolved _ first,
      resolved_unresolved _ second, near.resolved]

end AlikeAt

/-- A section with bounds that its body keeps. Branches go to `records`, and what arrives is in `resolves`; from
sessions that agree on these, the body makes the same calls. What it notes in the data of the analysis is nothing
that it could read. -/
structure BoundedSection (σ τ : Type) [StateAlgebra σ] (alike : τ → τ → Prop) where
  entered : Section σ τ
  records : Dest → Prop
  resolves : Dest → Prop
  inStep : (within alike records resolves).InStep Eq entered.body entered.body
  notes : ∀ session after, entered.body session = .ok () after → alike session.own after.own

/-- Sessions with the same branches everywhere, in whatever order, and in the same order at some destinations. -/
structure Level (alike : τ → τ → Prop) (fixed : Dest → Prop) (left right : Session σ τ) : Prop where
  own : alike left.own right.own
  equal : ∀ dest, fixed dest → left.pass.pending.states dest = right.pass.pending.states dest
  traffic : ∀ dest, AlikeAt dest left.pass right.pass

section Orders

variable [StateAlgebra σ] {alike : τ → τ → Prop}

theorem inStep_widen {β : Type} {values : α → β → Prop} {records resolves heeds : Dest → Prop}
    {left : Analysis σ τ α} {right : Analysis σ τ β} (held : (within alike records resolves).InStep values left right)
    (wider : ∀ dest, resolves dest → heeds dest) : (within alike records heeds).InStep values left right := by
  intro first second near
  obtain ⟨made, others, performs, follows, paired, ended⟩ :=
    held first second ⟨⟨near.1.1, fun dest own => near.1.2 dest (wider dest own)⟩, near.2⟩
  obtain ⟨same, inside⟩ := within_calls paired
  subst same
  have same (dest : Dest) (own : heeds dest) :
      (finalPass (left first)).pending.states dest = (finalPass (right second)).pending.states dest := by
    rw [performs.finalPass_eq, follows.finalPass_eq, states_calls, states_calls, near.1.2 dest own]
  refine ⟨made, made, performs, follows, ?_, ?_⟩
  · apply List.forall₂_same.mpr
    intro call member
    have allowed := inside call member
    cases call with
    | record dest state => exact .record allowed rfl
    | resolve dest => exact .resolve (wider dest allowed)
    | set state => exact .set rfl
  · rcases ended.exists_or_fault with
      ⟨value, other, after, counterpart, reached, arrived, related, kept⟩ | ⟨fault, after, counterpart, reached, arrived, kept⟩
    · rw [reached, arrived] at same ⊢
      exact .ok related ⟨⟨kept.1.1, same⟩, kept.2⟩
    · rw [reached, arrived] at same ⊢
      exact .error ⟨⟨kept.1.1, same⟩, kept.2⟩

theorem resolveAll_own (labels : List Dest) (session : Session σ τ) :
    ∃ pass, Analysis.resolveAll labels session = .ok () ⟨pass, session.own⟩ := by
  induction labels generalizing session with
  | nil => exact ⟨session.pass, rfl⟩
  | cons dest rest ih => exact ih ⟨(session.pass.resolve dest).2, session.own⟩

namespace BoundedSection

variable (part : BoundedSection σ τ alike)

def heeds (dest : Dest) : Prop := dest ∈ part.entered.labels ∨ part.resolves dest

theorem visit_inStep : (within alike part.records part.heeds).InStep Eq part.entered.visit part.entered.visit := by
  apply Simulation.InStep.bind (.set rfl)
  intro _ _ _
  apply Simulation.InStep.bind (.resolveAll fun dest member => Or.inl member)
  intro _ _ _
  apply Simulation.InStep.bind .current
  intro entry _ same
  subst same
  apply Simulation.InStep.bind (inStep_widen part.inStep fun dest own => Or.inr own)
  intro _ _ _
  apply Simulation.InStep.bind .current
  intro last _ same
  subst same
  exact .pure rfl

theorem visit_notes {value : σ × σ} {session after : Session σ τ} (ran : part.entered.visit session = .ok value after) :
    alike session.own after.own := by
  obtain ⟨pass, arrived⟩ := resolveAll_own part.entered.labels ⟨session.pass.withState unreachable, session.own⟩
  change (Analysis.resolveAll part.entered.labels >>= _) (⟨session.pass.withState unreachable, session.own⟩ : Session σ τ) = _
    at ran
  rw [Analysis.bind_ok arrived] at ran
  obtain ⟨entry, _, here, ran⟩ := Analysis.exists_of_bind_ok ran
  cases here
  obtain ⟨_, middle, went, ran⟩ := Analysis.exists_of_bind_ok ran
  cases ran
  exact part.notes ⟨pass, session.own⟩ after went

theorem visit_calls {left right : Session σ τ} (own : alike left.own right.own)
    (equal : ∀ dest, part.heeds dest → left.pass.pending.states dest = right.pass.pending.states dest) {value : σ × σ}
    {after : Session σ τ} (ran : part.entered.visit left = .ok value after) :
    ∃ (calls : List (Call σ)) (counterpart : Session σ τ), part.entered.visit right = .ok value counterpart ∧
      (∀ call ∈ calls, call.Within part.records part.heeds) ∧ after.pass = calls.foldl Pass.call left.pass ∧
      counterpart.pass = calls.foldl Pass.call (right.pass.withState left.pass.state) ∧
      alike after.own counterpart.own := by
  -- A section does not look at the state it is come to in.
  let level : Session σ τ := { right with pass := right.pass.withState left.pass.state }
  have forgets : part.entered.visit level = part.entered.visit right := Section.visit_withState _ right
  obtain ⟨calls, others, performs, follows, paired, ended⟩ := part.visit_inStep left level ⟨⟨rfl, equal⟩, own⟩
  obtain ⟨same, inside⟩ := within_calls paired
  subst same
  rw [ran] at performs ended
  rcases ended.exists_or_fault with ⟨_, other, _, counterpart, same, arrived, related, kept⟩ | ⟨_, _, _, same, _, _⟩
  · cases same
    subst related
    rw [arrived] at follows
    exact ⟨calls, counterpart, forgets.symm.trans arrived, inside, performs.finalPass_eq, follows.finalPass_eq, kept.2⟩
  · cases same

end BoundedSection

theorem Level.visit {fixed : Dest → Prop} {left right : Session σ τ} (level : Level alike fixed left right)
    (part : BoundedSection σ τ alike) (among : ∀ dest, part.heeds dest → fixed dest) {value : σ × σ}
    {after : Session σ τ} (ran : part.entered.visit left = .ok value after) :
    ∃ counterpart, part.entered.visit right = .ok value counterpart ∧ Level alike fixed after counterpart := by
  obtain ⟨calls, counterpart, went, _, first, second, own⟩ :=
    part.visit_calls level.own (fun dest heeded => level.equal dest (among dest heeded)) ran
  refine ⟨counterpart, went, own, ?_, ?_⟩
  · intro dest still
    rw [first, second, states_calls, states_calls]
    exact congrArg (fun queue => calls.foldl (queueAfter dest) queue) (level.equal dest still)
  · intro dest
    rw [first, second]
    exact ((level.traffic dest).withState left.pass.state).calls calls

/-- Neither section touches what arrives in the other. -/
structure BoundedSection.Apart (first second : BoundedSection σ τ alike) : Prop where
  after : ∀ dest, first.heeds dest → ¬second.records dest ∧ ¬second.heeds dest
  before : ∀ dest, second.heeds dest → ¬first.records dest ∧ ¬first.heeds dest

def BoundedSection.touches (part : BoundedSection σ τ alike) (dest : Dest) : Prop := part.records dest ∨ part.heeds dest

theorem BoundedSection.Apart.symm {first second : BoundedSection σ τ alike} (apart : first.Apart second) :
    second.Apart first := ⟨apart.before, apart.after⟩

theorem BoundedSection.pairwise_apart {parts : List (BoundedSection σ τ alike)}
    (disjoint : parts.Pairwise fun first second => ∀ dest ∈ first.entered.labels, dest ∉ second.entered.labels)
    (unused : ∀ part ∈ parts, ∀ other ∈ parts, ∀ dest ∈ other.entered.labels, ¬part.records dest ∧ ¬part.resolves dest)
    (separate : parts.Pairwise fun first second =>
      (∀ dest, first.resolves dest → ¬second.records dest ∧ ¬second.resolves dest) ∧
        ∀ dest, second.resolves dest → ¬first.records dest ∧ ¬first.resolves dest) :
    parts.Pairwise BoundedSection.Apart := by
  refine (disjoint.and separate).imp_of_mem ?_
  intro first second left right both
  obtain ⟨own, free⟩ := both
  constructor
  · rintro dest (labelled | resolved)
    · obtain ⟨unsent, unresolved⟩ := unused second right first left dest labelled
      exact ⟨unsent, not_or.mpr ⟨own dest labelled, unresolved⟩⟩
    · obtain ⟨unsent, unresolved⟩ := free.1 dest resolved
      exact ⟨unsent, not_or.mpr ⟨fun labelled => (unused first left second right dest labelled).2 resolved, unresolved⟩⟩
  · rintro dest (labelled | resolved)
    · obtain ⟨unsent, unresolved⟩ := unused first left second right dest labelled
      exact ⟨unsent, not_or.mpr ⟨fun shared => own dest shared labelled, unresolved⟩⟩
    · obtain ⟨unsent, unresolved⟩ := free.2 dest resolved
      exact ⟨unsent, not_or.mpr ⟨fun labelled => (unused second right first left dest labelled).2 resolved, unresolved⟩⟩

theorem visit_exchange (equivalence : Equivalence alike) {first second : BoundedSection σ τ alike}
    (apart : first.Apart second) {session middle after : Session σ τ} {one two : σ × σ}
    (ran : first.entered.visit session = .ok one middle) (went : second.entered.visit middle = .ok two after) :
    ∃ between counterpart, second.entered.visit session = .ok two between ∧
      first.entered.visit between = .ok one counterpart ∧
      Level alike (fun dest => ¬first.touches dest ∧ ¬second.touches dest) after counterpart := by
  have noted := first.visit_notes ran
  -- The first section leaves alone what arrives in the second, which therefore goes as if it came first.
  obtain ⟨_, _, _, kept, moved, _, _⟩ := first.visit_calls (equivalence.refl session.own) (fun _ _ => rfl) ran
  have unsent (dest : Dest) (own : second.heeds dest) :
      middle.pass.pending.states dest = session.pass.pending.states dest := by
    obtain ⟨never, none⟩ := apart.before dest own
    rw [moved, states_unresolved _ (resolve_not_mem kept none), sentTo_eq_nil kept never, List.append_nil]
  obtain ⟨others, between, early, outside, last, reached, _⟩ :=
    second.visit_calls (equivalence.symm noted) unsent went
  have unmoved (dest : Dest) (own : first.heeds dest) :
      session.pass.pending.states dest = between.pass.pending.states dest := by
    obtain ⟨never, none⟩ := apart.after dest own
    rw [reached, states_unresolved _ (resolve_not_mem outside none), sentTo_eq_nil outside never, List.append_nil]
    rfl
  obtain ⟨calls, counterpart, late, inside, start, final, _⟩ :=
    first.visit_calls (second.visit_notes early) unmoved ran
  refine ⟨between, counterpart, early, late, ?_, ?_, ?_⟩
  · have ended := equivalence.trans noted (second.visit_notes went)
    have finished := equivalence.trans (second.visit_notes early) (first.visit_notes late)
    exact equivalence.trans (equivalence.symm ended) finished
  · intro dest free
    obtain ⟨⟨never, none⟩, ⟨nothing, nowhere⟩⟩ := And.intro (not_or.mp free.1) (not_or.mp free.2)
    rw [last, final, start, states_unresolved _ (resolve_not_mem outside nowhere),
      states_unresolved _ (resolve_not_mem inside none), states_unresolved _ (resolve_not_mem inside none),
      sentTo_eq_nil inside never, sentTo_eq_nil outside nothing]
    change _ = between.pass.pending.states dest ++ []
    rw [reached, states_unresolved _ (resolve_not_mem outside nowhere), sentTo_eq_nil outside nothing]
    simp [Pass.withState]
  · intro dest
    have placed : AlikeAt dest session.pass (session.pass.withState middle.pass.state) :=
      (AlikeAt.refl dest session.pass).withState _
    have returned : AlikeAt dest between.pass (between.pass.withState session.pass.state) :=
      (AlikeAt.refl dest between.pass).withState _
    by_cases mine : first.heeds dest
    · -- The second section does nothing here.
      obtain ⟨never, none⟩ := apart.after dest mine
      have past : AlikeAt dest middle.pass after.pass := last ▸ .untouched outside middle.pass never none
      have same : AlikeAt dest session.pass between.pass := reached ▸ placed.trans (.untouched outside _ never none)
      have moved : AlikeAt dest middle.pass counterpart.pass := start ▸ final ▸ (same.trans returned).calls calls
      exact past.symm.trans moved
    by_cases yours : second.heeds dest
    · obtain ⟨never, none⟩ := apart.before dest yours
      have past : AlikeAt dest session.pass middle.pass := start ▸ .untouched inside session.pass never none
      have same : AlikeAt dest between.pass counterpart.pass :=
        final ▸ returned.trans (.untouched inside _ never none)
      have moved : AlikeAt dest after.pass between.pass := last ▸ reached ▸ (past.symm.trans placed).calls others
      exact moved.trans same
    · rw [last, final, start]
      have near : AlikeAt dest (others.foldl Pass.call (calls.foldl Pass.call session.pass))
          (calls.foldl Pass.call (others.foldl Pass.call (session.pass.withState middle.pass.state))) :=
        placed.exchange (resolve_not_mem inside mine) (resolve_not_mem outside yours)
      rw [← reached] at near
      exact near.trans (returned.calls calls)

section Lists

variable {entered : Section σ τ} {rest : List (Section σ τ)} {exits final : σ} {entries : List σ}
  {session after : Session σ τ}

theorem observeSections_cons {entry last : σ} {middle : Session σ τ}
    (visited : entered.visit session = .ok (entry, last) middle)
    (ran : Switch.observeSections (merge exits last) rest middle = .ok (final, entries) after) :
    Switch.observeSections exits (entered :: rest) session = .ok (final, entry :: entries) after := by
  rw [Switch.observeSections, Analysis.bind_ok visited]
  exact Analysis.bind_ok ran

theorem exists_of_observeSections_cons
    (ran : Switch.observeSections exits (entered :: rest) session = .ok (final, entries) after) :
    ∃ entry last middle later, entered.visit session = .ok (entry, last) middle ∧
      Switch.observeSections (merge exits last) rest middle = .ok (final, later) after ∧ entries = entry :: later := by
  obtain ⟨⟨entry, last⟩, middle, visited, ran⟩ := Analysis.exists_of_bind_ok ran
  obtain ⟨⟨reached, later⟩, _, went, ran⟩ := Analysis.exists_of_bind_ok ran
  cases ran
  exact ⟨entry, last, middle, later, visited, went, rfl⟩

theorem Level.observeSections {fixed : Dest → Prop} {parts : List (BoundedSection σ τ alike)}
    (among : ∀ part ∈ parts, ∀ dest, part.heeds dest → fixed dest) {left right : Session σ τ}
    (level : Level alike fixed left right)
    (ran : Switch.observeSections exits (parts.map (·.entered)) left = .ok (final, entries) after) :
    ∃ counterpart, Switch.observeSections exits (parts.map (·.entered)) right = .ok (final, entries) counterpart ∧
      Level alike fixed after counterpart := by
  induction parts generalizing exits left right entries with
  | nil =>
    cases ran
    exact ⟨right, rfl, level⟩
  | cons part rest ih =>
    obtain ⟨entry, last, middle, later, visited, went, rfl⟩ := exists_of_observeSections_cons ran
    obtain ⟨reached, followed, still⟩ := level.visit part (among part (List.mem_cons_self ..)) visited
    obtain ⟨counterpart, further, kept⟩ := ih (fun other member => among other (List.mem_cons_of_mem _ member)) still went
    exact ⟨counterpart, observeSections_cons followed further, kept⟩

theorem observeSections_permuted [LawfulMerge σ] (equivalence : Equivalence alike)
    {parts others : List (BoundedSection σ τ alike)} (permuted : parts.Perm others)
    (apart : parts.Pairwise BoundedSection.Apart)
    (ran : Switch.observeSections exits (parts.map (·.entered)) session = .ok (final, entries) after) :
    ∃ changed counterpart,
      Switch.observeSections exits (others.map (·.entered)) session = .ok (final, changed) counterpart ∧
        (parts.zip entries).Perm (others.zip changed) ∧ Level alike (fun _ => False) after counterpart := by
  induction permuted generalizing exits session entries after with
  | nil => exact ⟨entries, after, ran, .refl _, equivalence.refl _, fun _ never => never.elim, fun dest => .refl dest _⟩
  | cons part _ ih =>
    obtain ⟨entry, last, middle, later, visited, went, rfl⟩ := exists_of_observeSections_cons ran
    obtain ⟨changed, counterpart, followed, same, level⟩ := ih (List.pairwise_cons.mp apart).2 went
    exact ⟨entry :: changed, counterpart, observeSections_cons visited followed, same.cons (part, entry), level⟩
  | swap second first rest =>
    obtain ⟨neighbours, apart⟩ := List.pairwise_cons.mp apart
    obtain ⟨others, _⟩ := List.pairwise_cons.mp apart
    obtain ⟨entry, last, middle, _, visited, went, rfl⟩ := exists_of_observeSections_cons ran
    obtain ⟨reached, ending, behind, later, followed, continued, rfl⟩ := exists_of_observeSections_cons went
    obtain ⟨between, counterpart, early, late, level⟩ :=
      visit_exchange equivalence (neighbours second (List.mem_cons_self ..)) visited followed
    -- Neither of the two has touched what the sections behind them wait for.
    have among : ∀ part ∈ rest, ∀ dest, part.heeds dest → ¬first.touches dest ∧ ¬second.touches dest := by
      intro part member dest own
      have one := (neighbours part (List.mem_cons_of_mem _ member)).before dest own
      have two := (others part member).before dest own
      exact ⟨not_or.mpr one, not_or.mpr two⟩
    obtain ⟨finished, further, still⟩ := level.observeSections among continued
    rw [LawfulMerge.merge_assoc, LawfulMerge.merge_comm last, ← LawfulMerge.merge_assoc] at further
    refine ⟨reached :: entry :: later, finished, observeSections_cons early (observeSections_cons late further), ?_, ?_⟩
    · exact .swap (second, reached) (first, entry) (rest.zip later)
    · exact ⟨still.own, fun _ never => never.elim, still.traffic⟩
  | trans first _ ih further =>
    obtain ⟨changed, counterpart, followed, same, level⟩ := ih apart ran
    have still := first.pairwise apart BoundedSection.Apart.symm
    obtain ⟨again, reached, went, equal, near⟩ := further still followed
    refine ⟨again, reached, went, same.trans equal, equivalence.trans level.own near.own, fun _ never => never.elim, ?_⟩
    intro dest
    exact (level.traffic dest).trans (near.traffic dest)

end Lists

/-- The passes agree in all but the order of branches. -/
structure SameArrivals (left right : Pass σ) : Prop where
  state : left.state = right.state
  listed : ∀ dest, dest ∈ left.pending.dests ↔ dest ∈ right.pending.dests
  merged : ∀ dest, (left.pending.states dest).foldl merge unreachable = (right.pending.states dest).foldl merge unreachable
  resolved : ∀ dest, left.resolved dest = right.resolved dest

theorem foldl_merge_perm [LawfulMerge σ] {first second : List σ} (permuted : first.Perm second) (state : σ) :
    first.foldl merge state = second.foldl merge state := by
  apply permuted.foldl_eq'
  intro left _ right _ now
  rw [LawfulMerge.merge_assoc, LawfulMerge.merge_assoc, LawfulMerge.merge_comm left]

theorem sameArrivals_resolve [LawfulMerge σ] {left right : Pass σ} (traffic : ∀ dest, AlikeAt dest left right) (state : σ)
    (brk : Dest) : SameArrivals ((left.withState state).resolve brk).2 ((right.withState state).resolve brk).2 := by
  have near (dest : Dest) : AlikeAt dest ((left.withState state).resolve brk).2 ((right.withState state).resolve brk).2 :=
    (((traffic dest).withState state).symm.withState state).symm.call (.resolve brk)
  refine ⟨?_, fun dest => (near dest).listed, fun dest => ?_, fun dest => (near dest).resolved⟩
  · exact foldl_merge_perm (traffic brk).queued state
  · exact foldl_merge_perm (near dest).queued unreachable

theorem sendAll_permuted {labels others : List Dest} (permuted : labels.Perm others) (pass : Pass σ) (dest : Dest) :
    (pass.sendAll labels).pending.states dest = (pass.sendAll others).pending.states dest ∧
      AlikeAt dest (pass.sendAll labels) (pass.sendAll others) := by
  have same : (pass.sendAll labels).pending.states dest = (pass.sendAll others).pending.states dest := by
    rw [states_sendAll, states_sendAll, permuted.count_eq]
  refine ⟨same, by rw [same], ?_, by rw [resolved_sendAll, resolved_sendAll]⟩
  rw [mem_dests_sendAll, mem_dests_sendAll, permuted.mem_iff]

namespace AnySwitch

def withSections (sections : List (Section σ τ)) : AnySwitch σ τ ε ν → AnySwitch σ τ ε ν
  | jump switch => jump { switch with sections }
  | tree matcher switch => tree matcher { switch with sections }

def Untargeted : AnySwitch σ τ ε ν → Prop
  | jump switch => switch.target = none
  | tree _ _ => True

omit [StateAlgebra σ] in
theorem sections_withSections (switch : AnySwitch σ τ ε ν) (sections : List (Section σ τ)) :
    (switch.withSections sections).sections = sections := by
  cases switch <;> rfl

omit [StateAlgebra σ] in
theorem brk_withSections (switch : AnySwitch σ τ ε ν) (sections : List (Section σ τ)) :
    (switch.withSections sections).brk = switch.brk := by
  cases switch <;> rfl

theorem header_permuted [TransparentClone σ] (equivalence : Equivalence alike) {switch : AnySwitch σ τ ε ν}
    (untargeted : switch.Untargeted) {sections others : List (Section σ τ)} (permuted : sections.Perm others)
    (present : ∀ entered ∈ sections, none ∉ entered.labels) {passing : σ} {session middle : Session σ τ}
    (ran : (switch.withSections sections).header session = .ok passing middle) :
    ∃ counterpart, (switch.withSections others).header session = .ok passing counterpart ∧
      Level alike (fun _ => True) middle counterpart := by
  cases switch with
  | tree matcher switch => exact ⟨middle, ran, equivalence.refl _, fun _ _ => rfl, fun dest => .refl dest _⟩
  | jump switch =>
    obtain ⟨scrutinee, _, brk, target⟩ := switch
    cases (untargeted : target = none)
    have labels : (sections.flatMap (·.labels)).Perm (others.flatMap (·.labels)) := permuted.flatMap_right _
    have named : none ∉ sections.flatMap (·.labels) := by
      intro missing
      obtain ⟨entered, member, missing⟩ := List.mem_flatMap.mp missing
      exact present entered member missing
    cases evaluated : scrutinee session with
    | error fault after =>
      have stopped : (jump ⟨scrutinee, sections, brk, none⟩ : AnySwitch σ τ ε ν).header session = .error fault after :=
        Analysis.bind_error evaluated
      cases ran.symm.trans stopped
    | ok _ after =>
      have began : (jump ⟨scrutinee, sections, brk, none⟩ : AnySwitch σ τ ε ν).header session = _ :=
        jumpHeader_eq ⟨scrutinee, sections, brk, none⟩ named evaluated
      have other : (jump ⟨scrutinee, others, brk, none⟩ : AnySwitch σ τ ε ν).header session = _ :=
        jumpHeader_eq ⟨scrutinee, others, brk, none⟩ (mt labels.mem_iff.mpr named) evaluated
      have covered : JumpSwitch.passing ⟨scrutinee, sections, brk, none⟩ after.pass.state =
          JumpSwitch.passing ⟨scrutinee, others, brk, none⟩ after.pass.state :=
        congrArg (fun covers : Bool => if covers then unreachable else after.pass.state) labels.any_eq
      cases ran.symm.trans began
      rw [covered]
      refine ⟨_, other, equivalence.refl _, ?_, ?_⟩
      · intro dest _
        exact (sendAll_permuted labels after.pass dest).1
      · intro dest
        have near := (sendAll_permuted labels after.pass dest).2
        exact ((near.withState unreachable).symm.withState unreachable).symm

end AnySwitch

/-- Sections that do not wait for one another's branches, under labels of their own that no body uses, may stand
in any order: each is entered in the same state, and what is left behind the switch is the same. -/
theorem sections_in_any_order [TransparentClone σ] [LawfulMerge σ] (equivalence : Equivalence alike)
    (switch : AnySwitch σ τ ε ν) (untargeted : switch.Untargeted) {parts others : List (BoundedSection σ τ alike)}
    (permuted : parts.Perm others) (present : ∀ part ∈ parts, none ∉ part.entered.labels)
    (disjoint : parts.Pairwise fun first second => ∀ dest ∈ first.entered.labels, dest ∉ second.entered.labels)
    (unused : ∀ part ∈ parts, ∀ other ∈ parts, ∀ dest ∈ other.entered.labels, ¬part.records dest ∧ ¬part.resolves dest)
    (apart : parts.Pairwise fun first second =>
      (∀ dest, first.resolves dest → ¬second.records dest ∧ ¬second.resolves dest) ∧
        ∀ dest, second.resolves dest → ¬first.records dest ∧ ¬first.resolves dest)
    {session after : Session σ τ} (ran : (switch.withSections (parts.map (·.entered))).run session = .ok () after) :
    ∃ entries changed counterpart,
      (switch.withSections (parts.map (·.entered))).observe session = .ok entries after ∧
        (switch.withSections (others.map (·.entered))).run session = .ok () counterpart ∧
        (switch.withSections (others.map (·.entered))).observe session = .ok changed counterpart ∧
        (parts.zip entries).Perm (others.zip changed) ∧ SameArrivals after.pass counterpart.pass := by
  have separate : parts.Pairwise BoundedSection.Apart := BoundedSection.pairwise_apart disjoint unused apart
  have named : ∀ entered ∈ parts.map (·.entered), none ∉ entered.labels := List.forall_mem_map.mpr present
  rw [AnySwitch.run_eq_observe, map_eq_pure_bind] at ran
  obtain ⟨entries, _, observed, ran⟩ := Analysis.exists_of_bind_ok ran
  cases ran
  obtain ⟨passing, middle, began, rest⟩ := Analysis.exists_of_bind_ok observed
  obtain ⟨⟨exits, _⟩, left, went, rest⟩ := Analysis.exists_of_bind_ok rest
  cases rest
  rw [AnySwitch.sections_withSections] at went
  obtain ⟨start, headed, level⟩ := AnySwitch.header_permuted equivalence untargeted (permuted.map _) named began
  -- First the sections are exchanged behind the one header, then they are moved behind the other.
  obtain ⟨changed, exchanged, followed, same, near⟩ := observeSections_permuted equivalence permuted separate went
  obtain ⟨right, moved, still⟩ := level.observeSections (fun _ _ _ _ => trivial) followed
  have counterpart : (switch.withSections (others.map (·.entered))).observe session =
      .ok changed ⟨((right.pass.withState (merge passing exits)).resolve switch.brk).2, right.own⟩ := by
    rw [AnySwitch.observe, AnySwitch.sections_withSections, AnySwitch.brk_withSections, Analysis.bind_ok headed,
      Analysis.bind_ok moved]
    rfl
  refine ⟨entries, changed, _, observed, ?_, counterpart, same, ?_⟩
  · rw [AnySwitch.run_eq_observe, map_eq_pure_bind, Analysis.bind_ok counterpart]
    rfl
  · rw [AnySwitch.brk_withSections]
    exact sameArrivals_resolve (fun dest => (near.traffic dest).trans (still.traffic dest)) (merge passing exits) switch.brk

end Orders

namespace Script

variable [Domain σ]

/-- A section of a script keeps to the destinations that its body names. -/
def bounded (hooks : Hooks) (script : List Dest × List (Stmt σ)) :
    BoundedSection σ (List (Event σ)) fun _ _ => True where
  entered := ⟨script.1, do observeEntry hooks script.1; runAll hooks script.2⟩
  records := (· ∈ recordsAll script.2)
  resolves := (· ∈ resolvesAll script.2)
  inStep := by
    let sim : ScriptSimulation σ σ := scriptWithin (· ∈ recordsAll script.2) (· ∈ resolvesAll script.2)
    apply Simulation.InStep.bind (observeEntry_inStep sim hooks script.1)
    intro _ _ _
    exact runAll_inStep sim hooks script.2 (likeAll_self (fun _ => rfl) _) (fun _ member => member) fun _ member => member
  notes _ _ _ := trivial

theorem prepare_eq (hooks : Hooks) (sections : List (List Dest × List (Stmt σ))) :
    prepare hooks sections = (sections.map (bounded hooks)).map (·.entered) := by
  induction sections with
  | nil => rfl
  | cons first rest ih => rw [prepare, ih]; rfl

/-- Sections with a jump behind the switch, with a switch of their own, and with branches for elsewhere. -/
def scattered : List (List Dest × List (Stmt (May String))) :=
  [([place 1], [.fact "first", .branch (place 9), .jump (place 4)]),
    ([place 2], [.jumpSwitch none [([place 5], [.jump (place 6)])] (place 6) none, .resolve (place 7), .branch (place 9)]),
    ([place 3, some ⟨8, .default, ""⟩], [.fact "third", .branch (place 9)])]

def scatteredSwitch : AnySwitch (May String) (List (Event (May String))) Expr String :=
  .jump ⟨evalScrutinee (some ⟨"x", .fact⟩), [], place 4, none⟩

theorem scattered_reversed : ∃ after entries changed counterpart,
    (scatteredSwitch.withSections (prepare ⟨true, true⟩ scattered)).run opening = .ok () after ∧
      (scatteredSwitch.withSections (prepare ⟨true, true⟩ scattered)).observe opening = .ok entries after ∧
      (scatteredSwitch.withSections (prepare ⟨true, true⟩ scattered.reverse)).observe opening = .ok changed counterpart ∧
      ((scattered.map (bounded ⟨true, true⟩)).zip entries).Perm
        ((scattered.reverse.map (bounded ⟨true, true⟩)).zip changed) ∧
      SameArrivals after.pass counterpart.pass := by
  let hooks : Hooks := ⟨true, true⟩
  have ends : (scatteredSwitch.withSections (prepare hooks scattered)).run.run' opening = some () := by decide +kernel
  obtain ⟨after, ran⟩ := Analysis.exists_of_run' ends
  have unused : ∀ script ∈ scattered, ∀ other ∈ scattered, ∀ dest ∈ other.1,
      dest ∉ recordsAll script.2 ∧ dest ∉ resolvesAll script.2 := by decide
  have disjoint : scattered.Pairwise fun first second => ∀ dest ∈ first.1, dest ∉ second.1 := by decide
  have apart : scattered.Pairwise fun first second =>
      (∀ dest ∈ resolvesAll first.2, dest ∉ recordsAll second.2 ∧ dest ∉ resolvesAll second.2) ∧
        ∀ dest ∈ resolvesAll second.2, dest ∉ recordsAll first.2 ∧ dest ∉ resolvesAll first.2 := by decide
  have present : ∀ script ∈ scattered, none ∉ script.1 := by decide
  rw [prepare_eq] at ran ⊢
  rw [prepare_eq]
  obtain ⟨entries, changed, counterpart, observed, _, backwards, same, arrived⟩ :=
    sections_in_any_order ⟨fun _ => trivial, fun _ => trivial, fun _ _ => trivial⟩ scatteredSwitch rfl
      ((List.reverse_perm scattered).symm.map (bounded hooks)) (List.forall_mem_map.mpr present)
      (List.pairwise_map.mpr disjoint)
      (List.forall_mem_map.mpr fun script member => List.forall_mem_map.mpr (unused script member))
      (List.pairwise_map.mpr apart) ran
  exact ⟨after, entries, changed, counterpart, ran, observed, backwards, same, arrived⟩

end Script

end ClauseReach
