import ClauseReach.Proofs.FunctionWalk
import ClauseReach.Proofs.SwitchVisits

/-!
What every walk keeps. A walk is made of a few operations on the pass and on the walker's own data, and it uses them
with labels that are new, that belong to the statements around it or that are written in the program. A property
that these operations keep lasts from the beginning of a walk to its end, and to any fault in between.
-/

namespace ClauseReach.Checker

open Source StateAlgebra

/-- The label was made while the serial number rose from `bound` to `limit`. -/
structure Made (bound limit : Nat) (label : Label) : Prop where
  kind : label.kind ≠ .user
  above : bound ≤ label.serial
  below : label.serial < limit

theorem Made.mono {bound limit later : Nat} {label : Label} (made : Made bound limit label) (grows : limit ≤ later) :
    Made bound later label :=
  ⟨made.kind, made.above, Nat.lt_of_lt_of_le made.below grows⟩

/-- Where branches go: to a label that has been made, to one of the statements around, to a label of the program that
a `goto` may name, or nowhere. -/
inductive Destined (bound : Nat) (admits : Mark → Prop) (walker : Walker) : Dest → Prop where
  | nowhere : Destined bound admits walker none
  | made {label : Label} (made : Made bound walker.serial label) : Destined bound admits walker (some label)
  | around {frame : Frame} {label : Label} (inside : frame ∈ walker.frames) (own : label ∈ frame.labels) :
      Destined bound admits walker (some label)
  | named {name : String} (admitted : admits (.goto name)) : Destined bound admits walker (placeOf name)

/-- A property of sessions that lasts while labels are made from `bound` on and the walk passes no marks but those
admitted. It may ask something of the current state, and then all states at hand have to be fit for it. -/
structure Invariant where
  bound : Nat
  admits : Mark → Prop
  fits : Assigned → Prop
  holds : Session Assigned Walker → Prop
  above : ∀ {session}, holds session → bound ≤ session.own.serial
  unreachable : fits unreachable
  merge : ∀ {left right}, fits left → fits right → fits (merge left right)
  assign : ∀ {state} objects, fits state → fits (state.assign objects)
  current : ∀ {session}, holds session → fits session.pass.state
  setCurrent : ∀ {session state}, holds session → fits state → holds ⟨session.pass.withState state, session.own⟩
  record : ∀ {session dest state}, holds session → fits state → Destined bound admits session.own dest →
    holds ⟨session.pass.record dest state, session.own⟩
  resolve : ∀ {session label}, holds session →
    (Made bound session.own.serial label ∨ ∃ name, label = namedLabel name ∧ admits (.label name)) →
    holds ⟨(session.pass.resolve (some label)).2, session.own⟩
  own : ∀ {session walker}, holds session → session.own.serial ≤ walker.serial →
    (∀ frame ∈ walker.frames, ∀ label ∈ frame.labels,
      (∃ other ∈ session.own.frames, label ∈ other.labels) ∨ Made bound walker.serial label) →
    holds ⟨session.pass, walker⟩

/-- The invariant holds where the computation ends, in order or with a fault, and the result satisfies `post`. -/
def Keeps {α : Type} (inv : Invariant) (session : Session Assigned Walker) (act : CheckM α) (post : α → Prop) : Prop :=
  (∀ value after, act session = .ok value after →
    inv.holds after ∧ session.own.serial ≤ after.own.serial ∧ post value) ∧
  ∀ fault after, act session = .error fault after → inv.holds after

/-- The invariant lasts from where the serial number is at least `least`. -/
def Lasts {α : Type} (inv : Invariant) (least : Nat) (act : CheckM α) (post : α → Prop) : Prop :=
  ∀ session, inv.holds session → least ≤ session.own.serial → Keeps inv session act post

section Rules

variable {α β : Type} {inv : Invariant} {least : Nat} {act : CheckM α} {next : α → CheckM β} {post : α → Prop}
  {last : β → Prop}

namespace Keeps

variable {session after : Session Assigned Walker}

theorem of_ok {value : α} (ended : act session = .ok value after) (holds : inv.holds after)
    (grown : session.own.serial ≤ after.own.serial) (given : post value) : Keeps inv session act post := by
  constructor
  · intro other later same
    cases ended.symm.trans same
    exact ⟨holds, grown, given⟩
  · intro fault later failed
    cases ended.symm.trans failed

theorem of_error {fault : Fault} (failed : act session = .error fault after) (holds : inv.holds after) :
    Keeps inv session act post := by
  constructor
  · intro value later ended
    cases failed.symm.trans ended
  · intro other later same
    cases failed.symm.trans same
    exact holds

end Keeps

namespace Lasts

theorem of_ok (ends : ∀ session, inv.holds session → least ≤ session.own.serial →
    ∃ value after, act session = .ok value after ∧ inv.holds after ∧
      session.own.serial ≤ after.own.serial ∧ post value) : Lasts inv least act post := by
  intro session holds enough
  obtain ⟨value, after, ended, kept, grown, given⟩ := ends session holds enough
  exact .of_ok ended kept grown given

theorem bind (first : Lasts inv least act post) (rest : ∀ value, post value → Lasts inv least (next value) last) :
    Lasts inv least (act >>= next) last := by
  intro session holds enough
  obtain ⟨went, failed⟩ := first session holds enough
  cases began : act session with
  | ok value middle =>
    obtain ⟨kept, grown, given⟩ := went value middle began
    obtain ⟨further, faulted⟩ := rest value given middle kept (enough.trans grown)
    rw [Keeps, Analysis.bind_ok began]
    refine ⟨fun result after ended => ?_, faulted⟩
    obtain ⟨still, later, reached⟩ := further result after ended
    exact ⟨still, grown.trans later, reached⟩
  | error fault middle => exact .of_error (Analysis.bind_error began) (failed fault middle began)

theorem pure {value : α} (given : post value) : Lasts inv least (pure value) post :=
  of_ok fun session holds _ => ⟨value, session, rfl, holds, Nat.le_refl _, given⟩

theorem fault (fault : Fault) : Lasts inv least (throw fault : CheckM α) post :=
  fun _ holds _ => .of_error rfl holds

/-- Where the value does not matter. -/
theorem andThen (first : Lasts inv least act fun _ => True) (rest : ∀ value, Lasts inv least (next value) last) :
    Lasts inv least (act >>= next) last :=
  first.bind fun value _ => rest value

end Lasts

/-! Operations. -/

theorem lasts_current : Lasts inv least Analysis.current inv.fits :=
  .of_ok fun session holds _ => ⟨_, session, rfl, holds, Nat.le_refl _, inv.current holds⟩

theorem lasts_setCurrent {state : Assigned} (fit : inv.fits state) :
    Lasts inv least (Analysis.setCurrent state) fun _ => True :=
  .of_ok fun _ holds _ => ⟨(), _, rfl, inv.setCurrent holds fit, Nat.le_refl _, trivial⟩

theorem lasts_setUnreachable : Lasts inv least Analysis.setUnreachable fun _ => True :=
  lasts_setCurrent inv.unreachable

theorem lasts_join {state : Assigned} (fit : inv.fits state) : Lasts inv least (Analysis.join state) fun _ => True :=
  .of_ok fun _ holds _ =>
    ⟨(), _, rfl, inv.setCurrent holds (inv.merge (inv.current holds) fit), Nat.le_refl _, trivial⟩

theorem lasts_record {label : Label} {state : Assigned} (made : Made inv.bound least label) (fit : inv.fits state) :
    Lasts inv least (Analysis.record (some label) state) fun _ => True :=
  .of_ok fun _ holds enough =>
    ⟨(), _, rfl, inv.record holds fit (.made (made.mono enough)), Nat.le_refl _, trivial⟩

theorem lasts_branch {label : Label} (made : Made inv.bound least label) :
    Lasts inv least (Analysis.branch (some label)) fun _ => True :=
  .of_ok fun _ holds enough =>
    ⟨(), _, rfl, inv.record holds (inv.current holds) (.made (made.mono enough)), Nat.le_refl _, trivial⟩

theorem lasts_resolve {label : Label} (made : Made inv.bound least label) :
    Lasts inv least (Analysis.resolve (some label)) fun _ => True :=
  .of_ok fun _ holds enough => ⟨_, _, rfl, inv.resolve holds (.inl (made.mono enough)), Nat.le_refl _, trivial⟩

theorem lasts_meet {name : String} (admitted : inv.admits (.label name)) :
    Lasts inv least (Analysis.resolve (some (namedLabel name))) fun _ => True :=
  .of_ok fun _ holds _ => ⟨_, _, rfl, inv.resolve holds (.inr ⟨name, rfl, admitted⟩), Nat.le_refl _, trivial⟩

theorem lasts_resolveAll {labels : List Label} (made : ∀ label ∈ labels, Made inv.bound least label) :
    Lasts inv least (Analysis.resolveAll (labels.map some)) fun _ => True := by
  induction labels with
  | nil => exact .pure trivial
  | cons label rest ih =>
    rw [List.forall_mem_cons] at made
    exact (lasts_resolve made.1).andThen fun _ => ih made.2

/-- The walker's data change, but the labels around stay. -/
theorem lasts_modifyOwn {change : Walker → Walker} (serial : ∀ walker, (change walker).serial = walker.serial)
    (frames : ∀ walker, (change walker).frames = walker.frames) :
    Lasts inv least (Analysis.modifyOwn change) fun _ => True := by
  refine .of_ok fun session holds _ => ⟨(), _, rfl, ?_, (serial session.own).ge, trivial⟩
  refine inv.own holds (serial session.own).ge fun frame inside label own => .inl ⟨frame, ?_, own⟩
  rwa [frames] at inside

theorem lasts_attach (label : String) : Lasts inv least (attach label) fun _ => True :=
  lasts_modifyOwn (fun _ => rfl) fun _ => rfl

theorem lasts_detachLabel : Lasts inv least detachLabel fun _ => True :=
  .of_ok fun _ holds _ =>
    ⟨_, _, rfl, inv.own holds (Nat.le_refl _) fun frame inside _ own => .inl ⟨frame, inside, own⟩, Nat.le_refl _,
      trivial⟩

/-- Labels with the numbers reserved are new. -/
theorem lasts_reserve {count : Nat} {next : Nat → CheckM β}
    (rest : ∀ first, inv.bound ≤ first → Lasts inv (first + count) (next first) last) :
    Lasts inv least (reserve count >>= next) last := by
  intro session holds _
  obtain ⟨reserved, same⟩ : ∃ reserved : Session Assigned Walker,
      reserved = ⟨session.pass, { session.own with serial := session.own.serial + count }⟩ := ⟨_, rfl⟩
  have kept : inv.holds reserved := by
    rw [same]
    exact inv.own holds (Nat.le_add_right ..) fun frame inside _ own => .inl ⟨frame, inside, own⟩
  have numbered : reserved.own.serial = session.own.serial + count := by rw [same]
  have ran : (reserve count >>= next) session = next session.own.serial reserved := by
    rw [same]
    rfl
  obtain ⟨went, failed⟩ := rest session.own.serial (inv.above holds) reserved kept numbered.ge
  rw [Keeps, ran]
  refine ⟨fun value after ended => ?_, failed⟩
  obtain ⟨further, grown, given⟩ := went value after ended
  exact ⟨further, by omega, given⟩

theorem lasts_push {frame : Frame} (made : ∀ label ∈ frame.labels, Made inv.bound least label) :
    Lasts inv least (push frame) fun _ => True := by
  refine .of_ok fun session holds enough => ⟨(), _, rfl, inv.own holds (Nat.le_refl _) ?_, Nat.le_refl _, trivial⟩
  intro other inside label own
  rcases List.mem_cons.mp inside with rfl | outer
  · exact .inr ((made label own).mono enough)
  · exact .inl ⟨other, outer, own⟩

/-- What is done in an enclosing statement; outside of all of them it is a fault. -/
theorem lasts_inside {act : CheckM Unit}
    (alone : ∀ session, session.own.frames = [] → ∃ fault, act session = .error fault session)
    (ends : ∀ session frame outer, session.own.frames = frame :: outer →
      ∃ walker, act session = .ok () ⟨session.pass, walker⟩ ∧ walker.serial = session.own.serial ∧
        ∀ other ∈ walker.frames, other ∈ outer ∨ other.labels = frame.labels) :
    Lasts inv least act fun _ => True := by
  intro session holds enough
  cases around : session.own.frames with
  | nil =>
    obtain ⟨fault, failed⟩ := alone session around
    exact .of_error failed holds
  | cons frame outer =>
    obtain ⟨walker, ended, serial, kept⟩ := ends session frame outer around
    refine .of_ok ended (inv.own holds serial.ge ?_) serial.ge trivial
    intro other inside label own
    left
    rw [around]
    rcases kept other inside with old | same
    · exact ⟨other, List.mem_cons_of_mem _ old, own⟩
    · exact ⟨frame, List.mem_cons_self .., same ▸ own⟩

theorem frames_nil {session : Session Assigned Walker} {next : List Frame → CheckM Unit}
    (around : session.own.frames = []) : (frames >>= next) session = next [] session := by
  have looked : frames session = .ok [] session := around ▸ rfl
  exact Analysis.bind_ok looked

theorem lasts_pop : Lasts inv least pop fun _ => True := by
  apply lasts_inside
  · exact fun session around => ⟨_, frames_nil around⟩
  · exact fun session frame outer around => ⟨_, pop_eq around, rfl, fun other inside => .inl inside⟩

theorem lasts_arrive (index : Nat) (clause : CaseClause) : Lasts inv least (arrive index clause) fun _ => True := by
  apply lasts_inside
  · intro session around
    have state : Analysis.current session = .ok session.pass.state session := rfl
    exact ⟨_, (Analysis.bind_ok state).trans (frames_nil around)⟩
  · intro session frame outer around
    refine ⟨_, arrive_eq index clause around, rfl, fun other inside => ?_⟩
    rcases List.mem_cons.mp inside with rfl | old
    · exact .inr rfl
    · exact .inl old

theorem lasts_within {frame : Frame} {body : CheckM Unit} (made : ∀ label ∈ frame.labels, Made inv.bound least label)
    (inside : Lasts inv least body fun _ => True) : Lasts inv least (within frame body) fun _ => True :=
  (lasts_push made).andThen fun _ => inside.andThen fun _ => lasts_pop

end Rules

/-! Statements. -/

/-- The invariant lasts through the walk of a statement or of a part of one. -/
abbrev Lasting (inv : Invariant) (act : CheckM Unit) : Prop := ∀ least, Lasts inv least act fun _ => True

section Statements

variable {inv : Invariant} {info : Info} {init body second : CheckM Unit} {least : Nat}

theorem Invariant.split (inv : Invariant) {state : Assigned} (fit : inv.fits state) (condition : Expr) :
    inv.fits (condition.split state).1 ∧ inv.fits (condition.split state).2 := by
  fun_induction Expr.split state condition with
  | case1 => exact ⟨fit, inv.unreachable⟩
  | case2 => exact ⟨inv.unreachable, fit⟩
  | case3 state fact inner notTrue notFalse ih => exact ih fit
  | case4 state fact operand notTrue notFalse ih => exact (ih fit).symm
  | case5 state fact left right first second notTrue notFalse ihLeft ihRight =>
    obtain ⟨holds, fails⟩ := ihLeft fit
    obtain ⟨bothHold, secondFails⟩ := ihRight holds
    exact ⟨bothHold, inv.merge fails secondFails⟩
  | case6 state fact left right first second notTrue notFalse ihLeft ihRight =>
    obtain ⟨holds, fails⟩ := ihLeft fit
    obtain ⟨secondHolds, bothFail⟩ := ihRight fails
    exact ⟨inv.merge holds secondHolds, bothFail⟩
  | case7 => exact ⟨fit, fit⟩

theorem lasting_assign (target : Expr) : Lasting inv (assign info target) := by
  intro least
  unfold assign
  split
  · exact lasts_current.bind fun state fit => lasts_setCurrent (inv.assign _ fit)
  · exact .pure trivial

theorem lasting_assignAll (targets : List Expr) : Lasting inv (assignAll info targets) := by
  intro least
  induction targets with
  | nil => exact .pure trivial
  | cons target rest ih => exact (lasting_assign target least).andThen fun _ => ih

theorem lasting_declareAll (specs : List Spec) : Lasting inv (declareAll info specs) := by
  intro least
  induction specs with
  | nil => exact .pure trivial
  | cons spec rest ih =>
    cases spec with
    | type => exact .fault _
    | values names initial =>
      cases initial with
      | nil => exact ih
      | cons value others => exact (lasting_assignAll names least).andThen fun _ => ih

theorem lasting_evaluate (expr : Expr) : Lasting inv (evaluate info expr) := by
  intro least
  unfold evaluate
  split
  · exact lasts_setUnreachable
  · exact .pure trivial

/-- What a jump does: it may send a branch to its target, and control does not pass it. -/
theorem jump_cases (jump : Jump) (session : Session Assigned Walker) :
    (∃ fault, Checker.jump jump session = .error fault session) ∨
    Checker.jump jump session = .ok () ⟨session.pass.withState unreachable, session.own⟩ ∨
    Checker.jump jump session =
      .ok () ⟨(session.pass.branch (target session.own.frames jump)).withState unreachable, session.own⟩ := by
  have looked : frames session = .ok session.own.frames session := rfl
  cases jump with
  | «break» label =>
    rw [target]
    cases found : breakFrame? label session.own.frames with
    | none => exact .inr (.inl ((Analysis.bind_ok looked).trans (by rw [found]; rfl)))
    | some frame => exact .inr (.inr ((Analysis.bind_ok looked).trans (by rw [found]; rfl)))
  | «continue» label =>
    rw [target]
    cases found : continueFrame? label session.own.frames with
    | none => exact .inr (.inl ((Analysis.bind_ok looked).trans (by rw [found]; rfl)))
    | some frame => exact .inr (.inr ((Analysis.bind_ok looked).trans (by rw [found]; rfl)))
  | goto label =>
    cases label with
    | none => exact .inl ⟨_, rfl⟩
    | some name => exact .inr (.inr rfl)
  | «fallthrough» =>
    rw [target]
    cases found : nextSection? session.own.frames with
    | none => exact .inr (.inl ((Analysis.bind_ok looked).trans (by rw [found]; rfl)))
    | some labels =>
      cases labels with
      | nil => exact .inl ⟨_, (Analysis.bind_ok looked).trans (by rw [found]; rfl)⟩
      | cons label rest => exact .inr (.inr ((Analysis.bind_ok looked).trans (by rw [found]; rfl)))
  | other => exact .inr (.inl rfl)

theorem destined_target {jump : Jump} {bound : Nat} {admits : Mark → Prop} {walker : Walker}
    (admitted : ∀ mark ∈ jump.marks, admits mark) : Destined bound admits walker (target walker.frames jump) := by
  cases found : target walker.frames jump with
  | none => exact .nowhere
  | some label =>
    rcases target_eq_some found with ⟨name, same, named⟩ | ⟨frame, inside, own⟩
    · subst same
      rw [named]
      exact .named (admitted _ (List.mem_singleton_self _))
    · exact .around inside own

theorem lasting_jump {jump : Jump} (admitted : ∀ mark ∈ jump.marks, inv.admits mark) :
    Lasting inv (Checker.jump jump) := by
  intro least session holds _
  have gone {pass : Pass Assigned} (kept : inv.holds ⟨pass, session.own⟩) :
      inv.holds ⟨pass.withState unreachable, session.own⟩ := inv.setCurrent kept inv.unreachable
  rcases jump_cases jump session with ⟨fault, failed⟩ | stays | sends
  · exact .of_error failed holds
  · exact .of_ok stays (gone holds) (Nat.le_refl _) trivial
  · have sent := inv.record holds (inv.current holds) (destined_target admitted)
    exact .of_ok sends (gone sent) (Nat.le_refl _) trivial

theorem lasting_labeled {label : String} (named : Bool) (admitted : inv.admits (.label label))
    (inside : Lasting inv body) : Lasting inv (labeled label named body) := by
  intro least
  refine (lasts_meet admitted).andThen fun _ => ?_
  cases named with
  | false => exact inside least
  | true => exact (lasts_attach label).andThen fun _ => inside least

theorem lasting_andThen (first : Lasting inv init) (rest : Lasting inv body) :
    Lasting inv (init >>= fun _ => body) :=
  fun least => (first least).andThen fun _ => rest least

theorem lasting_choose (condition : Expr) (whenTrue : Lasting inv body) (whenFalse : Lasting inv second) :
    Lasting inv (choose condition body second) := by
  intro least
  refine lasts_current.bind fun state fit => (lasts_setCurrent (inv.split fit condition).1).andThen fun _ => ?_
  refine (whenTrue least).andThen fun _ => lasts_current.bind fun kept keptFit => ?_
  refine (lasts_setCurrent (inv.split fit condition).2).andThen fun _ => (whenFalse least).andThen fun _ => ?_
  exact lasts_join keptFit

/-- The way out of a statement. -/
theorem lasts_end {label : Label} {state : Assigned} (made : Made inv.bound least label) (fit : inv.fits state) :
    Lasts inv least (do Analysis.setCurrent state; let _ ← Analysis.resolve (some label)) fun _ => True :=
  (lasts_setCurrent fit).andThen fun _ => (lasts_resolve made).andThen fun _ => .pure trivial

/-! Loops and selects. -/

theorem newLoop_made {serial : Nat} {name : String} (above : inv.bound ≤ serial) :
    ∀ label ∈ (newLoop serial name).labels, Made inv.bound (serial + 2) label := by
  intro label own
  obtain ⟨kind, first, below⟩ := (newLoop_new serial name).reserved label own
  exact ⟨kind, above.trans first, below⟩

theorem lasts_loopFrame {β : Type} {name : String} {next : Frame → CheckM β} {last : β → Prop}
    (rest : ∀ serial, inv.bound ≤ serial → Lasts inv (serial + 2) (next (newLoop serial name)) last) :
    Lasts inv least (loopFrame name >>= next) last := by
  have unfolded : loopFrame name >>= next = reserve 2 >>= fun serial => next (newLoop serial name) := by
    simp only [loopFrame, bind_assoc, pure_bind]
    rfl
  rw [unfolded]
  exact lasts_reserve rest

/-- The state that flows back to the head is fit, as all states in the loop are. -/
theorem lasts_backEdge {serial : Nat} {name : String} (above : inv.bound ≤ serial) (inside : Lasting inv body)
    (last : Lasting inv second) :
    Lasts inv (serial + 2) (backEdge (newLoop serial name) body second) inv.fits := by
  have made := @newLoop_made inv serial name above
  refine (lasts_within made (inside _)).andThen fun _ => ?_
  refine (lasts_resolve (made _ ?_)).andThen fun _ => (last _).andThen fun _ => lasts_current
  simp [newLoop, Frame.labels]

theorem lasts_rounds {serial : Nat} {name : String} (above : inv.bound ≤ serial) (inside : Lasting inv body)
    (last : Lasting inv second) {state : Assigned} (fit : inv.fits state) :
    Lasts inv (serial + 2) (do
      let _ ← backEdge (newLoop serial name) body second
      Analysis.setCurrent state
      let _ ← Analysis.resolve (some (newLoop serial name).brk)) fun _ => True :=
  (lasts_backEdge above inside last).bind fun _ _ =>
    lasts_end (newLoop_made above _ (List.mem_cons_self ..)) fit

/-- Both outcomes of the condition of a loop; without one, the loop goes on. -/
theorem Invariant.split_option (inv : Invariant) {entry : Assigned} (fit : inv.fits entry) (condition : Option Expr) :
    inv.fits (match condition with
      | some condition => condition.split entry
      | none => (entry, StateAlgebra.unreachable)).1 ∧
    inv.fits (match condition with
      | some condition => condition.split entry
      | none => (entry, StateAlgebra.unreachable)).2 := by
  cases condition with
  | none => exact ⟨fit, inv.unreachable⟩
  | some condition => exact inv.split fit condition

theorem lasting_loop (condition : Option Expr) (initial : Lasting inv init) (inside : Lasting inv body)
    (last : Lasting inv second) : Lasting inv (loop init condition body second) := by
  intro least
  refine lasts_detachLabel.andThen fun name => (initial least).andThen fun _ => lasts_loopFrame fun serial above => ?_
  refine lasts_current.bind fun entry fit => ?_
  obtain ⟨holds, fails⟩ := inv.split_option fit condition
  exact (lasts_setCurrent holds).andThen fun _ => lasts_rounds above inside last fails

theorem lasting_range (targets : Lasting inv init) (inside : Lasting inv body) : Lasting inv (range init body) := by
  intro least
  refine lasts_detachLabel.andThen fun name => lasts_current.bind fun entry fit => ?_
  refine lasts_loopFrame fun serial above => (targets _).andThen fun _ => ?_
  exact lasts_rounds above inside (fun _ => .pure trivial) fit

theorem lasts_alternatives {acts : List (CheckM Unit)} (each : ∀ act ∈ acts, Lasting inv act) {entry exits : Assigned}
    (fit : inv.fits entry) (fitExits : inv.fits exits) : Lasts inv least (alternatives entry exits acts) inv.fits := by
  induction acts generalizing exits with
  | nil => exact .pure fitExits
  | cons act rest ih =>
    rw [List.forall_mem_cons] at each
    refine (lasts_setCurrent fit).andThen fun _ => (each.1 least).andThen fun _ => ?_
    exact lasts_current.bind fun state fitState => ih each.2 (inv.merge fitExits fitState)

theorem lasting_select {acts : List (CheckM Unit)} (each : ∀ act ∈ acts, Lasting inv act) :
    Lasting inv (select acts) := by
  intro least
  refine lasts_detachLabel.andThen fun name => lasts_reserve fun serial above => ?_
  refine lasts_current.bind fun entry fit => ?_
  have made : Made inv.bound (serial + 1) ⟨serial, .break, name⟩ := ⟨by simp, above, Nat.lt_succ_self serial⟩
  have own : ∀ label ∈ Frame.labels { label := name, brk := ⟨serial, .break, name⟩ },
      Made inv.bound (serial + 1) label :=
    List.forall_mem_singleton.mpr made
  refine (lasts_push own).andThen fun _ => ?_
  refine (lasts_alternatives each fit inv.unreachable).bind fun exits fitExits => lasts_pop.andThen fun _ => ?_
  exact lasts_end made fitExits

/-! Switches. -/

variable {entrances : List Entrance} {bodies : List (CheckM Unit)} {brk : Label}

theorem lasts_runSections {sections : List (Section Assigned Walker)}
    (parts : ∀ entered ∈ sections, ∃ labels, entered.labels = List.map some labels ∧
      (∀ label ∈ labels, Made inv.bound least label) ∧ Lasts inv least entered.body fun _ => True)
    {exits : Assigned} (fit : inv.fits exits) : Lasts inv least (Switch.runSections exits sections) inv.fits := by
  induction sections generalizing exits with
  | nil => exact .pure fit
  | cons entered rest ih =>
    rw [List.forall_mem_cons] at parts
    obtain ⟨⟨labels, same, made, inside⟩, later⟩ := parts
    have arrives : Lasts inv least (Analysis.resolveAll entered.labels) fun _ => True := same ▸ lasts_resolveAll made
    refine lasts_setUnreachable.andThen fun _ => arrives.andThen fun _ => inside.andThen fun _ => ?_
    exact lasts_current.bind fun state fitState => ih later (inv.merge fit fitState)

theorem lasts_finish (made : ∀ label ∈ brk :: entrances.flatMap (·.labels), Made inv.bound least label)
    (each : ∀ body ∈ bodies, Lasting inv body) {passing : Assigned} (fit : inv.fits passing) :
    Lasts inv least (Switch.finish passing (sections entrances bodies) (some brk)) fun _ => True := by
  rw [List.forall_mem_cons] at made
  refine (lasts_runSections ?_ inv.unreachable).bind fun exits fitExits => lasts_end made.1 (inv.merge fit fitExits)
  intro entered member
  obtain ⟨⟨⟨entrance, body⟩, index⟩, placed, rfl⟩ := List.mem_map.mp member
  obtain ⟨listed, walked⟩ := List.of_mem_zip (List.fst_mem_of_mem_zipIdx placed)
  refine ⟨entrance.labels, rfl, fun label own => made.2 label (List.mem_flatMap.mpr ⟨entrance, listed, own⟩), ?_⟩
  exact (lasts_arrive index entrance.clause).andThen fun _ => each body walked least

theorem lasts_switchFrame (label : String) : Lasts inv least (switchFrame label brk entrances)
    fun frame => frame.labels = brk :: entrances.flatMap (·.labels) :=
  lasts_current.bind fun _ _ => .pure rfl

theorem lasts_branchAll {labels : List Label} (made : ∀ label ∈ labels, Made inv.bound least label) (seen : Bool) :
    Lasts inv least (Switch.branchAll seen (labels.map some) : CheckM Bool) fun _ => True := by
  induction labels generalizing seen with
  | nil => exact .pure trivial
  | cons label rest ih =>
    rw [List.forall_mem_cons] at made
    refine (lasts_branch made.1).andThen fun _ => ?_
    cases seen <;> exact ih made.2 _

theorem lasts_jumpSwitch (made : ∀ label ∈ brk :: entrances.flatMap (·.labels), Made inv.bound least label)
    (each : ∀ body ∈ bodies, Lasting inv body) (complete : bodies.length = entrances.length) {goal : Dest}
    (leads : ∀ label, goal = some label → label ∈ brk :: entrances.flatMap (·.labels)) :
    Lasts inv least (JumpSwitch.run
      { scrutinee := pure (), sections := sections entrances bodies, brk := some brk, target := goal })
      fun _ => True := by
  have finish {passing : Assigned} (fit : inv.fits passing) : Lasts inv least (do
      Analysis.setUnreachable
      Switch.finish passing (sections entrances bodies) (some brk)) fun _ => True :=
    lasts_setUnreachable.andThen fun _ => lasts_finish made each fit
  have dispatched := (List.forall_mem_cons.mp made).2
  refine Lasts.andThen (.pure trivial) fun _ => lasts_current.bind fun entry fit => ?_
  cases goal with
  | none =>
    simp only [sections_labels complete]
    refine (lasts_branchAll dispatched _).andThen fun default => finish ?_
    cases default
    · exact fit
    · exact inv.unreachable
  | some label =>
    dsimp only
    split
    · exact finish fit
    · exact (lasts_branch (made label (leads label rfl))).andThen fun _ => finish inv.unreachable

theorem lasting_switch {tag : Option Expr} {clauses : List CaseClause} (initial : Lasting inv init)
    (each : ∀ body ∈ bodies, Lasting inv body) (complete : bodies.length = clauses.length) :
    Lasting inv (switch init tag clauses bodies) := by
  intro least
  refine lasts_detachLabel.andThen fun name => (initial least).andThen fun _ => lasts_reserve fun serial above => ?_
  have made : ∀ label ∈ ⟨serial, .break, name⟩ :: (SwitchPlan.entrancesFrom (serial + 1) clauses).flatMap (·.labels),
      Made inv.bound (serial + SwitchPlan.labelCount clauses) label := by
    refine List.forall_mem_cons.mpr ⟨⟨by simp, above, ?_⟩, fun label own => ?_⟩
    · simp only [SwitchPlan.labelCount]
      omega
    · obtain ⟨first, below⟩ := entrancesFrom_reserved own
      obtain ⟨entrance, listed, among⟩ := List.mem_flatMap.mp own
      obtain ⟨_, labels⟩ := entrancesFrom_labels listed
      exact ⟨clauseLabels_unnamed (labels ▸ among), by omega, by omega⟩
  refine (lasts_switchFrame name).bind fun frame own => lasts_within (own ▸ made) ?_
  refine lasts_jumpSwitch made each ?_ fun label known => List.mem_cons.mpr (knownTarget_mem known)
  rw [complete, ← List.length_map Entrance.clause]
  exact congrArg List.length entrancesFrom_listed.symm

theorem lasts_leaf {entrance : Entrance} {label : Label} (labels : entrance.labels = [label])
    (made : Made inv.bound least label) :
    Lasts inv least ((TypeSwitchPlan.leaf entrance).walk matcher none) fun _ => True := by
  simp only [TypeSwitchPlan.leaf, labels, List.head?_cons, Decision.walk]
  have binds : Lasts inv least (matcher.enter entrance.clause.binding.toList none (some label)) fun _ => True :=
    Lasts.andThen (lasts_current.bind fun state fit => lasts_setCurrent (inv.assign _ fit)) fun _ => .pure trivial
  refine lasts_current.bind fun entry fit => binds.andThen fun _ => lasts_current.bind fun state fitState => ?_
  exact (lasts_record made fitState).andThen fun _ => (lasts_setCurrent fit).andThen fun _ => .pure trivial

/-- The leaf of this entrance sends to a label that has been made. -/
def Ready (inv : Invariant) (least : Nat) (entrance : Entrance) : Prop :=
  ∃ label, entrance.labels = [label] ∧ Made inv.bound least label

theorem lasts_leaves {doors : List Entrance} (ready : ∀ entrance ∈ doors, Ready inv least entrance) {entry : Assigned}
    (fit : inv.fits entry) :
    Lasts inv least (Decision.walkTypes matcher none entry (doors.map TypeSwitchPlan.leaf)) fun _ => True := by
  induction doors with
  | nil => exact .pure trivial
  | cons entrance rest ih =>
    rw [List.forall_mem_cons] at ready
    obtain ⟨⟨label, labels, made⟩, later⟩ := ready
    exact (lasts_setCurrent fit).andThen fun _ => (lasts_leaf labels made).andThen fun _ => ih later

theorem lasts_typeTree {tests : List (Entrance × TypeSwitchPlan.Test)}
    (ready : ∀ entrance ∈ TypeSwitchPlan.leaves tests, Ready inv least entrance) :
    Lasts inv least ((Decision.byType (TypeSwitchPlan.onNull tests)
      (tests.filterMap TypeSwitchPlan.typeLeaf?) .empty).walk matcher none) fun _ => True := by
  simp only [TypeSwitchPlan.leaves, List.forall_mem_append] at ready
  simp only [Decision.walk, TypeSwitchPlan.onNull_eq, TypeSwitchPlan.typeLeaves_eq]
  have onNull : Lasts inv least
      ((((TypeSwitchPlan.nullDoor tests).map TypeSwitchPlan.leaf).getD .empty).walk matcher none) fun _ => True := by
    cases found : TypeSwitchPlan.nullDoor tests with
    | none => exact .pure trivial
    | some entrance =>
      obtain ⟨label, labels, made⟩ := ready.1 entrance (by simp [found])
      exact lasts_leaf labels made
  refine lasts_current.bind fun entry fit => (lasts_setCurrent fit).andThen fun _ => onNull.andThen fun _ => ?_
  exact (lasts_leaves ready.2 fit).andThen fun _ => (lasts_setCurrent fit).andThen fun _ => .pure trivial

theorem lasting_typeSwitch {guard : Stmt} {clauses : List CaseClause} (initial : Lasting inv init)
    (each : ∀ body ∈ bodies, Lasting inv body) : Lasting inv (typeSwitch info init guard clauses bodies) := by
  intro least
  refine lasts_detachLabel.andThen fun name => (initial least).andThen fun _ => lasts_reserve fun serial above => ?_
  rcases TypeSwitchPlan.make_cases info serial name guard clauses with ⟨_, fault, plan⟩ | ⟨_, complete, plan⟩
  · rw [plan]
    exact .fault fault
  · rw [plan]
    have made : ∀ label ∈ ⟨serial, .break, name⟩ ::
        (TypeSwitchPlan.entrancesFrom (serial + 1) clauses).flatMap (·.labels),
        Made inv.bound (serial + (1 + clauses.length)) label := by
      refine List.forall_mem_cons.mpr ⟨⟨by simp, above, Nat.lt_add_of_pos_right (by omega)⟩, fun label own => ?_⟩
      obtain ⟨kind, first, below⟩ := (typeSwitchPlan_layout (serial + 1)).reserved own
      exact ⟨kind, by omega, by omega⟩
    refine (lasts_switchFrame name).bind fun frame own => lasts_within (own ▸ made) ?_
    refine Lasts.andThen (.pure trivial) fun _ => lasts_current.bind fun entry fit => ?_
    refine (lasts_typeTree fun entrance member => ?_).andThen fun _ => ?_
    · have listed := mem_of_mem_leaves member
      obtain ⟨label, labels⟩ := typeSwitchPlan_single (serial + 1) entrance listed
      refine ⟨label, labels, made label (List.mem_cons_of_mem _ (List.mem_flatMap.mpr ⟨entrance, listed, ?_⟩))⟩
      rw [labels]
      exact List.mem_singleton_self label
    · have passing : inv.fits (if complete then StateAlgebra.unreachable else clone entry) := by
        cases complete
        · exact fit
        · exact inv.unreachable
      cases fallback : SwitchPlan.lastDefault (TypeSwitchPlan.entrancesFrom (serial + 1) clauses) with
      | none => exact lasts_finish made each passing
      | some label =>
        have sent := made label (List.mem_cons_of_mem _ (lastDefault_mem fallback))
        refine lasts_current.bind fun state fitState => (lasts_record sent fitState).andThen fun _ => ?_
        exact lasts_finish made each passing

end Statements

/-! Whole walks, by induction on the syntax. -/

section Walks

variable {inv : Invariant} {info : Info}

mutual

theorem walk_lasting : ∀ stmt : Stmt, (∀ mark ∈ marksOf stmt, inv.admits mark) → Lasting inv (walk info stmt)
  | .empty, _ | .eval _, _ | .declare .other _, _ => fun _ => .pure trivial
  | .block body, admitted => walkAll_lasting body admitted
  | .expr expr, _ => lasting_evaluate expr
  | .assign targets _, _ => lasting_assignAll targets
  | .declare .variables specs, _ => lasting_declareAll specs
  | .return _, _ => fun _ => lasts_setUnreachable
  | .jump jump, admitted => lasting_jump admitted
  | .labeled label stmt, admitted => by
    simp only [marksOf, List.forall_mem_cons] at admitted
    exact lasting_labeled _ admitted.1 (walk_lasting stmt admitted.2)
  | .cond init condition body otherwise, admitted => by
    simp only [marksOf, List.forall_mem_append] at admitted
    exact lasting_andThen (walk_lasting init admitted.1)
      (lasting_choose condition (walkAll_lasting body admitted.2.1) (walk_lasting otherwise admitted.2.2))
  | .loop init condition post body, admitted => by
    simp only [marksOf, List.forall_mem_append] at admitted
    exact lasting_loop condition (walk_lasting init admitted.1) (walkAll_lasting body admitted.2.1)
      (walk_lasting post admitted.2.2)
  | .range assigns key value _ body, admitted => by
    refine lasting_range ?_ (walkAll_lasting body admitted)
    split
    · exact lasting_assignAll _
    · exact fun _ => .pure trivial
  | .select clauses, admitted => lasting_select (walkComms_lasting clauses admitted)
  | .switch init _ clauses, admitted => by
    simp only [marksOf, List.forall_mem_append] at admitted
    exact lasting_switch (walk_lasting init admitted.1) (walkCases_lasting clauses admitted.2)
      (walkCases_length clauses)
  | .typeSwitch init guard clauses, admitted => by
    simp only [marksOf, List.forall_mem_append] at admitted
    exact lasting_typeSwitch (walk_lasting init admitted.1) (walkCases_lasting clauses admitted.2.2)
termination_by structural stmt => stmt

theorem walkAll_lasting : ∀ stmts : List Stmt, (∀ mark ∈ marksOfAll stmts, inv.admits mark) →
    Lasting inv (walkAll info stmts)
  | [], _ => fun _ => .pure trivial
  | stmt :: rest, admitted => by
    simp only [marksOfAll, List.forall_mem_append] at admitted
    exact lasting_andThen (walk_lasting stmt admitted.1) (walkAll_lasting rest admitted.2)
termination_by structural stmts => stmts

theorem walkCases_lasting : ∀ clauses : List CaseClause, (∀ mark ∈ marksOfCases clauses, inv.admits mark) →
    ∀ body ∈ walkCases info clauses, Lasting inv body
  | [], _ => fun _ member => absurd member List.not_mem_nil
  | ⟨_, _, _, body⟩ :: rest, admitted => by
    simp only [marksOfCases, List.forall_mem_cons, List.forall_mem_append] at admitted
    exact List.forall_mem_cons.mpr ⟨walkAll_lasting body admitted.2.1, walkCases_lasting rest admitted.2.2⟩
termination_by structural clauses => clauses

theorem walkComms_lasting : ∀ clauses : List CommClause, (∀ mark ∈ marksOfComms clauses, inv.admits mark) →
    ∀ body ∈ walkComms info clauses, Lasting inv body
  | [], _ => fun _ member => absurd member List.not_mem_nil
  | ⟨comm, body⟩ :: rest, admitted => by
    simp only [marksOfComms, List.forall_mem_append] at admitted
    have clause := lasting_andThen (walk_lasting comm admitted.1.1) (walkAll_lasting body admitted.1.2)
    exact List.forall_mem_cons.mpr ⟨clause, walkComms_lasting rest admitted.2⟩
termination_by structural clauses => clauses

end

end Walks

end ClauseReach.Checker
