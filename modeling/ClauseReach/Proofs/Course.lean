import ClauseReach.Proofs.Cover
import ClauseReach.Proofs.Marks

/-!
The course of a walk, apart from flow states. Where a walk goes does not depend on the states it carries along, so it
can be followed by the statements around it, by the destinations that branches are under way to and by the clauses
it has met. An effect sums up what a computation does to these; effects are put together as the computations are.
A computation need not end: a fault must then have an excuse, and with an excuse that never holds there is no fault.
-/

namespace ClauseReach.Checker

open Source StateAlgebra

variable {α β : Type}

/-- The destination is a label written in the program. -/
def isNamed (dest : Dest) : Bool := dest.any (·.kind = .user)

def placeOf (name : String) : Dest := some (namedLabel name)

@[simp] theorem isNamed_placeOf (name : String) : isNamed (placeOf name) = true := rfl

theorem placeOf_injective : Function.Injective placeOf := by
  intro first second same
  simpa [placeOf, namedLabel] using same

/-- What stands around a computation, and the name that waits for the next statement. -/
structure Scope where
  frames : List Frame
  attached : String

def Walker.scope (walker : Walker) : Scope := ⟨walker.frames, walker.attached⟩

/-- What becomes of the branches under way: those to the destinations in `cleared` have arrived, and all new ones go
to destinations in `sent`. The marks are those passed, and through them it is known to which labels of the program
branches are under way, and which clauses have been met. -/
structure Effect where
  cleared : List Dest
  sent : Dest → Prop
  marks : List Mark

namespace Effect

def none : Effect := ⟨[], fun _ => False, []⟩

/-- What is sent first may be cleared thereafter. -/
def andThen (first second : Effect) : Effect where
  cleared := first.cleared ++ second.cleared
  sent dest := (first.sent dest ∧ dest ∉ second.cleared) ∨ second.sent dest
  marks := first.marks ++ second.marks

structure Within (effect wider : Effect) : Prop where
  cleared : ∀ dest ∈ wider.cleared, dest ∈ effect.cleared
  sent : ∀ dest, effect.sent dest → wider.sent dest
  marks : effect.marks = wider.marks

theorem Within.of_sent {effect : Effect} {sent : Dest → Prop} {marks : List Mark}
    (sends : ∀ dest, effect.sent dest → sent dest) (same : effect.marks = marks) :
    effect.Within ⟨[], sent, marks⟩ := ⟨fun _ member => absurd member List.not_mem_nil, sends, same⟩

structure Holds (effect : Effect) (before after : Session Assigned Walker) : Prop where
  waiting : ∀ dest ∈ after.pass.pending.dests,
    (dest ∈ before.pass.pending.dests ∧ dest ∉ effect.cleared) ∨ effect.sent dest
  named : ∀ sought, before.pass.pending.dests.filter isNamed = sought.map placeOf →
    after.pass.pending.dests.filter isNamed = (effect.marks.foldl Mark.follow sought).map placeOf
  met : ∃ met, after.own.arrivals = before.own.arrivals ++ met ∧
    met.map Arrival.clause = effect.marks.filterMap Mark.clause?

variable {before middle after : Session Assigned Walker} {first second effect wider : Effect}

theorem Holds.of_same (dests : after.pass.pending.dests = before.pass.pending.dests)
    (arrivals : after.own.arrivals = before.own.arrivals) : none.Holds before after where
  waiting dest member := .inl ⟨dests ▸ member, List.not_mem_nil⟩
  named sought same := dests ▸ same
  met := ⟨[], by rw [arrivals, List.append_nil], rfl⟩

theorem Holds.andThen (began : first.Holds before middle) (went : second.Holds middle after) :
    (first.andThen second).Holds before after where
  waiting := by
    intro dest member
    rcases went.waiting dest member with ⟨halfway, kept⟩ | sent
    · rcases began.waiting dest halfway with ⟨old, still⟩ | sent
      · exact .inl ⟨old, by simp [Effect.andThen, still, kept]⟩
      · exact .inr (.inl ⟨sent, kept⟩)
    · exact .inr (.inr sent)
  named := by
    intro sought same
    rw [Effect.andThen, List.foldl_append]
    exact went.named _ (began.named sought same)
  met := by
    obtain ⟨early, listed, seen⟩ := began.met
    obtain ⟨late, further, more⟩ := went.met
    refine ⟨early ++ late, by rw [further, listed, List.append_assoc], ?_⟩
    rw [List.map_append, seen, more, Effect.andThen, List.filterMap_append]

theorem Holds.widen (holds : effect.Holds before after) (within : effect.Within wider) :
    wider.Holds before after where
  waiting dest member := (holds.waiting dest member).imp
    (fun old => ⟨old.1, fun gone => old.2 (within.cleared dest gone)⟩) (within.sent dest)
  named := within.marks ▸ holds.named
  met := within.marks ▸ holds.met

/-! What single calls on the pass do. -/

variable {dest : Dest} {name : String} {state : Assigned}

theorem mem_dests_record {pending : Pending Assigned} {other : Dest}
    (member : other ∈ (pending.record dest state).dests) : other ∈ pending.dests ∨ other = dest := by
  rw [Pending.dests_record] at member
  split at member
  · exact .inl member
  · exact (List.mem_append.mp member).imp_right List.mem_singleton.mp

theorem Holds.record (unnamed : isNamed dest = false)
    (pending : after.pass.pending = before.pass.pending.record dest state)
    (arrivals : after.own.arrivals = before.own.arrivals) :
    Holds ⟨[], (· = dest), []⟩ before after where
  waiting other member := (mem_dests_record (pending ▸ member)).imp_left fun old => ⟨old, List.not_mem_nil⟩
  named := by
    intro sought same
    rw [pending, Pending.dests_record]
    split
    · exact same
    · rw [List.filter_append, same]
      simp [unnamed]
  met := ⟨[], by rw [arrivals, List.append_nil], rfl⟩

theorem Holds.goto (pending : after.pass.pending = before.pass.pending.record (placeOf name) state)
    (arrivals : after.own.arrivals = before.own.arrivals) :
    Holds ⟨[], (· = placeOf name), [.goto name]⟩ before after where
  waiting other member := (mem_dests_record (pending ▸ member)).imp_left fun old => ⟨old, List.not_mem_nil⟩
  named := by
    intro sought same
    have known : placeOf name ∈ before.pass.pending.dests ↔ name ∈ sought := by
      have listed : placeOf name ∈ sought.map placeOf ↔ name ∈ sought := by simp [placeOf_injective.eq_iff]
      rw [← listed, ← same, List.mem_filter]
      simp
    rw [pending, Pending.dests_record]
    by_cases sent : name ∈ sought
    · rw [if_pos (known.mpr sent), same]
      simp [Mark.follow, sent]
    · rw [if_neg (mt known.mp sent), List.filter_append, same]
      simp [Mark.follow, sent]
  met := ⟨[], by rw [arrivals, List.append_nil], rfl⟩

theorem Holds.forget (unnamed : isNamed dest = false) (pending : after.pass.pending = before.pass.pending.forget dest)
    (arrivals : after.own.arrivals = before.own.arrivals) :
    Holds ⟨[dest], fun _ => False, []⟩ before after where
  waiting := by
    intro other member
    rw [pending, Pending.dests_forget, List.mem_filter] at member
    exact .inl ⟨member.1, by simpa using member.2⟩
  named := by
    intro sought same
    change _ = sought.map placeOf
    rw [pending, Pending.dests_forget, List.filter_filter, ← same]
    apply List.filter_congr
    intro other _
    by_cases gone : other = dest <;> simp [gone, unnamed]
  met := ⟨[], by rw [arrivals, List.append_nil], rfl⟩

theorem Holds.label (pending : after.pass.pending = before.pass.pending.forget (placeOf name))
    (arrivals : after.own.arrivals = before.own.arrivals) :
    Holds ⟨[], fun _ => False, [.label name]⟩ before after where
  waiting := by
    intro other member
    rw [pending, Pending.dests_forget, List.mem_filter] at member
    exact .inl ⟨member.1, List.not_mem_nil⟩
  named := by
    intro sought same
    have swapped : (before.pass.pending.dests.filter (· ≠ placeOf name)).filter isNamed =
        (before.pass.pending.dests.filter isNamed).filter (· ≠ placeOf name) := by
      simp only [List.filter_filter, Bool.and_comm]
    change _ = (sought.filter (· ≠ name)).map placeOf
    rw [pending, Pending.dests_forget, swapped, same, List.filter_map]
    congr 1
    apply List.filter_congr
    intro other _
    simp [placeOf_injective.eq_iff]
  met := ⟨[], by rw [arrivals, List.append_nil], rfl⟩

end Effect

/-- From any session in this scope the computation ends with this effect, or it faults and there is an excuse. -/
def Course (excuse : Prop) (scope : Scope) (act : CheckM α) (effect : Effect) (post : α → Scope → Prop) : Prop :=
  ∀ session : Session Assigned Walker, session.own.scope = scope →
    (∃ value after, act session = .ok value after ∧ effect.Holds session after ∧ post value after.own.scope) ∨
      (excuse ∧ ∃ fault after, act session = .error fault after)

namespace Course

variable {excuse : Prop} {scope : Scope} {act : CheckM α} {next : α → CheckM β} {effect first second wider : Effect}
  {post weaker : α → Scope → Prop} {last : β → Scope → Prop}

theorem of_ok (ends : ∀ session : Session Assigned Walker, session.own.scope = scope →
    ∃ value after, act session = .ok value after ∧ effect.Holds session after ∧ post value after.own.scope) :
    Course excuse scope act effect post := fun session same => .inl (ends session same)

theorem fault (excused : excuse) (fault : Fault) : Course excuse scope (throw fault : CheckM α) effect post :=
  fun session _ => .inr ⟨excused, fault, session, rfl⟩

theorem pure {value : α} (holds : post value scope) : Course excuse scope (pure value) .none post :=
  of_ok fun session same => ⟨value, session, rfl, .of_same rfl rfl, same ▸ holds⟩

theorem bind (began : Course excuse scope act first fun value later => Course excuse later (next value) second last) :
    Course excuse scope (act >>= next) (first.andThen second) last := by
  intro session same
  rcases began session same with ⟨value, middle, ended, early, went⟩ | ⟨excused, fault, middle, ended⟩
  · rw [Analysis.bind_ok ended]
    rcases went middle rfl with ⟨result, after, finished, late, holds⟩ | stopped
    · exact .inl ⟨result, after, finished, early.andThen late, holds⟩
    · exact .inr stopped
  · rw [Analysis.bind_error ended]
    exact .inr ⟨excused, fault, middle, rfl⟩

theorem widen (course : Course excuse scope act effect post) (within : effect.Within wider) :
    Course excuse scope act wider post := by
  intro session same
  refine (course session same).imp_left ?_
  rintro ⟨value, after, ended, holds, reached⟩
  exact ⟨value, after, ended, holds.widen within, reached⟩

theorem mono (course : Course excuse scope act effect post)
    (implies : ∀ value later, post value later → weaker value later) : Course excuse scope act effect weaker := by
  intro session same
  refine (course session same).imp_left ?_
  rintro ⟨value, after, ended, holds, reached⟩
  exact ⟨value, after, ended, holds, implies _ _ reached⟩

/-- If it is known where the first computation ends, the second one starts there. -/
theorem andThen {middle : Scope} (began : Course excuse scope act first fun _ later => later = middle)
    (went : ∀ value, Course excuse middle (next value) second last) :
    Course excuse scope (act >>= next) (first.andThen second) last := by
  refine bind (began.mono ?_)
  rintro value _ rfl
  exact went value

/-- What has no effect does not send anything either, wherever branches may go. -/
theorem idle {sent : Dest → Prop} (quiet : Course excuse scope act .none post) :
    Course excuse scope act ⟨[], sent, []⟩ post :=
  quiet.widen (.of_sent (fun _ never => never.elim) rfl)

/-- Two computations that send branches to the same destinations and fetch none. -/
theorem both {middle : Scope} {sent : Dest → Prop} {marks more : List Mark}
    (began : Course excuse scope act ⟨[], sent, marks⟩ fun _ later => later = middle)
    (went : ∀ value, Course excuse middle (next value) ⟨[], sent, more⟩ last) :
    Course excuse scope (act >>= next) ⟨[], sent, marks ++ more⟩ last :=
  (began.andThen went).widen (.of_sent (fun _ sent => sent.elim And.left id) rfl)

/-- What has no effect may stand in front. -/
theorem before (began : Course excuse scope act .none fun value later => Course excuse later (next value) effect last) :
    Course excuse scope (act >>= next) effect last := by
  refine (bind began).widen ⟨fun dest member => List.mem_append_right _ member, fun dest sent => ?_, List.nil_append _⟩
  exact sent.resolve_left fun never => never.1

/-- What has no effect may stand behind. -/
theorem behind (began : Course excuse scope act effect fun value later => Course excuse later (next value) .none last) :
    Course excuse scope (act >>= next) effect last := by
  refine (bind began).widen ⟨fun dest member => List.mem_append_left _ member, fun dest sent => ?_, List.append_nil _⟩
  exact (sent.resolve_right id).1

end Course

section Operations

variable {excuse : Prop} {scope : Scope} {frames : List Frame} {attached : String}

theorem course_current {post : Assigned → Scope → Prop} (holds : ∀ state, post state scope) :
    Course excuse scope Analysis.current .none post :=
  .of_ok fun session same => ⟨_, session, rfl, .of_same rfl rfl, same ▸ holds _⟩

theorem course_setCurrent {post : Unit → Scope → Prop} {state : Assigned} (holds : post () scope) :
    Course excuse scope (Analysis.setCurrent state) .none post :=
  .of_ok fun _ same => ⟨(), _, rfl, .of_same rfl rfl, same ▸ holds⟩

theorem course_join {post : Unit → Scope → Prop} {state : Assigned} (holds : post () scope) :
    Course excuse scope (Analysis.join state) .none post :=
  .of_ok fun _ same => ⟨(), _, rfl, .of_same rfl rfl, same ▸ holds⟩

theorem course_reserve {post : Nat → Scope → Prop} {count : Nat} (holds : ∀ serial, post serial scope) :
    Course excuse scope (reserve count) .none post :=
  .of_ok fun _ same => ⟨_, _, rfl, .of_same rfl rfl, same ▸ holds _⟩

theorem course_frames {post : List Frame → Scope → Prop} (holds : post scope.frames scope) :
    Course excuse scope Checker.frames .none post := by
  refine .of_ok fun session same => ⟨_, session, rfl, .of_same rfl rfl, ?_⟩
  subst same
  exact holds

theorem course_attach {post : Unit → Scope → Prop} {label : String} (holds : post () ⟨frames, label⟩) :
    Course excuse ⟨frames, attached⟩ (attach label) .none post := by
  refine .of_ok fun session same => ⟨(), _, rfl, .of_same rfl rfl, ?_⟩
  cases same
  exact holds

theorem course_detachLabel {post : String → Scope → Prop} (holds : post attached ⟨frames, ""⟩) :
    Course excuse ⟨frames, attached⟩ detachLabel .none post := by
  refine .of_ok fun session same => ⟨_, _, rfl, .of_same rfl rfl, ?_⟩
  cases same
  exact holds

theorem course_push {post : Unit → Scope → Prop} {frame : Frame} (holds : post () ⟨frame :: frames, attached⟩) :
    Course excuse ⟨frames, attached⟩ (push frame) .none post := by
  refine .of_ok fun session same => ⟨(), _, rfl, .of_same rfl rfl, ?_⟩
  cases same
  exact holds

theorem course_pop {post : Unit → Scope → Prop} {frame : Frame} (holds : post () ⟨frames, attached⟩) :
    Course excuse ⟨frame :: frames, attached⟩ pop .none post := by
  refine .of_ok fun session same => ?_
  have inside : session.own.frames = frame :: frames := congrArg Scope.frames same
  refine ⟨(), _, pop_eq inside, .of_same rfl rfl, ?_⟩
  have kept : session.own.attached = attached := congrArg Scope.attached same
  subst kept
  exact holds

theorem course_arrive {post : Unit → Scope → Prop} {frame : Frame} (index : Nat) (clause : CaseClause)
    (holds : post () ⟨{ frame with current := index } :: frames, attached⟩) :
    Course excuse ⟨frame :: frames, attached⟩ (arrive index clause) ⟨[], fun _ => False, [.clause clause]⟩ post := by
  refine .of_ok fun session same => ?_
  have inside : session.own.frames = frame :: frames := congrArg Scope.frames same
  refine ⟨(), _, arrive_eq index clause inside, ?_, ?_⟩
  · exact ⟨fun dest member => .inl ⟨member, List.not_mem_nil⟩, fun sought same => same, _, rfl, rfl⟩
  · have kept : session.own.attached = attached := congrArg Scope.attached same
    subst kept
    exact holds

theorem course_record {post : Unit → Scope → Prop} {dest : Dest} {state : Assigned} (unnamed : isNamed dest = false)
    (holds : post () scope) : Course excuse scope (Analysis.record dest state) ⟨[], (· = dest), []⟩ post :=
  .of_ok fun _ same => ⟨(), _, rfl, .record unnamed rfl rfl, same ▸ holds⟩

theorem course_branch {post : Unit → Scope → Prop} {dest : Dest} (unnamed : isNamed dest = false)
    (holds : post () scope) : Course excuse scope (Analysis.branch dest) ⟨[], (· = dest), []⟩ post :=
  .of_ok fun _ same => ⟨(), _, rfl, .record unnamed rfl rfl, same ▸ holds⟩

theorem course_goto {post : Unit → Scope → Prop} {name : String} (holds : post () scope) :
    Course excuse scope (Analysis.branch (placeOf name)) ⟨[], (· = placeOf name), [.goto name]⟩ post :=
  .of_ok fun _ same => ⟨(), _, rfl, .goto rfl rfl, same ▸ holds⟩

theorem course_resolve {post : Nat → Scope → Prop} {dest : Dest} (unnamed : isNamed dest = false)
    (holds : ∀ count, post count scope) :
    Course excuse scope (Analysis.resolve dest) ⟨[dest], fun _ => False, []⟩ post :=
  .of_ok fun _ same => ⟨_, _, rfl, .forget unnamed rfl rfl, same ▸ holds _⟩

theorem course_label {post : Nat → Scope → Prop} {name : String} (holds : ∀ count, post count scope) :
    Course excuse scope (Analysis.resolve (placeOf name)) ⟨[], fun _ => False, [.label name]⟩ post :=
  .of_ok fun _ same => ⟨_, _, rfl, .label rfl rfl, same ▸ holds _⟩

theorem course_resolveAll {post : Unit → Scope → Prop} {labels : List Dest}
    (unnamed : ∀ dest ∈ labels, isNamed dest = false) (holds : post () scope) :
    Course excuse scope (Analysis.resolveAll labels) ⟨labels, fun _ => False, []⟩ post := by
  induction labels with
  | nil => exact .pure holds
  | cons dest rest ih =>
    have later := ih fun other member => unnamed other (List.mem_cons_of_mem _ member)
    refine (Course.bind (course_resolve (unnamed dest (List.mem_cons_self ..)) fun _ => later)).widen ?_
    exact ⟨fun other member => member, fun other sent => sent.elim (fun never => never.1) id, rfl⟩

end Operations

end ClauseReach.Checker
