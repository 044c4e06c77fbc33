import ClauseReach.Proofs.Summary

/-!
The walk as paths see it. A view of a session keeps the walker's own data as they are, and for every flow
state the stores that it summarizes: those at the current point and those under way to each label. A
computation runs from a view if it ends without a fault from every session of that view; what each
operation does to a view is said once, here.
-/

namespace ClauseReach.Checker

open Source StateAlgebra Paths

/-- The stores of the paths under way to each label. -/
abbrev Waiting := Label → Set Store

def arriving (waiting : Waiting) (labels : List Label) : Set Store :=
  {store | ∃ label ∈ labels, store ∈ waiting label}

/-- Nothing waits for these labels any more. -/
def without (labels : List Label) (waiting : Waiting) : Waiting := fun label =>
  if label ∈ labels then ∅ else waiting label

def sending (label : Label) (stores : Set Store) (waiting : Waiting) : Waiting := fun other =>
  if other = label then waiting other ∪ stores else waiting other

structure View where
  frames : List Frame
  attached : String
  serial : Nat
  arrivals : List Arrival
  here : Set Store
  waiting : Waiting

/-- The branches under way to a label, merged. -/
def merged (pending : Pending Assigned) (label : Label) : Assigned :=
  (pending.states (some label)).foldl merge unreachable

structure View.Describes (view : View) (session : Session Assigned Walker) : Prop where
  own : session.own = ⟨view.frames, view.attached, view.serial, view.arrivals⟩
  here : session.pass.state.Summarizes view.here
  waiting : ∀ label, (merged session.pass.pending label).Summarizes (view.waiting label)

def Runs {α : Type} (act : CheckM α) (view : View) (post : α → View → Prop) : Prop :=
  ∀ session, view.Describes session →
    ∃ result after later, act session = .ok result after ∧ View.Describes later after ∧ post result later

namespace Runs

variable {α β : Type} {view : View} {act : CheckM α} {post : α → View → Prop}

theorem pure {value : α} (holds : post value view) : Runs (pure value) view post :=
  fun session described => ⟨value, session, view, rfl, described, holds⟩

theorem bind {next : α → CheckM β} {post : β → View → Prop}
    (runs : Runs act view fun result later => Runs (next result) later post) : Runs (act >>= next) view post := by
  intro session described
  obtain ⟨result, after, later, ended, described, continues⟩ := runs session described
  obtain ⟨last, final, finalView, finished, described, holds⟩ := continues after described
  refine ⟨last, final, finalView, ?_, described, holds⟩
  change EStateM.bind act next session = _
  rw [EStateM.bind, ended]
  exact finished

theorem mono {weaker : α → View → Prop} (runs : Runs act view post)
    (implies : ∀ result later, post result later → weaker result later) : Runs act view weaker := by
  intro session described
  obtain ⟨result, after, later, ended, described, holds⟩ := runs session described
  exact ⟨result, after, later, ended, described, implies result later holds⟩

/-- A computation may be followed from more paths, as long as each brings at least what an earlier one
brings. -/
theorem grow (more : Set Store) (included : view.here ⊆ more)
    (above : ∀ store ∈ more, ∃ lower ∈ view.here, lower ⊆ store)
    (runs : Runs act { view with here := more } post) : Runs act view post := fun session described =>
  runs session ⟨described.own, described.here.grow included above, described.waiting⟩

end Runs

section Operations

variable {view : View}

theorem runs_current {post : Assigned → View → Prop}
    (holds : ∀ state : Assigned, state.Summarizes view.here → post state view) :
    Runs Analysis.current view post := fun session described =>
  ⟨_, session, view, rfl, described, holds _ described.here⟩

theorem runs_setCurrent {post : Unit → View → Prop} {state : Assigned} {stores : Set Store}
    (summary : state.Summarizes stores) (holds : post () { view with here := stores }) :
    Runs (Analysis.setCurrent state) view post := by
  refine fun session described => ⟨(), _, _, rfl, ?_, holds⟩
  exact ⟨described.own, summary, described.waiting⟩

theorem runs_setUnreachable {post : Unit → View → Prop} (holds : post () { view with here := ∅ }) :
    Runs Analysis.setUnreachable view post :=
  runs_setCurrent Assigned.summarizes_unreachable holds

theorem runs_join {post : Unit → View → Prop} {state : Assigned} {stores : Set Store}
    (summary : state.Summarizes stores) (holds : post () { view with here := view.here ∪ stores }) :
    Runs (Analysis.join state) view post := by
  refine fun session described => ⟨(), _, _, rfl, ?_, holds⟩
  exact ⟨described.own, described.here.merge summary, described.waiting⟩

theorem runs_record {post : Unit → View → Prop} {label : Label} {state : Assigned} {stores : Set Store}
    (summary : state.Summarizes stores)
    (holds : post () { view with waiting := sending label stores view.waiting }) :
    Runs (Analysis.record (some label) state) view post := by
  refine fun session described => ⟨(), _, _, rfl, ?_, holds⟩
  refine ⟨described.own, described.here, fun other => ?_⟩
  change (merged (session.pass.pending.record (some label) state) other).Summarizes
    (sending label stores view.waiting other)
  rw [merged, Pending.states_record, sending]
  simp only [Option.some.injEq]
  split
  next same =>
    subst same
    rw [List.foldl_append]
    exact (described.waiting other).merge summary
  next => exact described.waiting other

theorem runs_branch {post : Unit → View → Prop} {label : Label}
    (holds : post () { view with waiting := sending label view.here view.waiting }) :
    Runs (Analysis.branch (some label)) view post := fun session described =>
  runs_record described.here holds session described

/-- A branch to no label is never looked for. -/
theorem runs_branch_none {post : Unit → View → Prop} (holds : post () view) :
    Runs (Analysis.branch none) view post := by
  refine fun session described => ⟨(), _, view, rfl, ⟨described.own, described.here, fun other => ?_⟩, holds⟩
  change (merged (session.pass.pending.record none _) other).Summarizes _
  rw [merged, Pending.states_record, if_neg (by simp)]
  exact described.waiting other

/-- The paths under way to these labels arrive. -/
def View.receive (view : View) (labels : List Label) : View :=
  { view with
    here := view.here ∪ arriving view.waiting labels
    waiting := without labels view.waiting }

theorem runs_resolve {post : Nat → View → Prop} {label : Label}
    (holds : ∀ count, post count (view.receive [label])) : Runs (Analysis.resolve (some label)) view post := by
  refine fun session described => ⟨_, _, _, rfl, ?_, holds _⟩
  refine ⟨described.own, ?_, fun other => ?_⟩
  · change ((session.pass.pending.states (some label)).foldl merge session.pass.state).Summarizes _
    rw [LawfulMerge.foldl_merge]
    simpa [View.receive, arriving, merged] using described.here.merge (described.waiting label)
  · change (merged (session.pass.pending.forget (some label)) other).Summarizes (without [label] view.waiting other)
    rw [merged, Pending.states_forget, without]
    simp only [Option.some.injEq, List.mem_singleton]
    split
    · exact Assigned.summarizes_unreachable
    · exact described.waiting other

theorem View.receive_append (view : View) (first second : List Label) :
    (view.receive first).receive second = view.receive (first ++ second) := by
  simp only [receive, mk.injEq, true_and]
  constructor
  · ext store
    simp only [arriving, without, Set.mem_union, Set.mem_ofPred_eq, List.mem_append]
    grind
  · funext label
    simp only [without, List.mem_append]
    grind

theorem View.receive_nil (view : View) : view.receive [] = view := by
  have kept : without [] view.waiting = view.waiting := by
    funext label
    simp [without]
  simp [receive, arriving, kept]

theorem runs_resolveAll {post : Unit → View → Prop} (labels : List Label)
    (holds : post () (view.receive labels)) : Runs (Analysis.resolveAll (labels.map some)) view post := by
  induction labels generalizing view with
  | nil => exact .pure (view.receive_nil ▸ holds)
  | cons label rest ih =>
    refine .bind (runs_resolve fun _ => ih ?_)
    rwa [View.receive_append]

theorem runs_frames {post : List Frame → View → Prop} (holds : post view.frames view) :
    Runs frames view post := fun session described =>
  ⟨_, session, view, rfl, described, by rw [described.own]; exact holds⟩

theorem runs_push {post : Unit → View → Prop} {frame : Frame}
    (holds : post () { view with frames := frame :: view.frames }) : Runs (push frame) view post := by
  refine fun session described => ⟨(), _, _, rfl, ?_, holds⟩
  exact ⟨by simp [described.own], described.here, described.waiting⟩

theorem runs_pop {post : Unit → View → Prop} {frame : Frame} {outer : List Frame} (inside : view.frames = frame :: outer)
    (holds : post () { view with frames := outer }) : Runs pop view post := by
  intro session described
  have enclosed : session.own.frames = frame :: outer := by rw [described.own, inside]
  refine ⟨(), _, _, pop_eq enclosed, ?_, holds⟩
  exact ⟨by simp [described.own], described.here, described.waiting⟩

theorem runs_attach {post : Unit → View → Prop} {label : String}
    (holds : post () { view with attached := label }) : Runs (attach label) view post := by
  refine fun session described => ⟨(), _, _, rfl, ?_, holds⟩
  exact ⟨by simp [described.own], described.here, described.waiting⟩

theorem runs_detachLabel {post : String → View → Prop}
    (holds : post view.attached { view with attached := "" }) : Runs detachLabel view post := by
  refine fun session described => ⟨_, _, _, rfl, ?_, by rw [described.own]; exact holds⟩
  exact ⟨by simp [described.own], described.here, described.waiting⟩

theorem runs_reserve {post : Nat → View → Prop} {count : Nat}
    (holds : post view.serial { view with serial := view.serial + count }) : Runs (reserve count) view post := by
  refine fun session described => ⟨_, _, _, rfl, ?_, by rw [described.own]; exact holds⟩
  exact ⟨by simp [described.own], described.here, described.waiting⟩

theorem runs_arrive {post : Unit → View → Prop} {index : Nat} {clause : CaseClause} {frame : Frame}
    {outer : List Frame} (inside : view.frames = frame :: outer)
    (holds : ∀ state : Assigned, state.Summarizes view.here →
      post () { view with
        frames := { frame with current := index } :: outer
        arrivals := view.arrivals ++ [⟨clause, frame.live, state⟩] }) :
    Runs (arrive index clause) view post := by
  intro session described
  have enclosed : session.own.frames = frame :: outer := by rw [described.own, inside]
  refine ⟨(), _, _, arrive_eq index clause enclosed, ?_, holds _ described.here⟩
  exact ⟨by simp [described.own], described.here, described.waiting⟩

end Operations

end ClauseReach.Checker
