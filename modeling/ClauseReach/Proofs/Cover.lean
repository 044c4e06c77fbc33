import ClauseReach.Proofs.PathBack
import ClauseReach.Proofs.View

/-!
What it means that a walk covers the ways through a piece of code. From any view, the walk ends with the
stores of all ways that go on; the stores of the ways that leave wait at the labels of their jumps, and
every clause on the way has been met with the stores that stop at its entry.
-/

namespace ClauseReach.Checker

open Source StateAlgebra Paths

def target (frames : List Frame) : Jump → Dest
  | .break label => (breakFrame? label frames).map (·.brk)
  | .continue label => (continueFrame? label frames).bind (·.cont)
  | .goto label => label.map namedLabel
  | .fallthrough => (nextSection? frames).bind List.head?
  | .other => none

namespace Frame

def labels (frame : Frame) : List Label := frame.brk :: (frame.cont.toList ++ frame.sections.flatten)

def inside (frame : Frame) : Jump → Dest
  | .continue _ => frame.cont
  | .fallthrough => frame.sections[frame.current + 1]?.bind List.head?
  | _ => none

/-- The labels of a frame are its own: none is written in the program, and all have been reserved. -/
structure Proper (serial : Nat) (frame : Frame) : Prop where
  reserved : ∀ label ∈ frame.labels, label.kind ≠ .user ∧ label.serial < serial
  sections : [] ∉ frame.sections

theorem inside_mem {frame : Frame} {jump : Jump} {label : Label} (found : frame.inside jump = some label) :
    label ∈ frame.cont.toList ++ frame.sections.flatten := by
  unfold inside at found
  split at found
  · simp [found]
  · obtain ⟨names, following, first⟩ := Option.bind_eq_some_iff.mp found
    have member : label ∈ frame.sections.flatten :=
      List.mem_flatten.mpr ⟨names, List.mem_of_getElem? following, List.mem_of_head? first⟩
    simp [member]
  · cases found

end Frame

theorem target_cons (frame : Frame) (outer : List Frame) (jump : Jump) :
    target (frame :: outer) jump =
      if jump.breaks frame.label then some frame.brk
      else if jump.escapes frame.label frame.cont.isSome then target outer jump
      else frame.inside jump := by
  cases jump with
  | «break» label =>
    cases label with
    | none => simp [target, Jump.breaks, breakFrame?]
    | some name =>
      by_cases same : frame.label = name
      · simp [target, Jump.breaks, breakFrame?, same]
      · have different : name ≠ frame.label := fun equal => same equal.symm
        simp [target, Jump.breaks, Jump.escapes, breakFrame?, same, different]
  | «continue» label =>
    cases label with
    | none =>
      cases known : frame.cont with
      | none => simp [target, Jump.breaks, Jump.escapes, continueFrame?, known]
      | some label => simp [target, Jump.breaks, Jump.escapes, continueFrame?, Frame.inside, known]
    | some name =>
      by_cases same : frame.label = name
      · simp [target, Jump.breaks, Jump.escapes, continueFrame?, Frame.inside, same]
      · have different : name ≠ frame.label := fun equal => same equal.symm
        simp [target, Jump.breaks, Jump.escapes, continueFrame?, same, different]
  | goto label => simp [target, Jump.breaks, Jump.escapes]
  | «fallthrough» => simp [target, Jump.breaks, Jump.escapes, nextSection?, Frame.inside]
  | other => simp [target, Jump.breaks, Jump.escapes, Frame.inside]

/-- Only a `goto` leads to a label that no enclosing statement has. -/
theorem target_eq_some {frames : List Frame} {jump : Jump} {label : Label}
    (found : target frames jump = some label) :
    (∃ name, jump = .goto (some name) ∧ label = namedLabel name) ∨ ∃ frame ∈ frames, label ∈ frame.labels := by
  induction frames with
  | nil =>
    cases jump with
    | goto name =>
      obtain ⟨name, rfl, rfl⟩ := Option.map_eq_some_iff.mp found
      exact .inl ⟨name, rfl, rfl⟩
    | «break» name | «continue» name =>
      cases name <;> simp [target, breakFrame?, continueFrame?] at found
    | «fallthrough» => simp [target, nextSection?] at found
    | other => cases found
  | cons frame outer ih =>
    rw [target_cons] at found
    split at found
    · cases found
      exact .inr ⟨frame, by simp, by simp [Frame.labels]⟩
    split at found
    · rcases ih found with named | ⟨owner, member, own⟩
      · exact .inl named
      · exact .inr ⟨owner, by simp [member], own⟩
    · exact .inr ⟨frame, by simp, List.mem_cons_of_mem _ (Frame.inside_mem found)⟩

structure View.Sound (view : View) : Prop where
  fresh : ∀ label, label.kind ≠ .user → view.serial ≤ label.serial → view.waiting label = ∅
  frames : ∀ frame ∈ view.frames, frame.Proper view.serial

theorem Frame.Proper.mono {frame : Frame} {serial later : Nat} (proper : frame.Proper serial)
    (grows : serial ≤ later) : frame.Proper later where
  reserved := fun label member =>
    ⟨(proper.reserved label member).1, Nat.lt_of_lt_of_le (proper.reserved label member).2 grows⟩
  sections := proper.sections

theorem View.Sound.target_reserved {view : View} (sound : view.Sound) {jump : Jump} {label : Label}
    (found : target view.frames jump = some label) (reserved : label.kind ≠ .user) :
    label.serial < view.serial := by
  rcases target_eq_some found with ⟨name, _, rfl⟩ | ⟨frame, member, own⟩
  · exact absurd rfl reserved
  · exact ((sound.frames frame member).reserved label own).2

theorem View.Sound.target_named {view : View} (sound : view.Sound) {jump : Jump} {name : String}
    (found : target view.frames jump = some (namedLabel name)) : jump = .goto (some name) := by
  rcases target_eq_some found with ⟨other, rfl, same⟩ | ⟨frame, member, own⟩
  · simp only [namedLabel, Label.mk.injEq, true_and] at same
    rw [same]
  · exact absurd rfl ((sound.frames frame member).reserved _ own).1

theorem View.Sound.receive {view : View} (sound : view.Sound) (labels : List Label) :
    (view.receive labels).Sound where
  fresh := by
    intro label reserved fresh
    simp [View.receive, without, sound.fresh label reserved fresh]
  frames := sound.frames

/-! Where the ways from some stores lead, and what that makes of the branches under way. -/

def outcome (stores : Set Store) (way : Way) : Cursor → Set Store := fun cursor =>
  {after | ∃ before ∈ stores, way before cursor after}

/-- The ways that leave wait at the labels of their jumps. -/
def spread (frames : List Frame) (waiting : Waiting) (came : Cursor → Set Store) : Waiting := fun label =>
  waiting label ∪ {store | ∃ jump, target frames jump = some label ∧ store ∈ came (.leaving jump)}

variable {frames : List Frame} {waiting : Waiting} {came more : Cursor → Set Store} {first : Nat}
  {clauses later : List CaseClause}

theorem spread_spread :
    spread frames (spread frames waiting came) more =
      spread frames waiting (fun cursor => came cursor ∪ more cursor) := by
  funext label
  ext store
  simp only [spread, Set.mem_union, Set.mem_ofPred_eq]
  grind

theorem spread_congr (same : ∀ jump, came (.leaving jump) = more (.leaving jump)) :
    spread frames waiting came = spread frames waiting more := by
  funext label
  simp only [spread, same]

theorem spread_none (nowhere : ∀ jump, came (.leaving jump) = ∅) : spread frames waiting came = waiting := by
  funext label
  simp [spread, nowhere]

/-- The clauses met on the way, in order: each head is live if a path comes to it, and the state on entry
is the merge of the paths that enter. -/
structure Recorded (first : Nat) (clauses : List CaseClause) (arrivals : List Arrival)
    (came : Cursor → Set Store) : Prop where
  listed : arrivals.map Arrival.clause = clauses
  live : ∀ {index : Nat} {arrival : Arrival}, arrivals[index]? = some arrival →
    (arrival.live = true ↔ (came (.stopped (.head (first + index)))).Nonempty)
  state : ∀ {index : Nat} {arrival : Arrival}, arrivals[index]? = some arrival →
    arrival.state.Summarizes (came (.stopped (.entry (first + index))))
  within : ∀ {place store}, store ∈ came (.stopped place) → Numbered first clauses.length place.clause

theorem Recorded.nil (nowhere : ∀ place, came (.stopped place) = ∅) : Recorded first [] [] came where
  listed := rfl
  live := fun found => by simp at found
  state := fun found => by simp at found
  within := fun member => by simp [nowhere] at member

theorem Recorded.congr {arrivals : List Arrival} (recorded : Recorded first clauses arrivals came)
    (same : ∀ place, came (.stopped place) = more (.stopped place)) :
    Recorded first clauses arrivals more where
  listed := recorded.listed
  live := fun found => same _ ▸ recorded.live found
  state := fun found => same _ ▸ recorded.state found
  within := fun member => recorded.within (same _ ▸ member)

theorem Recorded.length {arrivals : List Arrival} (recorded : Recorded first clauses arrivals came) :
    arrivals.length = clauses.length := by
  rw [← recorded.listed, List.length_map]

/-- Clauses are numbered through, so what stops at a clause comes from one side only. -/
theorem Recorded.append {arrivals next : List Arrival} (recorded : Recorded first clauses arrivals came)
    (further : Recorded (first + clauses.length) later next more) :
    Recorded first (clauses ++ later) (arrivals ++ next) (fun cursor => came cursor ∪ more cursor) := by
  have leftAlone {place : Place} (before : place.clause < first + clauses.length) :
      came (.stopped place) ∪ more (.stopped place) = came (.stopped place) := by
    refine Set.union_eq_left.mpr fun store member => ?_
    have := (further.within member).1
    omega
  have rightAlone {place : Place} (behind : first + clauses.length ≤ place.clause) :
      came (.stopped place) ∪ more (.stopped place) = more (.stopped place) := by
    refine Set.union_eq_right.mpr fun store member => ?_
    have := (recorded.within member).2
    omega
  have length := recorded.length
  -- An arrival of the joined list is one of the first list or, counted from its end, of the second.
  have split {index : Nat} {arrival : Arrival} (found : (arrivals ++ next)[index]? = some arrival) :
      (index < clauses.length ∧ arrivals[index]? = some arrival) ∨
        ∃ rest, index = clauses.length + rest ∧ next[rest]? = some arrival := by
    by_cases early : index < arrivals.length
    · rw [List.getElem?_append_left early] at found
      exact .inl ⟨length ▸ early, found⟩
    · rw [List.getElem?_append_right (by omega)] at found
      exact .inr ⟨index - arrivals.length, by omega, found⟩
  constructor
  · rw [List.map_append, recorded.listed, further.listed]
  · intro index arrival found
    rcases split found with ⟨early, inFirst⟩ | ⟨rest, rfl, inSecond⟩
    · rw [leftAlone (by simp only [Place.clause]; omega)]
      exact recorded.live inFirst
    · rw [rightAlone (by simp only [Place.clause]; omega), ← Nat.add_assoc]
      exact further.live inSecond
  · intro index arrival found
    rcases split found with ⟨early, inFirst⟩ | ⟨rest, rfl, inSecond⟩
    · rw [leftAlone (by simp only [Place.clause]; omega)]
      exact recorded.state inFirst
    · rw [rightAlone (by simp only [Place.clause]; omega), ← Nat.add_assoc]
      exact further.state inSecond
  · intro place store passed
    rcases passed with member | member
    · have := recorded.within member
      simp only [Numbered, List.length_append] at this ⊢
      omega
    · have := further.within member
      simp only [Numbered, List.length_append] at this ⊢
      omega

/-- A view behind a piece of code, by what was there before it and where its ways lead. -/
structure Follows (before : View) (waiting : Waiting) (first : Nat) (clauses : List CaseClause)
    (came : Cursor → Set Store) (after : View) : Prop where
  frames : after.frames = before.frames
  attached : after.attached = ""
  serial : before.serial ≤ after.serial
  waiting : after.waiting = spread before.frames waiting came
  arrivals : ∃ met, after.arrivals = before.arrivals ++ met ∧ Recorded first clauses met came

theorem Follows.rebase {before other after : View} (follows : Follows before waiting first clauses came after)
    (frames : before.frames = other.frames) (serial : before.serial = other.serial)
    (arrivals : before.arrivals = other.arrivals) : Follows other waiting first clauses came after where
  frames := follows.frames.trans frames
  attached := follows.attached
  serial := serial ▸ follows.serial
  waiting := frames ▸ follows.waiting
  arrivals := arrivals ▸ follows.arrivals

theorem Follows.stay {view : View} (stores : Set Store) (attached : view.attached = "")
    (nowhere : ∀ cursor, cursor ≠ .onward → came cursor = ∅) :
    Follows view view.waiting first [] came { view with here := stores } where
  frames := rfl
  attached := attached
  serial := Nat.le_refl _
  waiting := (spread_none fun jump => nowhere _ (by simp)).symm
  arrivals := ⟨[], (List.append_nil _).symm, .nil fun place => nowhere _ (by simp)⟩

theorem Follows.trans {before middle after : View} (follows : Follows before waiting first clauses came middle)
    (further : Follows middle middle.waiting (first + clauses.length) later more after) :
    Follows before waiting first (clauses ++ later) (fun cursor => came cursor ∪ more cursor) after where
  frames := further.frames.trans follows.frames
  attached := further.attached
  serial := follows.serial.trans further.serial
  waiting := by rw [further.waiting, follows.waiting, follows.frames, spread_spread]
  arrivals := by
    obtain ⟨met, early, recorded⟩ := follows.arrivals
    obtain ⟨next, late, recordedNext⟩ := further.arrivals
    exact ⟨met ++ next, by rw [late, early, List.append_assoc], recorded.append recordedNext⟩

theorem Follows.congr {before after : View} (follows : Follows before waiting first clauses came after)
    (same : ∀ cursor, cursor ≠ .onward → came cursor = more cursor) :
    Follows before waiting first clauses more after where
  frames := follows.frames
  attached := follows.attached
  serial := follows.serial
  waiting := follows.waiting.trans (spread_congr fun jump => same _ (by simp))
  arrivals := by
    obtain ⟨met, early, recorded⟩ := follows.arrivals
    exact ⟨met, early, recorded.congr fun place => same _ (by simp)⟩

def Closed (labels : List String) (waiting : Waiting) : Prop :=
  ∀ label ∈ labels, waiting (namedLabel label) = ∅

theorem Closed.without {labels : List String} (closed : Closed labels waiting) (resolved : List Label) :
    Closed labels (without resolved waiting) := by
  intro label member
  simp [Checker.without, closed label member]

theorem closed_append {labels more : List String} :
    Closed (labels ++ more) waiting ↔ Closed labels waiting ∧ Closed more waiting := by
  simp [Closed, or_imp, forall_and]

/-- The walk covers the ways through a piece of code with these clauses, provided nothing waits at the
labels inside. -/
def Covers (act : CheckM Unit) (attached : String) (labels : List String) (first : Nat)
    (clauses : List CaseClause) (way : Way) : Prop :=
  ∀ view : View, view.Sound → view.attached = attached → Closed labels view.waiting →
    Runs act view fun _ after =>
      after.here = outcome view.here way .onward ∧
        Follows view view.waiting first clauses (outcome view.here way) after

theorem View.Sound.follows {before after : View} (sound : before.Sound)
    (unreserved : ∀ label, label.kind ≠ .user → before.serial ≤ label.serial → waiting label = ∅)
    (follows : Follows before waiting first clauses came after) : after.Sound where
  fresh := by
    intro label reserved fresh
    have fresh := follows.serial.trans fresh
    rw [follows.waiting, spread, unreserved label reserved fresh, Set.empty_union]
    refine Set.eq_empty_of_forall_notMem fun store => ?_
    rintro ⟨jump, found, _⟩
    exact absurd (sound.target_reserved found reserved) (by omega)
  frames := fun frame member =>
    (sound.frames frame (follows.frames ▸ member)).mono follows.serial

def Silent (labels : List String) (way : Way) : Prop :=
  ∀ label ∈ labels, ∀ before after, ¬way before (.leaving (.goto (some label))) after

theorem Closed.follows {before after : View} {labels : List String} {way : Way} {stores : Set Store}
    (closed : Closed labels waiting) (sound : before.Sound) (silent : Silent labels way)
    (follows : Follows before waiting first clauses (outcome stores way) after) : Closed labels after.waiting := by
  intro label member
  rw [follows.waiting, spread, closed label member, Set.empty_union]
  refine Set.eq_empty_of_forall_notMem fun store => ?_
  rintro ⟨jump, found, origin, _, left⟩
  rw [sound.target_named found] at left
  exact silent label member origin store left

end ClauseReach.Checker
