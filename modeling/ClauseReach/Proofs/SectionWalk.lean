import Mathlib.Data.List.Nodup
import ClauseReach.Proofs.LoopWalk

/-!
Walks of the sections of a switch. Each section is entered by what waits at its labels: what dispatch has sent
there, and what fell through from the section before. Walking the sections one after the other covers all the
ways that enter at any clause, since a fallthrough only leads on.
-/

namespace ClauseReach.Checker

open Source StateAlgebra Paths

/-- A switch under way: its frame stands on the stack of the view outside, and the header is what comes to
the head of the switch. -/
structure Stage where
  outside : View
  frame : Frame
  limit : Nat
  header : Set Store
  sound : outside.Sound
  new : frame.New outside.serial limit
  straight : frame.cont = none
  live : frame.live = true ↔ header.Nonempty

namespace Stage

variable (stage : Stage)

def walking (index : Nat) : Frame := { stage.frame with current := index }

def frames (index : Nat) : List Frame := stage.walking index :: stage.outside.frames

theorem target_congr {jump : Jump} (other : jump ≠ .fallthrough) (index later : Nat) :
    target (stage.frames index) jump = target (stage.frames later) jump := by
  simp only [frames, walking, target_cons]
  cases jump with
  | «fallthrough» => exact absurd rfl other
  | _ => rfl

/-- Only a fallthrough leads into a section, and it leads into the next one. -/
theorem target_section {index : Nat} {jump : Jump} {label : Label} (own : label ∈ stage.frame.sections.flatten)
    (found : target (stage.frames index) jump = some label) :
    jump = .fallthrough ∧ stage.frame.sections[index + 1]?.bind List.head? = some label := by
  have member : label ∈ stage.frame.labels := by simp [Frame.labels, own]
  rw [frames, target_cons] at found
  split at found
  · cases found
    exact absurd (List.mem_append_right _ own) (List.nodup_cons.mp stage.new.distinct).1
  split at found
  · exact absurd found (stage.new.unknown stage.sound member jump)
  cases jump with
  | «fallthrough» => exact ⟨rfl, found⟩
  | «continue» name =>
    have nowhere : stage.frame.cont = some label := found
    rw [stage.straight] at nowhere
    cases nowhere
  | _ => cases found

theorem walking_new {current serial : Nat} (proper : (stage.walking current).Proper serial)
    (last : Nat) : (stage.walking last).New stage.outside.serial serial := by
  refine ⟨fun label own => ?_, stage.new.sections, stage.new.distinct⟩
  have reserved := stage.new.reserved label own
  exact ⟨reserved.1, reserved.2.1, (proper.reserved label own).2⟩

theorem without_sections {waiting : Waiting}
    (kept : ∀ label ∉ stage.frame.sections.flatten, waiting label = stage.outside.waiting label) :
    without stage.frame.sections.flatten waiting = stage.outside.waiting := by
  funext label
  rw [without]
  split
  next own => exact (stage.new.unused stage.sound (by simp [Frame.labels, own])).symm
  next foreign => exact kept label foreign

end Stage

def entered (entrances : List Entrance) (waiting : Waiting) (index : Nat) : Set Store :=
  {store | ∃ entrance, entrances[index]? = some entrance ∧ store ∈ arriving waiting entrance.labels}

def chosen (doors : Nat → Set Store) (ways : Nat → Way) : Cursor → Set Store := fun cursor =>
  {after | ∃ index, ∃ before ∈ doors index, ways index before cursor after}

def headed (header : Set Store) (heads : List Nat) (came : Cursor → Set Store) : Cursor → Set Store :=
  fun cursor => {store | store ∈ header ∧ ∃ number ∈ heads, cursor = .stopped (.head number)} ∪ came cursor

def sectionOf : (Entrance × CheckM Unit) × Nat → Section Assigned Walker := fun ((entrance, body), index) =>
  { labels := entrance.labels.map some
    body := do
      arrive index entrance.clause
      body }

/-- The walks of clauses, as the sections of a switch from some index on, cover the ways through them from
whatever waits at their entrances. -/
def CoversSections (bodies : List (CheckM Unit)) (inner : List String) (first : Nat) (clauses : List CaseClause)
    (ways : Nat → Way) : Prop :=
  ∀ (stage : Stage) (entrances : List Entrance) (index current : Nat) (view : View) (exits : Assigned)
    (ends : Set Store), entrances.map (·.clause) = clauses →
    stage.frame.sections.drop index = entrances.map (·.labels) → view.frames = stage.frames current →
    view.Sound → view.attached = "" → Closed inner view.waiting → exits.Summarizes ends →
    Runs (Switch.runSections exits (((entrances.zip bodies).zipIdx index).map sectionOf)) view fun state after =>
      state.Summarizes (ends ∪ chosen (entered entrances view.waiting) ways .onward) ∧
        ∃ last, Follows { view with frames := stage.frames last }
          (without (entrances.flatMap (·.labels)) view.waiting) first (Traversal.clausesOfCases clauses)
          (headed stage.header (headNumbers first clauses) (chosen (entered entrances view.waiting) ways)) after

def Settled (ways : Nat → Way) : Prop := ∀ door before after, ¬ways door before (.leaving .fallthrough) after

variable {first : Nat} {ways : Nat → Way}

theorem Settled.headed (settled : Settled ways) (doors : Nat → Set Store) (header : Set Store) (heads : List Nat) :
    headed header heads (chosen doors ways) (.leaving .fallthrough) = ∅ := by
  refine Set.eq_empty_of_forall_notMem fun store found => ?_
  rcases found with ⟨_, _, _, stops⟩ | ⟨index, before, _, passed⟩
  · cases stops
  · exact settled index before store passed

theorem coversSections_nil : CoversSections [] [] first [] ways := by
  intro stage entrances index current view exits ends listed _ inside _ detached _ exiting
  obtain rfl : entrances = [] := by simpa using listed
  have nothing (cursor : Cursor) : chosen (entered [] view.waiting) ways cursor = ∅ := by
    simp [chosen, entered]
  have kept : without (([] : List Entrance).flatMap (·.labels)) view.waiting = view.waiting := by
    funext label
    simp [without]
  refine .pure ⟨by simpa [nothing] using exiting, current, ?_⟩
  rw [kept]
  refine ⟨inside, detached, Nat.le_refl _, (spread_none fun jump => ?_).symm, [], by simp, .nil fun place => ?_⟩
  · simp [headed, headNumbers, nothing]
  · simp [headed, headNumbers, nothing]

section Section

variable {stage : Stage} {entrance : Entrance} {rest : List Entrance} {index : Nat} {waiting : Waiting}
  {came : Cursor → Set Store}

theorem sections_apart (listed : stage.frame.sections.drop index = (entrance :: rest).map (·.labels)) :
    ((entrance :: rest).map (·.labels)).Pairwise List.Disjoint := by
  have distinct : stage.frame.sections.flatten.Nodup := by
    have := (List.nodup_cons.mp stage.new.distinct).2
    rw [List.nodup_append] at this
    exact this.2.1
  rw [← listed]
  exact (List.nodup_flatten.mp distinct).2.sublist (List.drop_sublist ..)

theorem entrance_own (listed : stage.frame.sections.drop index = (entrance :: rest).map (·.labels))
    {other : Entrance} (member : other ∈ entrance :: rest) {label : Label} (own : label ∈ other.labels) :
    label ∈ stage.frame.sections.flatten := by
  have among : other.labels ∈ stage.frame.sections.drop index := by
    rw [listed]
    exact List.mem_map_of_mem member
  exact List.mem_flatten.mpr ⟨other.labels, List.mem_of_mem_drop among, own⟩

theorem nextSection_eq (listed : stage.frame.sections.drop index = (entrance :: rest).map (·.labels)) :
    stage.frame.sections[index + 1]? = rest.head?.map (·.labels) := by
  have := congrArg (·[1]?) listed
  simpa [List.head?_eq_getElem?] using this

/-- Behind a section, what fell through waits at the next entrance along with what was sent there. -/
theorem entered_spread (listed : stage.frame.sections.drop index = (entrance :: rest).map (·.labels))
    (door : Nat) :
    entered rest (spread (stage.frames index) (without entrance.labels waiting) came) door =
      entered rest waiting door ∪
        {store | door = 0 ∧ rest ≠ [] ∧ store ∈ came (.leaving .fallthrough)} := by
  have apart := List.pairwise_cons.mp (sections_apart listed)
  have next := nextSection_eq listed
  ext store
  constructor
  · intro given
    obtain ⟨other, found, label, member, waits⟩ := given
    have among : other ∈ entrance :: rest := List.mem_cons_of_mem _ (List.mem_of_getElem? found)
    rcases waits with waits | ⟨jump, goal, left⟩
    · unfold without at waits
      split at waits
      · cases waits
      · exact .inl ⟨other, found, label, member, waits⟩
    · obtain ⟨rfl, follows⟩ := stage.target_section (entrance_own listed among member) goal
      rw [next] at follows
      cases rest with
      | nil => cases follows
      | cons following tail =>
        have first : label ∈ following.labels := List.mem_of_head? follows
        cases door with
        | zero => exact .inr ⟨rfl, by simp, left⟩
        | succ door =>
          have far : other.labels ∈ tail.map (·.labels) := List.mem_map_of_mem (List.mem_of_getElem? found)
          exact absurd member ((List.pairwise_cons.mp apart.2).1 _ far first)
  · intro found
    rcases found with ⟨other, found, label, member, waits⟩ | ⟨rfl, more, left⟩
    · have among : other.labels ∈ rest.map (·.labels) := List.mem_map_of_mem (List.mem_of_getElem? found)
      have foreign : label ∉ entrance.labels := fun own => apart.1 _ among own member
      exact ⟨other, found, label, member, .inl (by rwa [without, if_neg foreign])⟩
    · cases rest with
      | nil => exact absurd rfl more
      | cons following tail =>
        have filled : following.labels ≠ [] := by
          intro empty
          have among : following.labels ∈ stage.frame.sections.drop index := by simp [listed]
          exact stage.new.sections (empty ▸ List.mem_of_mem_drop among)
        obtain ⟨label, more, labels⟩ := List.exists_cons_of_ne_nil filled
        have goal : target (stage.frames index) .fallthrough = some label := by
          simp [target, nextSection?, Stage.frames, Stage.walking, next, labels]
        exact ⟨following, rfl, label, by simp [labels], .inr ⟨_, goal, left⟩⟩

variable {wayBody : Way} {further : Nat → Way} {header stores : Set Store}

def waysFrom (first : Nat) (wayBody : Way) (further : Nat → Way) : Nat → Way
  | 0 => clause first wayBody (further 0)
  | index + 1 => further index

/-- Entering a clause or any later one comes to the same as walking its section first. -/
theorem chosen_cons (listed : stage.frame.sections.drop index = (entrance :: rest).map (·.labels))
    (beyond : rest = [] → ∀ before cursor after, ¬further 0 before cursor after)
    (origin : came = outcome (arriving waiting entrance.labels) wayBody) (cursor : Cursor) :
    chosen (entered (entrance :: rest) waiting) (waysFrom first wayBody further) cursor =
      {store | store ∈ arriving waiting entrance.labels ∧ cursor = .stopped (.entry first)} ∪
        ({store | cursor ≠ .leaving .fallthrough ∧ store ∈ came cursor} ∪
          chosen (entered rest (spread (stage.frames index) (without entrance.labels waiting) came)) further
            cursor) := by
  subst origin
  ext after
  constructor
  · intro given
    obtain ⟨door, before, ⟨other, found, coming⟩, passed⟩ := given
    cases door with
    | zero =>
      obtain rfl : entrance = other := by simpa using found
      rcases passed with ⟨stops, rfl⟩ | ⟨passed, elsewhere⟩ | ⟨middle, falls, passed⟩
      · exact .inl ⟨coming, stops⟩
      · exact .inr (.inl ⟨elsewhere, before, coming, passed⟩)
      · refine .inr (.inr ⟨0, middle, ?_, passed⟩)
        rw [entered_spread listed]
        exact .inr ⟨rfl, fun last => beyond last _ _ _ passed, before, coming, falls⟩
    | succ door =>
      refine .inr (.inr ⟨door, before, ?_, passed⟩)
      rw [entered_spread listed]
      exact .inl ⟨other, found, coming⟩
  · intro found
    rcases found with ⟨coming, stops⟩ | ⟨elsewhere, before, coming, passed⟩ | ⟨door, middle, coming, passed⟩
    · exact ⟨0, after, ⟨entrance, rfl, coming⟩, .inl ⟨stops, rfl⟩⟩
    · exact ⟨0, before, ⟨entrance, rfl, coming⟩, .inr (.inl ⟨passed, elsewhere⟩)⟩
    · rw [entered_spread listed] at coming
      rcases coming with ⟨other, found, coming⟩ | ⟨rfl, _, before, coming, falls⟩
      · exact ⟨door + 1, middle, ⟨other, found, coming⟩, passed⟩
      · exact ⟨0, before, ⟨entrance, rfl, coming⟩, .inr (.inr ⟨middle, falls, passed⟩)⟩

/-- What leaves a section by other jumps than fallthrough waits outside, whichever section comes last. -/
theorem spread_sections (listed : stage.frame.sections.drop index = (entrance :: rest).map (·.labels))
    {ahead whole : Cursor → Set Store}
    (split : ∀ jump, whole (.leaving jump) =
      {store | jump ≠ .fallthrough ∧ store ∈ came (.leaving jump)} ∪ ahead (.leaving jump))
    (settled : ahead (.leaving .fallthrough) = ∅) (last : Nat) :
    spread (stage.frames last) (without (rest.flatMap (·.labels))
        (spread (stage.frames index) (without entrance.labels waiting) came)) ahead =
      spread (stage.frames last) (without ((entrance :: rest).flatMap (·.labels)) waiting) whole := by
  have next := nextSection_eq listed
  funext label
  ext store
  by_cases later : label ∈ rest.flatMap (·.labels)
  · -- Nothing comes to a section once it has been walked.
    obtain ⟨other, member, own⟩ := List.mem_flatMap.mp later
    have own := entrance_own listed (List.mem_cons_of_mem _ member) own
    have falls {jump : Jump} (goal : target (stage.frames last) jump = some label) : jump = .fallthrough :=
      (stage.target_section own goal).1
    have among : label ∈ (entrance :: rest).flatMap (·.labels) := by
      rw [List.flatMap_cons]
      exact List.mem_append_right _ later
    simp only [spread, without, if_pos later, if_pos among, Set.mem_union, Set.mem_ofPred_eq, split]
    grind
  · have same : label ∈ (entrance :: rest).flatMap (·.labels) ↔ label ∈ entrance.labels := by
      rw [List.flatMap_cons, List.mem_append]
      exact or_iff_left later
    have goal {jump : Jump} : target (stage.frames index) jump = some label ↔
        jump ≠ .fallthrough ∧ target (stage.frames last) jump = some label := by
      constructor
      · intro found
        have other : jump ≠ .fallthrough := by
          rintro rfl
          rw [target, nextSection?, Stage.frames, List.head?_cons, Option.bind_some, Stage.walking, next] at found
          cases rest with
          | nil => cases found
          | cons following tail =>
            have first : label ∈ following.labels := List.mem_of_head? found
            exact later (by simp [first])
        exact ⟨other, stage.target_congr other index last ▸ found⟩
      · intro given
        obtain ⟨other, found⟩ := given
        exact stage.target_congr other index last ▸ found
    simp only [spread, without, if_neg later, same, Set.mem_union, Set.mem_ofPred_eq, split, goal]
    grind

theorem Recorded.single (clause : CaseClause) {live : Bool} {state : Assigned}
    (reached : live = true ↔ header.Nonempty) (summary : state.Summarizes stores) :
    Recorded first [clause] [⟨clause, live, state⟩] fun cursor =>
      {store | store ∈ header ∧ cursor = .stopped (.head first)} ∪
        {store | store ∈ stores ∧ cursor = .stopped (.entry first)} where
  listed := rfl
  live := by
    intro index arrival found
    cases index with
    | zero =>
      cases found
      simpa using reached
    | succ index => cases found
  state := by
    intro index arrival found
    cases index with
    | zero =>
      cases found
      simpa using summary
    | succ index => cases found
  within := by
    intro place store member
    rcases member with ⟨_, same⟩ | ⟨_, same⟩
    · cases same
      simp [Numbered, Place.clause]
    · cases same
      simp [Numbered, Place.clause]

theorem clausesOfCases_cons (clause : CaseClause) (later : List CaseClause) :
    Traversal.clausesOfCases (clause :: later) =
      clause :: (Traversal.clausesOfStmts clause.body ++ Traversal.clausesOfCases later) := by
  cases clause
  rfl

theorem CoversSections.cons {body : CheckM Unit} {bodies : List (CheckM Unit)} {inner innerRest : List String}
    {clause : CaseClause} {later : List CaseClause}
    (covers : Covers body "" inner (first + 1) (Traversal.clausesOfStmts clause.body) wayBody)
    (covered : CoversSections bodies innerRest (first + 1 + (Traversal.clausesOfStmts clause.body).length) later further)
    (silent : Silent innerRest wayBody)
    (beyond : later = [] → ∀ before cursor after, ¬further 0 before cursor after)
    (settled : Settled further) :
    CoversSections (body :: bodies) (inner ++ innerRest) first (clause :: later)
      (waysFrom first wayBody further) := by
  intro stage entrances index current view exits ends clausesListed listed inside sound detached closed exiting
  obtain ⟨closedHere, closedRest⟩ := closed_append.mp closed
  obtain ⟨entrance, rest, rfl, rfl, rfl⟩ : ∃ entrance rest, entrances = entrance :: rest ∧
      entrance.clause = clause ∧ rest.map (·.clause) = later := by
    cases entrances with
    | nil => cases clausesListed
    | cons entrance rest => exact ⟨entrance, rest, rfl, by simpa using clausesListed⟩
  -- The section is entered by what waits at its labels.
  refine .bind (runs_setUnreachable (.bind (runs_resolveAll entrance.labels (.bind (.bind ?_)))))
  have opened : View.receive { view with here := ∅ } entrance.labels = { view with
      here := arriving view.waiting entrance.labels
      waiting := without entrance.labels view.waiting } := by
    simp [View.receive]
  rw [opened]
  refine runs_arrive inside fun state summary => ?_
  have soundHere : View.Sound { view with
      frames := stage.frames index
      arrivals := view.arrivals ++ [⟨entrance.clause, stage.frame.live, state⟩]
      here := arriving view.waiting entrance.labels
      waiting := without entrance.labels view.waiting } := by
    refine ⟨(sound.receive entrance.labels).fresh, fun frame member => ?_⟩
    rcases List.mem_cons.mp member with rfl | member
    · have proper := sound.frames (stage.walking current) (by simp [inside, Stage.frames])
      exact ⟨proper.reserved, proper.sections⟩
    · exact sound.frames frame (by rw [inside]; exact List.mem_cons_of_mem _ member)
  refine (covers _ soundHere detached (closedHere.without _)).mono ?_
  intro _ middle given
  obtain ⟨here, follows⟩ := given
  refine .bind (runs_current fun exit exitSummary => ?_)
  rw [here] at exitSummary
  have followed : stage.frame.sections.drop (index + 1) = rest.map (·.labels) := by
    rw [← List.drop_drop, listed]
    rfl
  have ran := covered stage rest (index + 1) index middle _ _ rfl followed follows.frames
    (soundHere.follows soundHere.fresh follows) follows.attached
    ((closedRest.without _).follows soundHere silent follows) (exiting.merge exitSummary)
  refine ran.mono ?_
  intro last after given
  obtain ⟨lastSummary, final, followsRest⟩ := given
  have waits : middle.waiting = spread (stage.frames index) (without entrance.labels view.waiting)
      (outcome (arriving view.waiting entrance.labels) wayBody) := follows.waiting
  have split (cursor : Cursor) :
      chosen (entered (entrance :: rest) view.waiting) (waysFrom first wayBody further) cursor = _ :=
    chosen_cons listed (fun ended => beyond (by simp [ended])) rfl cursor
  rw [waits] at lastSummary followsRest
  refine ⟨?_, final, followsRest.frames, followsRest.attached, follows.serial.trans followsRest.serial, ?_, ?_⟩
  · rw [split]
    simpa [Set.union_assoc] using lastSummary
  · rw [followsRest.waiting]
    refine spread_sections listed (fun jump => ?_) ?_ final
    · simp [headed, split]
    · exact settled.headed _ _ _
  · obtain ⟨met, early, recorded⟩ := follows.arrivals
    obtain ⟨next, late, recordedRest⟩ := followsRest.arrivals
    refine ⟨⟨entrance.clause, stage.frame.live, state⟩ :: (met ++ next), ?_, ?_⟩
    · rw [late]
      change middle.arrivals ++ next = _
      rw [early]
      simp
    · have together := (Recorded.single entrance.clause stage.live summary).append (recorded.append recordedRest)
      rw [clausesOfCases_cons]
      refine together.congr fun place => ?_
      ext store
      simp only [headed, headNumbers, split, Set.mem_union, Set.mem_ofPred_eq, List.mem_cons]
      grind

end Section

/-! Leaving a switch. -/

def doors (stores : Set Store) (dispatch : Store → Option Nat → Store → Prop) (index : Nat) : Set Store :=
  {after | ∃ before ∈ stores, dispatch before (some index) after}

theorem outcome_switching {name : String} {heads : List Nat} {dispatch : Store → Option Nat → Store → Prop}
    {stores : Set Store} (cursor : Cursor) :
    outcome stores (switching name heads dispatch ways) cursor =
      {after | cursor = .onward ∧ ∃ before ∈ stores, dispatch before none after} ∪
        through name false (headed stores heads (chosen (doors stores dispatch) ways)) cursor := by
  ext after
  constructor
  · intro given
    obtain ⟨before, member, found⟩ := given
    rcases found with ⟨number, own, rfl, rfl⟩ | ⟨passed, rfl⟩ | ⟨index, entered, into, stand, passed, out⟩
    · exact .inr ⟨_, .inl ⟨member, number, own, rfl⟩, rfl⟩
    · exact .inl ⟨rfl, before, member, passed⟩
    · exact .inr ⟨stand, .inr ⟨index, entered, ⟨before, member, into⟩, passed⟩, out⟩
  · intro found
    rcases found with ⟨rfl, before, member, passed⟩ | ⟨stand, ⟨member, number, own, rfl⟩ | inside, out⟩
    · exact ⟨before, member, .inr (.inl ⟨passed, rfl⟩)⟩
    · cases out
      exact ⟨after, member, .inl ⟨number, own, rfl, rfl⟩⟩
    · obtain ⟨index, entered, ⟨before, member, into⟩, passed⟩ := inside
      exact ⟨before, member, .inr (.inr ⟨index, entered, into, stand, passed, out⟩)⟩

/-- The end of a switch that has sent its branches: what chose no section, what came to the end of one and
what broke out meet behind it. -/
theorem runs_finish (stage : Stage) {entrances : List Entrance} {bodies : List (CheckM Unit)}
    {inner : List String} {clauses : List CaseClause} {view : View} {passing : Assigned} {passed : Set Store}
    {current : Nat} (covers : CoversSections bodies inner first clauses ways)
    (settled : Settled ways)
    (clausesListed : entrances.map (·.clause) = clauses)
    (listed : stage.frame.sections = entrances.map (·.labels)) (inside : view.frames = stage.frames current)
    (sound : view.Sound) (detached : view.attached = "") (closed : Closed inner view.waiting)
    (arrivals : view.arrivals = stage.outside.arrivals)
    (kept : ∀ label ∉ stage.frame.sections.flatten, view.waiting label = stage.outside.waiting label)
    (passes : passing.Summarizes passed) :
    Runs (Switch.finish passing (sections entrances bodies) (some stage.frame.brk)) view fun _ behind =>
      Runs pop behind fun _ after => after.here = passed ∪ through stage.frame.label false
          (headed stage.header (headNumbers first clauses) (chosen (entered entrances view.waiting) ways)) .onward ∧
        Follows stage.outside stage.outside.waiting first (Traversal.clausesOfCases clauses)
          (through stage.frame.label false
            (headed stage.header (headNumbers first clauses) (chosen (entered entrances view.waiting) ways)))
          after := by
  have start : stage.frame.sections.drop 0 = entrances.map (·.labels) := listed
  have ran := covers stage entrances 0 current view unreachable ∅ clausesListed start inside sound detached closed
    Assigned.summarizes_unreachable
  refine .bind (ran.mono ?_)
  intro exits after given
  obtain ⟨exiting, last, follows⟩ := given
  refine .bind (runs_setCurrent (passes.merge exiting) (.bind (runs_resolve fun _ => .pure (runs_pop follows.frames ?_))))
  have base : without (entrances.flatMap (·.labels)) view.waiting = stage.outside.waiting := by
    rw [List.flatMap_def, ← listed]
    exact stage.without_sections kept
  have proper := sound.frames (stage.walking current) (by simp [inside, Stage.frames])
  have new := stage.walking_new proper last
  rw [base] at follows
  have follows : Follows (stage.outside.enter (stage.walking last) view.serial view.here)
      stage.outside.waiting first (Traversal.clausesOfCases clauses) _ after :=
    follows.rebase rfl rfl arrivals
  have waits : after.waiting = spread (stage.walking last :: stage.outside.frames)
      stage.outside.waiting _ := follows.waiting
  have straight : false = (stage.walking last).cont.isSome := by simp [Stage.walking, stage.straight]
  constructor
  · change _ = passed ∪ through (stage.walking last).label false _ .onward
    rw [through_onward new stage.sound, ← waits]
    simp [View.receive, headed, Set.union_assoc, Stage.walking]
  · change Follows _ _ _ _ (through (stage.walking last).label false _) _
    rw [straight]
    refine follows.leave new stage.sound rfl follows.attached (Nat.le_refl _) rfl ?_ ?_
    · intro label own
      by_cases broken : label = stage.frame.brk
      · simp [View.receive, without, broken]
      have among : label ∈ stage.frame.sections.flatten := by
        simpa [Frame.labels, Stage.walking, stage.straight, broken] using own
      have unused : stage.outside.waiting label = ∅ := stage.new.unused stage.sound own
      have nothing : after.waiting label = ∅ := by
        rw [waits, spread, unused, Set.empty_union]
        refine Set.eq_empty_of_forall_notMem fun store => ?_
        intro given
        obtain ⟨jump, goal, left⟩ := given
        obtain ⟨rfl, _⟩ := stage.target_section among goal
        rw [settled.headed] at left
        exact left
      simp [View.receive, without, nothing]
    · intro label foreign
      have other : label ≠ stage.frame.brk := fun same => foreign (by simp [Frame.labels, Stage.walking, same])
      simp [View.receive, without, other]

end ClauseReach.Checker
