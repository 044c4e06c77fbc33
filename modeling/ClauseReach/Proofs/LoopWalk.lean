import ClauseReach.Proofs.SimpleWalk

/-!
Walks of conditions, loops and selects. A loop body is walked once; that this is enough rests on two facts: a
flow state that summarizes the stores of the first round summarizes those of all rounds, since stores only
grow, and ways out of any round are ways out of the loop.
-/

namespace ClauseReach.Checker

open Source StateAlgebra Paths

variable {first : Nat} {clauses later : List CaseClause} {name : String} {act next body post : CheckM Unit}
  {way further wayBody wayPost : Way} {inner innerRest : List String} {stores : Set Store}

/-- A statement that is not left by a jump, then another one. -/
theorem outcome_andThen (straight : Straight way) :
    outcome stores (andThen way further) = outcome (outcome stores way .onward) further := by
  funext cursor
  ext after
  constructor
  · intro given
    obtain ⟨before, member, passed⟩ := given
    rcases passed with ⟨left, elsewhere⟩ | ⟨middle, passed, rest⟩
    · exact absurd (straight _ _ _ left) elsewhere
    · exact ⟨middle, ⟨before, member, passed⟩, rest⟩
  · intro given
    obtain ⟨middle, ⟨before, member, passed⟩, rest⟩ := given
    exact ⟨before, member, .inr ⟨middle, passed, rest⟩⟩

theorem Covers.andThen (covers : Covers act "" [] first [] way)
    (straight : Straight way)
    (rest : Covers next "" inner first clauses further) :
    Covers (act >>= fun _ => next) "" inner first clauses (andThen way further) := by
  intro view sound detached closed
  refine .bind ((covers view sound detached (by simp [Closed])).mono ?_)
  intro _ middle given
  obtain ⟨here, follows⟩ := given
  have silent : Silent inner way := by
    intro label _ before after left
    cases straight _ _ _ left
  have ran := rest middle (sound.follows sound.fresh follows) follows.attached (closed.follows sound silent follows)
  refine ran.mono ?_
  intro _ after given
  obtain ⟨hereAfter, followsAfter⟩ := given
  rw [here] at hereAfter followsAfter
  rw [outcome_andThen straight]
  refine ⟨hereAfter, (follows.trans followsAfter).congr fun cursor elsewhere => ?_⟩
  have nowhere : outcome view.here way cursor = ∅ := by
    refine Set.eq_empty_of_forall_notMem fun store => ?_
    intro given
    obtain ⟨before, _, left⟩ := given
    exact elsewhere (straight _ _ _ left)
  simp [nowhere]

theorem Covers.detached {rest : String → CheckM Unit} (covers : Covers (rest name) "" inner first clauses way) :
    Covers (detachLabel >>= rest) name inner first clauses way := by
  intro view sound attached closed
  refine .bind (runs_detachLabel ?_)
  rw [attached]
  have ran := covers { view with attached := "" } ⟨sound.fresh, sound.frames⟩ rfl closed
  refine ran.mono ?_
  intro _ after given
  obtain ⟨here, follows⟩ := given
  exact ⟨here, follows.rebase rfl rfl rfl⟩

theorem outcome_either (condition : Expr) (cursor : Cursor) :
    outcome stores (either condition way further) cursor =
      outcome (Assigned.passing condition true stores) way cursor ∪
        outcome (Assigned.passing condition false stores) further cursor := by
  ext after
  simp only [outcome, either, Assigned.passing, Set.mem_union, Set.mem_ofPred_eq]
  grind

theorem Covers.choose (condition : Expr) (whenTrue : Covers act "" inner first clauses way)
    (whenFalse : Covers next "" innerRest (first + clauses.length) later further)
    (silent : Silent innerRest way) :
    Covers (Checker.choose condition act next) "" (inner ++ innerRest) first (clauses ++ later)
      (either condition way further) := by
  intro view sound detached closed
  obtain ⟨closedTrue, closedFalse⟩ := closed_append.mp closed
  refine .bind (runs_current fun state summary => ?_)
  obtain ⟨holds, fails⟩ := summary.split condition
  refine .bind (runs_setCurrent holds ?_)
  have ran := whenTrue { view with here := Assigned.passing condition true view.here }
    ⟨sound.fresh, sound.frames⟩ detached closedTrue
  refine .bind (ran.mono ?_)
  intro _ middle given
  obtain ⟨here, holding⟩ := given
  have follows : Follows view view.waiting first clauses _ middle := holding.rebase rfl rfl rfl
  refine .bind (runs_current fun kept keptSummary => ?_)
  refine .bind (runs_setCurrent fails ?_)
  have soundMiddle := sound.follows sound.fresh follows
  have closedMiddle := closedFalse.follows sound silent follows
  have ran := whenFalse { middle with here := Assigned.passing condition false view.here }
    ⟨soundMiddle.fresh, soundMiddle.frames⟩ follows.attached closedMiddle
  refine .bind (ran.mono ?_)
  intro _ after given
  obtain ⟨hereAfter, followsAfter⟩ := given
  refine runs_join keptSummary ⟨?_, ?_⟩
  · rw [outcome_either, hereAfter, here, Set.union_comm]
  · have failing : Follows middle middle.waiting _ later _ after := followsAfter.rebase rfl rfl rfl
    have both := (follows.trans failing).congr fun cursor _ => (outcome_either condition cursor).symm
    exact ⟨both.frames, both.attached, both.serial, both.waiting, both.arrivals⟩

/-! Leaving an enclosing statement. -/

/-- Where the ways inside a statement lead, seen from outside. -/
def through (name : String) (loop : Bool) (came : Cursor → Set Store) : Cursor → Set Store := fun cursor =>
  {store | ∃ stand, store ∈ came stand ∧ stand.out name loop = some cursor}

theorem outcome_leaving (loop : Bool) :
    outcome stores (leaving name loop way) = through name loop (outcome stores way) := by
  funext cursor
  ext after
  simp only [outcome, leaving, through, Set.mem_ofPred_eq]
  grind

/-- The frame has been made with labels of its own between these serial numbers. -/
structure Frame.New (serial later : Nat) (frame : Frame) : Prop where
  reserved : ∀ label ∈ frame.labels, label.kind ≠ .user ∧ serial ≤ label.serial ∧ label.serial < later
  sections : [] ∉ frame.sections
  distinct : frame.labels.Nodup

section Leaving

variable {view : View} {frame : Frame} {limit : Nat} {came : Cursor → Set Store}

theorem Frame.New.proper (new : frame.New view.serial limit) : frame.Proper limit where
  reserved := fun label member => ⟨(new.reserved label member).1, (new.reserved label member).2.2⟩
  sections := new.sections

theorem Frame.New.unused (new : frame.New view.serial limit) (sound : view.Sound) {label : Label}
    (own : label ∈ frame.labels) : view.waiting label = ∅ :=
  sound.fresh label (new.reserved label own).1 (new.reserved label own).2.1

theorem Frame.New.unknown (new : frame.New view.serial limit) (sound : view.Sound) {label : Label}
    (own : label ∈ frame.labels) (jump : Jump) : target view.frames jump ≠ some label := by
  intro found
  have := sound.target_reserved found (new.reserved label own).1
  have := (new.reserved label own).2.1
  omega

/-- Only a break leads to the label for breaks. -/
theorem Frame.New.target_brk (new : frame.New view.serial limit) (sound : view.Sound) (jump : Jump) :
    target (frame :: view.frames) jump = some frame.brk ↔ jump.breaks frame.label = true := by
  rw [target_cons]
  constructor
  · intro found
    split at found
    · assumption
    split at found
    · exact absurd found (new.unknown sound (by simp [Frame.labels]) jump)
    · exact absurd (Frame.inside_mem found) (List.nodup_cons.mp new.distinct).1
  · intro breaks
    rw [if_pos breaks]

theorem arriving_brk (new : frame.New view.serial limit) (sound : view.Sound) :
    arriving (spread (frame :: view.frames) view.waiting came) [frame.brk] =
      {store | ∃ jump, jump.breaks frame.label = true ∧ store ∈ came (.leaving jump)} := by
  ext store
  simp only [arriving, spread, List.mem_singleton, exists_eq_left, new.unused sound (List.mem_cons_self ..),
    new.target_brk sound, Set.empty_union, Set.mem_ofPred_eq]

theorem Cursor.out_eq_onward {loop : Bool} {stand : Cursor} :
    stand.out name loop = some .onward ↔
      (stand = .onward ∧ loop = false) ∨ ∃ jump, stand = .leaving jump ∧ jump.breaks name = true := by
  cases stand with
  | onward => cases loop <;> simp [Cursor.out]
  | leaving jump =>
    by_cases breaks : jump.breaks name = true
    · simp [Cursor.out, breaks]
    · by_cases escapes : jump.escapes name loop = true <;> simp [Cursor.out, breaks, escapes]
  | stopped place => simp [Cursor.out]

/-- Behind the statement meet those who came to its end and those who broke out of it. -/
theorem through_onward (new : frame.New view.serial limit) (sound : view.Sound) (loop : Bool) :
    through frame.label loop came .onward =
      {store | loop = false ∧ store ∈ came .onward} ∪
        arriving (spread (frame :: view.frames) view.waiting came) [frame.brk] := by
  rw [arriving_brk new sound]
  ext store
  simp only [through, Cursor.out_eq_onward, Set.mem_union, Set.mem_ofPred_eq]
  grind

theorem through_stopped (loop : Bool) (place : Place) :
    through name loop came (.stopped place) = came (.stopped place) := by
  ext store
  constructor
  · intro given
    obtain ⟨stand, member, out⟩ := given
    rw [Cursor.out_eq_stopped out] at member
    exact member
  · intro member
    exact ⟨_, member, rfl⟩

/-- Jumps that leave the statement behind go where they would go without it; no label of its own keeps
anything. -/
theorem spread_through (new : frame.New view.serial limit) (sound : view.Sound) {left : Waiting}
    (gone : ∀ label ∈ frame.labels, left label = ∅)
    (kept : ∀ label ∉ frame.labels, left label = spread (frame :: view.frames) view.waiting came label) :
    left = spread view.frames view.waiting (through frame.label frame.cont.isSome came) := by
  funext label
  by_cases own : label ∈ frame.labels
  · rw [gone label own, spread, new.unused sound own, Set.empty_union]
    refine (Set.eq_empty_of_forall_notMem fun store => ?_).symm
    intro given
    obtain ⟨jump, found, _⟩ := given
    exact new.unknown sound own jump found
  · rw [kept label own]
    ext store
    refine or_congr_right ⟨?_, ?_⟩
    · intro given
      obtain ⟨jump, found, member⟩ := given
      rw [target_cons] at found
      split at found
      · cases found
        simp [Frame.labels] at own
      next stays =>
        split at found
        next escapes => exact ⟨jump, found, .leaving jump, member, by simp [Cursor.out, stays, escapes]⟩
        next => exact absurd (List.mem_cons_of_mem _ (Frame.inside_mem found)) own
    · intro given
      obtain ⟨jump, found, stand, member, out⟩ := given
      obtain ⟨rfl, escapes⟩ := Cursor.out_eq_leaving out
      refine ⟨jump, ?_, member⟩
      have stays : ¬jump.breaks frame.label = true := by
        intro breaks
        simp [Cursor.out, breaks] at out
      rw [target_cons, if_neg stays, if_pos escapes]
      exact found

theorem Frame.New.grows (new : frame.New view.serial limit) : view.serial ≤ limit := by
  have := (new.reserved frame.brk (List.mem_cons_self ..)).2
  omega

/-- The view inside the statement. -/
def View.enter (view : View) (frame : Frame) (serial : Nat) (stores : Set Store) : View :=
  { view with frames := frame :: view.frames, serial, here := stores }

theorem View.Sound.enter (sound : view.Sound) (new : frame.New view.serial limit) (stores : Set Store) :
    (view.enter frame limit stores).Sound where
  fresh := fun label reserved fresh => sound.fresh label reserved (new.grows.trans fresh)
  frames := by
    intro inside member
    rcases List.mem_cons.mp member with rfl | member
    · exact new.proper
    · exact (sound.frames inside member).mono new.grows

/-- The end of a statement: its frame is gone, and nothing waits at its labels. -/
theorem Follows.leave {after last : View} (new : frame.New view.serial limit) (sound : view.Sound)
    (follows : Follows (view.enter frame limit stores) view.waiting first clauses came after)
    (frames : last.frames = view.frames) (attached : last.attached = "") (serial : after.serial ≤ last.serial)
    (arrivals : last.arrivals = after.arrivals) (gone : ∀ label ∈ frame.labels, last.waiting label = ∅)
    (kept : ∀ label ∉ frame.labels, last.waiting label = after.waiting label) :
    Follows view view.waiting first clauses (through frame.label frame.cont.isSome came) last where
  frames := frames
  attached := attached
  serial := new.grows.trans (follows.serial.trans serial)
  waiting := spread_through new sound gone fun label foreign => by
    rw [kept label foreign, follows.waiting]
    rfl
  arrivals := by
    obtain ⟨met, listed, recorded⟩ := follows.arrivals
    exact ⟨met, arrivals.trans listed, recorded.congr fun place => (through_stopped _ place).symm⟩

/-- A round of a loop and the ways out of it. What flows back to the head is not looked at. -/
theorem runs_rounds (view : View) (stores : Set Store) {cont : Label} {state : Assigned} {leave : Set Store}
    (new : frame.New view.serial limit) (loop : frame.cont = some cont) (flat : frame.sections = []) (sound : view.Sound)
    (detached : view.attached = "") (closed : Closed inner view.waiting)
    (covers : Covers body "" inner first clauses wayBody) (covered : Covers post "" [] first [] wayPost)
    (straight : Straight wayPost)
    (leaves : state.Summarizes leave) :
    Runs (do
        let _ ← backEdge frame body post
        Analysis.setCurrent state
        let _ ← Analysis.resolve (some frame.brk))
      { view with serial := limit, here := stores }
      fun _ after =>
        after.here = leave ∪ through frame.label true (outcome stores wayBody) .onward ∧
          Follows view view.waiting first clauses (through frame.label true (outcome stores wayBody)) after := by
  have labels : frame.labels = [frame.brk, cont] := by simp [Frame.labels, loop, flat]
  refine .bind (.bind (.bind (runs_push (.bind ?_))))
  refine (covers (view.enter frame limit stores) (sound.enter new stores) detached closed).mono ?_
  intro _ inside given
  obtain ⟨_, follows⟩ := given
  have soundInside := (sound.enter new stores).follows (sound.enter new stores).fresh follows
  refine runs_pop follows.frames ?_
  rw [loop]
  refine .bind (runs_resolve fun _ => .bind ?_)
  have soundOutside : View.Sound { inside with frames := view.frames } :=
    ⟨soundInside.fresh, fun frame member =>
      soundInside.frames frame (follows.frames.symm ▸ List.mem_cons_of_mem _ member)⟩
  have ran := covered _ (soundOutside.receive [cont]) follows.attached (by simp [Closed])
  refine ran.mono ?_
  intro _ last given
  obtain ⟨_, followsPost⟩ := given
  refine runs_current fun _ _ => .bind (runs_setCurrent leaves (.bind (runs_resolve fun _ => .pure ?_)))
  -- The post statement is passed without a jump, so it leaves the branches alone.
  have kept : last.waiting = without [cont] inside.waiting := by
    rw [followsPost.waiting]
    refine spread_none fun jump => Set.eq_empty_of_forall_notMem fun store => ?_
    intro given
    obtain ⟨before, _, left⟩ := given
    cases straight _ _ _ left
  have apart : frame.brk ≠ cont := by simpa [labels] using new.distinct
  have waits : inside.waiting = spread (frame :: view.frames) view.waiting (outcome stores wayBody) :=
    follows.waiting
  constructor
  · rw [through_onward new sound, ← waits]
    simp [View.receive, arriving, kept, without, apart]
  · have looped : frame.cont.isSome = true := by simp [loop]
    rw [← looped]
    refine follows.leave new sound followsPost.frames followsPost.attached followsPost.serial ?_ ?_ ?_
    · obtain ⟨met, listed, recorded⟩ := followsPost.arrivals
      have none_met : met = [] := by simpa using recorded.listed
      simpa [none_met, View.receive] using listed
    · intro label own
      rw [labels] at own
      simp only [List.mem_cons, List.not_mem_nil, or_false] at own
      rcases own with rfl | rfl <;> simp [View.receive, without, kept]
    · intro label foreign
      rw [labels] at foreign
      simp only [List.mem_cons, List.not_mem_nil, or_false, not_or] at foreign
      simp [View.receive, without, kept, foreign.1, foreign.2]

end Leaving

/-! Loops. -/

/-- The frame of a loop whose labels begin at this serial number. -/
def newLoop (serial : Nat) (name : String) : Frame :=
  { label := name, brk := ⟨serial, .break, name⟩, cont := some ⟨serial + 1, .continue, name⟩ }

theorem newLoop_new (serial : Nat) (name : String) : (newLoop serial name).New serial (serial + 2) where
  reserved := by simp [newLoop, Frame.labels]
  sections := by simp [newLoop]
  distinct := by simp [newLoop, Frame.labels]

theorem runs_loopFrame {view : View} {post : Frame → View → Prop}
    (holds : post (newLoop view.serial name) { view with serial := view.serial + 2 }) :
    Runs (loopFrame name) view post :=
  .bind (runs_reserve (.pure holds))

/-- The stores with which a loop comes to its head, after any number of rounds. -/
def heads (name : String) (mayEnter : Bool) (body post : Way) (stores : Set Store) : Set Store :=
  {head | ∃ before ∈ stores,
    Relation.ReflTransGen (fun head next => mayEnter = true ∧ Round name body post head next) before head}

theorem outcome_looping (mayEnter mayLeave : Bool) (cursor : Cursor) :
    outcome stores (looping name mayEnter mayLeave wayBody wayPost) cursor =
      {head | mayLeave = true ∧ cursor = .onward ∧ head ∈ heads name mayEnter wayBody wayPost stores} ∪
        through name true
          (outcome {head | head ∈ heads name mayEnter wayBody wayPost stores ∧ mayEnter = true} wayBody) cursor := by
  rw [← outcome_leaving]
  ext after
  constructor
  · intro given
    obtain ⟨before, member, head, rounds, ways⟩ := given
    have reached : head ∈ heads name mayEnter wayBody wayPost stores := ⟨before, member, rounds⟩
    rcases ways with ⟨leave, rfl, rfl⟩ | ⟨enter, left⟩
    · exact .inl ⟨leave, rfl, reached⟩
    · exact .inr ⟨head, ⟨reached, enter⟩, left⟩
  · intro found
    rcases found with ⟨leave, rfl, before, member, rounds⟩ | ⟨head, ⟨⟨before, member, rounds⟩, enter⟩, left⟩
    · exact ⟨before, member, after, rounds, .inl ⟨leave, rfl, rfl⟩⟩
    · exact ⟨before, member, head, rounds, .inr ⟨enter, left⟩⟩

theorem subset_heads {mayEnter : Bool} : stores ⊆ heads name mayEnter wayBody wayPost stores :=
  fun store member => ⟨store, member, .refl⟩

/-- No later round comes to the head with less than the first. -/
theorem heads_above {jumps allowed : Jump → Prop} {numbers covered : Nat → Prop} {mayEnter : Bool}
    (orderly : Orderly jumps numbers wayBody) (after : Orderly allowed covered wayPost) :
    ∀ head ∈ heads name mayEnter wayBody wayPost stores, ∃ lower ∈ stores, lower ⊆ head := by
  intro head given
  obtain ⟨before, member, rounds⟩ := given
  exact ⟨before, member, rounds_grow orderly after rounds⟩

/-- The condition of a loop; without one, the loop goes on. -/
theorem Summarizes.split_option {entry : Assigned} (summary : entry.Summarizes stores) (condition : Option Expr) :
    (match condition with
      | some condition => condition.split entry
      | none => (entry, unreachable)).1.Summarizes {store | store ∈ stores ∧ condition.all (Expr.mayBe true) = true} ∧
    (match condition with
      | some condition => condition.split entry
      | none => (entry, unreachable)).2.Summarizes {store | store ∈ stores ∧ condition.any (Expr.mayBe false) = true} := by
  cases condition with
  | none => simpa using ⟨summary, Assigned.summarizes_unreachable⟩
  | some condition => exact summary.split condition

theorem Covers.loop {init : CheckM Unit} {jumps allowed : Jump → Prop} {numbers covered : Nat → Prop}
    (initial : Covers init "" [] first [] way)
    (straight : Straight way) (condition : Option Expr)
    (covers : Covers body "" inner first clauses wayBody) (orderly : Orderly jumps numbers wayBody)
    (last : Covers post "" [] first [] wayPost) (orderlyPost : Orderly allowed covered wayPost)
    (straightPost : Straight wayPost) :
    Covers (Checker.loop init condition body post) name inner first clauses
      (Paths.andThen way
        (looping name (condition.all (·.mayBe true)) (condition.any (·.mayBe false)) wayBody wayPost)) := by
  refine Covers.detached (initial.andThen straight ?_)
  intro view sound detached closed
  refine .bind (runs_loopFrame (.bind (runs_current fun entry summary => ?_)))
  have summary : entry.Summarizes
      (heads name (condition.all (·.mayBe true)) wayBody wayPost view.here) :=
    summary.grow subset_heads (heads_above orderly orderlyPost)
  obtain ⟨holds, fails⟩ := Summarizes.split_option summary condition
  refine .bind (runs_setCurrent holds ?_)
  refine Runs.mono (runs_rounds view _ (newLoop_new view.serial name) rfl rfl sound detached closed covers last
    straightPost fails) ?_
  intro _ after given
  obtain ⟨here, follows⟩ := given
  constructor
  · rw [here, outcome_looping]
    refine congrArg₂ _ ?_ rfl
    ext head
    simp [and_comm]
  · refine follows.congr fun cursor elsewhere => ?_
    rw [outcome_looping]
    simp [elsewhere, newLoop]

theorem Covers.range {targets : CheckM Unit} {objects : Store} {jumps : Jump → Prop} {numbers : Nat → Prop}
    (assigns : Assigns targets objects) (covers : Covers body "" inner first clauses wayBody)
    (orderly : Orderly jumps numbers wayBody) :
    Covers (Checker.range targets body) name inner first clauses
      (looping name true true (Paths.andThen (assigning objects) wayBody) stay) := by
  refine Covers.detached ?_
  intro view sound detached closed
  have round : Orderly jumps numbers (Paths.andThen (assigning objects) wayBody) :=
    (orderly_assigning objects).andThen orderly
  have lasting : Orderly jumps numbers stay := orderly_stay
  refine Runs.grow (heads name true (Paths.andThen (assigning objects) wayBody) stay view.here) subset_heads
    (heads_above round lasting) ?_
  refine .bind (runs_current fun entry summary => .bind (runs_loopFrame (.bind ((assigns _).mono ?_))))
  intro _ _ same
  subst same
  have next : Covers (pure ()) "" [] first [] stay := covers_stay
  refine Runs.mono (runs_rounds view _ (newLoop_new view.serial name) rfl rfl sound detached closed covers
    next (fun _ _ _ passed => passed.1) summary) ?_
  intro _ after given
  obtain ⟨here, follows⟩ := given
  have entered : outcome (heads name true (Paths.andThen (assigning objects) wayBody) stay view.here)
      (Paths.andThen (assigning objects) wayBody) = _ := outcome_andThen fun _ _ _ passed => passed.1
  constructor
  · rw [here, outcome_looping]
    simp [entered, newLoop]
  · refine follows.congr fun cursor elsewhere => ?_
    rw [outcome_looping]
    simp [entered, elsewhere, newLoop]

/-! Selects. -/

/-- The walks of alternatives cover the ways through any one of them, each from the same stores. -/
def CoversAny (acts : List (CheckM Unit)) (inner : List String) (first : Nat) (clauses : List CaseClause)
    (way : Way) : Prop :=
  ∀ (view : View) (entry exits : Assigned) (stores ends : Set Store), view.Sound → view.attached = "" →
    Closed inner view.waiting → entry.Summarizes stores → exits.Summarizes ends →
      Runs (alternatives entry exits acts) view fun state after =>
        state.Summarizes (ends ∪ outcome stores way .onward) ∧
          Follows view view.waiting first clauses (outcome stores way) after

theorem coversAny_nil : CoversAny [] [] first [] stuck := by
  intro view entry exits stores ends _ detached _ _ summary
  refine .pure ⟨by simpa [outcome_stuck] using summary, ?_⟩
  exact .stay view.here detached fun cursor _ => outcome_stuck stores cursor

theorem CoversAny.cons {acts : List (CheckM Unit)} (covers : Covers act "" inner first clauses way)
    (rest : CoversAny acts innerRest (first + clauses.length) later further) (silent : Silent innerRest way) :
    CoversAny (act :: acts) (inner ++ innerRest) first (clauses ++ later)
      (fun before cursor after => way before cursor after ∨ further before cursor after) := by
  intro view entry exits stores ends sound detached closed entering exiting
  obtain ⟨closedHere, closedRest⟩ := closed_append.mp closed
  have union (cursor : Cursor) :
      outcome stores (fun before cursor after => way before cursor after ∨ further before cursor after) cursor =
        outcome stores way cursor ∪ outcome stores further cursor := by
    ext after
    simp only [outcome, Set.mem_union, Set.mem_ofPred_eq]
    grind
  refine .bind (runs_setCurrent entering (.bind ?_))
  have ran := covers { view with here := stores } ⟨sound.fresh, sound.frames⟩ detached closedHere
  refine ran.mono ?_
  intro _ middle given
  obtain ⟨here, followsHere⟩ := given
  have follows : Follows view view.waiting first clauses _ middle := followsHere.rebase rfl rfl rfl
  refine .bind (runs_current fun state summary => ?_)
  rw [here] at summary
  have ranRest := rest middle entry (merge exits state) stores _ (sound.follows sound.fresh follows)
    follows.attached (closedRest.follows sound silent follows) entering (exiting.merge summary)
  refine ranRest.mono ?_
  intro last after given
  obtain ⟨lastSummary, followsRest⟩ := given
  refine ⟨?_, (follows.trans followsRest).congr fun cursor _ => (union cursor).symm⟩
  rw [union, ← Set.union_assoc]
  exact lastSummary

/-- The frame of a select whose label is of this serial number. -/
def newSelect (serial : Nat) (name : String) : Frame := { label := name, brk := ⟨serial, .break, name⟩ }

theorem newSelect_new (serial : Nat) (name : String) : (newSelect serial name).New serial (serial + 1) where
  reserved := by simp [newSelect, Frame.labels]
  sections := by simp [newSelect]
  distinct := by simp [newSelect, Frame.labels]

theorem Covers.select {acts : List (CheckM Unit)} (covers : CoversAny acts inner first clauses way) :
    Covers (Checker.select acts) name inner first clauses (leaving name false way) := by
  refine Covers.detached ?_
  intro view sound detached closed
  have new := newSelect_new view.serial name
  have labels : (newSelect view.serial name).labels = [(newSelect view.serial name).brk] := rfl
  refine .bind (runs_reserve (.bind (runs_current fun entry summary => .bind (runs_push (.bind ?_)))))
  have ran := covers (view.enter (newSelect view.serial name) (view.serial + 1) view.here) entry unreachable
    view.here ∅ (sound.enter new view.here) detached closed summary Assigned.summarizes_unreachable
  refine ran.mono ?_
  intro exits inside given
  obtain ⟨exiting, follows⟩ := given
  refine .bind (runs_pop follows.frames (.bind (runs_setCurrent exiting (.bind (runs_resolve fun _ => .pure ?_)))))
  have waits : inside.waiting = spread (newSelect view.serial name :: view.frames) view.waiting
      (outcome view.here way) := follows.waiting
  rw [outcome_leaving]
  constructor
  · have behind : through name false (outcome view.here way) .onward = _ := through_onward new sound false
    rw [behind, ← waits]
    simp [View.receive, newSelect]
  · refine follows.leave new sound rfl follows.attached (Nat.le_refl _) rfl ?_ ?_
    · intro label own
      rw [labels] at own
      exact if_pos own
    · intro label foreign
      rw [labels] at foreign
      exact if_neg foreign

end ClauseReach.Checker
