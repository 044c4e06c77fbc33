import Mathlib.Data.List.Forall2
import ClauseReach.Proofs.Course

/-!
Visits of statements that are no switches. A visit leaves the statements around it as they were, and of the branches
that it sends none goes to a label that was made inside: each of them goes where a jump may go from outside, or to a
label of the program. A `continue` that names no loop is the one exception; its branch goes nowhere, and nobody
fetches it.
-/

namespace ClauseReach.Checker

open Source StateAlgebra

/-- The destinations of jumps from inside these statements. Nowhere is one of them if a jump may be lost. -/
def Bound (lost : Prop) (frames : List Frame) : Dest → Prop
  | some label => ∃ jump, target frames jump = some label
  | none => lost

/-- A statement around: none of its labels is written in the program, and its sections have labels. -/
structure Frame.Furnished (excuse : Prop) (frame : Frame) : Prop where
  unnamed : ∀ label ∈ frame.labels, label.kind ≠ .user
  filled : excuse ∨ [] ∉ frame.sections

/-- The frame of a statement of this name, which is a loop or is none. -/
structure Frame.Encloses (excuse : Prop) (name : String) (loop : Bool) (frame : Frame) : Prop
    extends frame.Furnished excuse where
  label : frame.label = name
  cont : frame.cont.isSome = loop

/-- The frames by name and by whether they belong to loops. -/
def around (frames : List Frame) : List (String × Bool) := frames.map fun frame => (frame.label, frame.cont.isSome)

/-- The walk passes these marks and comes back to where it was, with the name in front of the statement taken up. -/
abbrev Visits (excuse lost : Prop) (frames : List Frame) (name : String) (act : CheckM Unit) (marks : List Mark) :
    Prop :=
  Course excuse ⟨frames, name⟩ act ⟨[], Bound lost frames, marks⟩ fun _ later => later = ⟨frames, ""⟩

variable {excuse lost : Prop} {frames : List Frame} {frame : Frame} {name : String} {act next body : CheckM Unit}
  {marks more marksInit marksBody marksPost : List Mark}

theorem isNamed_some {label : Label} (unnamed : label.kind ≠ .user) : isNamed (some label) = false := by
  simp [isNamed, unnamed]

theorem Frame.mem_labels {label : Label} {labels : List Label} (own : label ∈ labels)
    (member : labels ∈ frame.sections) : label ∈ frame.labels :=
  List.mem_cons_of_mem _ (List.mem_append_right _ (List.mem_flatten.mpr ⟨labels, member, own⟩))

theorem Frame.Encloses.around_cons {loop : Bool} (encloses : frame.Encloses excuse name loop) :
    around (frame :: frames) = (name, loop) :: around frames := by
  simp [around, encloses.label, encloses.cont]

/-- A jump inside a statement stays inside or goes where a jump may go from outside. -/
theorem bound_cons {dest : Dest} (bound : Bound lost (frame :: frames) dest) :
    Bound lost frames dest ∨ dest ∈ frame.labels.map some := by
  cases dest with
  | none => exact .inl bound
  | some label =>
    obtain ⟨jump, found⟩ := bound
    rw [target_cons] at found
    split at found
    · cases found
      exact .inr (by simp [Frame.labels])
    · split at found
      · exact .inl ⟨jump, found⟩
      · exact .inr (List.mem_map_of_mem (List.mem_cons_of_mem _ (Frame.inside_mem found)))

/-! Statements without marks. -/

/-- The computation has no effect and stays where it is. -/
abbrev Quiet (excuse : Prop) (scope : Scope) (act : CheckM Unit) : Prop :=
  Course excuse scope act .none fun _ later => later = scope

section Quiet

variable {info : Info} {scope : Scope}

theorem Quiet.andThen (began : Quiet excuse scope act) (went : Quiet excuse scope next) :
    Quiet excuse scope (do act; next) := by
  refine .before (began.mono ?_)
  rintro _ _ rfl
  exact went

theorem quiet_assign (target : Expr) : Quiet excuse scope (assign info target) := by
  unfold assign
  split
  · exact .before (course_current fun _ => course_setCurrent rfl)
  · exact .pure rfl

theorem quiet_assignAll (targets : List Expr) : Quiet excuse scope (assignAll info targets) := by
  induction targets with
  | nil => exact .pure rfl
  | cons target rest ih => exact (quiet_assign target).andThen ih

theorem quiet_declareAll {specs : List Spec} (values : excuse ∨ specs.all Spec.isValues = true) :
    Quiet excuse scope (declareAll info specs) := by
  induction specs with
  | nil => exact .pure rfl
  | cons spec rest ih =>
    rw [List.all_cons, Bool.and_eq_true, or_and_left] at values
    cases spec with
    | type => exact .fault (values.1.resolve_right Bool.false_ne_true) _
    | values names initial =>
      cases initial with
      | nil => exact ih values.2
      | cons value others => exact (quiet_assignAll names).andThen (ih values.2)

theorem quiet_evaluate (expr : Expr) : Quiet excuse scope (evaluate info expr) := by
  unfold evaluate
  split
  · exact course_setCurrent rfl
  · exact .pure rfl

end Quiet

/-! Jumps and labels. -/

/-- A branch and nothing else: control does not pass it. -/
theorem Visits.of_branch {dest : Dest} (unnamed : isNamed dest = false) (bound : Bound lost frames dest) :
    Visits excuse lost frames "" (do Analysis.branch dest; Analysis.setUnreachable) [] := by
  refine Course.widen (.behind (course_branch unnamed (course_setCurrent rfl))) (.of_sent (fun other same => ?_) rfl)
  cases same
  exact bound

theorem visits_jump {jump : Jump} (furnished : ∀ frame ∈ frames, frame.Furnished excuse)
    (shape : excuse ∨ shaped (.jump jump) = true) (led : lost ∨ jump.misnames (around frames) = false) :
    Visits excuse lost frames "" (Checker.jump jump) jump.marks := by
  have stopped : Visits excuse lost frames "" Analysis.setUnreachable [] := .idle (course_setCurrent rfl)
  unfold Checker.jump
  cases jump with
  | «break» label =>
    refine .before (course_frames ?_)
    cases found : breakFrame? label frames with
    | none => exact stopped
    | some frame =>
      have member : frame ∈ frames := by
        cases label with
        | none => exact List.mem_of_head? found
        | some name => exact List.mem_of_find?_eq_some found
      have unnamed := (furnished frame member).unnamed frame.brk (List.mem_cons_self ..)
      exact Visits.of_branch (isNamed_some unnamed) ⟨.break label, by simp [target, found]⟩
  | «continue» label =>
    refine .before (course_frames ?_)
    cases found : continueFrame? label frames with
    | none => exact stopped
    | some frame =>
      cases known : frame.cont with
      | none =>
        -- Only by a label can a `continue` mean a statement that is no loop.
        refine Visits.of_branch (by rw [known]; rfl) ?_
        rw [known]
        refine led.resolve_right fun named => ?_
        cases label with
        | none => simpa [known] using List.find?_some found
        | some name =>
          have innermost : (around frames).find? (·.1 = name) = some (frame.label, false) := by
            rw [around, List.find?_map]
            exact Option.map_eq_some_iff.mpr ⟨frame, found, by rw [known]; rfl⟩
          simp [Jump.misnames, innermost] at named
      | some back =>
        have member : frame ∈ frames := by
          cases label with
          | none => exact List.mem_of_find?_eq_some found
          | some name => exact List.mem_of_find?_eq_some found
        have unnamed := (furnished frame member).unnamed back (by simp [Frame.labels, known])
        simp only [known]
        exact Visits.of_branch (isNamed_some unnamed) ⟨.continue label, by simp [target, found, known]⟩
  | goto label =>
    cases label with
    | none => exact .fault (shape.resolve_right Bool.false_ne_true) _
    | some name =>
      refine Course.widen (.behind (course_goto (course_setCurrent rfl))) (.of_sent (fun other same => ?_) rfl)
      cases same
      exact ⟨.goto (some name), rfl⟩
  | «fallthrough» =>
    refine .before (course_frames ?_)
    cases found : nextSection? frames with
    | none => exact stopped
    | some labels =>
      obtain ⟨frame, innermost, following⟩ := Option.bind_eq_some_iff.mp found
      have furnished := furnished frame (List.mem_of_head? innermost)
      have member := List.mem_of_getElem? following
      cases labels with
      | nil => exact .fault (furnished.filled.resolve_right fun filled => filled member) _
      | cons label rest =>
        have unnamed := furnished.unnamed label (Frame.mem_labels (List.mem_cons_self ..) member)
        exact Visits.of_branch (isNamed_some unnamed) ⟨.fallthrough, by simp [target, found]⟩
  | other => exact stopped

theorem Visits.labeled {label : String} {named : Bool}
    (visits : Visits excuse lost frames (if named then label else "") act marks) :
    Visits excuse lost frames "" (Checker.labeled label named act) (.label label :: marks) := by
  have within : Effect.Within
      (.andThen ⟨[], fun _ => False, [.label label]⟩ ⟨[], Bound lost frames, marks⟩)
      ⟨[], Bound lost frames, .label label :: marks⟩ :=
    .of_sent (fun dest sent => sent.elim (fun never => never.1.elim) id) rfl
  refine Course.widen (.bind (course_label fun _ => ?_)) within
  cases named with
  | false => exact visits
  | true => exact .before (course_attach visits)

/-! Sequences and choices. -/

theorem Visits.andThen (began : Visits excuse lost frames name act marks)
    (went : Visits excuse lost frames "" next more) :
    Visits excuse lost frames name (do act; next) (marks ++ more) :=
  Course.both began fun _ => went

theorem Visits.choose {condition : Expr} (whenTrue : Visits excuse lost frames "" act marks)
    (whenFalse : Visits excuse lost frames "" next more) :
    Visits excuse lost frames "" (Checker.choose condition act next) (marks ++ more) := by
  refine .before (course_current fun _ => .before (course_setCurrent (whenTrue.andThen ?_)))
  refine .before (course_current fun _ => .before (course_setCurrent (.behind (whenFalse.mono ?_))))
  rintro _ _ rfl
  exact course_join rfl

/-! Statements around others. Behind such a statement the branches to its end arrive. -/

theorem course_end {scope : Scope} {brk : Label} {state : Assigned} (unnamed : brk.kind ≠ .user) :
    Course excuse scope (do Analysis.setCurrent state; let _ ← Analysis.resolve (some brk))
      ⟨[some brk], fun _ => False, []⟩ fun _ later => later = scope :=
  .before (course_setCurrent (.behind (course_resolve (isNamed_some unnamed) fun _ => .pure rfl)))

theorem Course.toEnd {α : Type} {act : CheckM α} {next : α → CheckM Unit} {scope : Scope} {cleared : List Dest}
    {last : Unit → Scope → Prop} (brk : Label)
    (inside : Course excuse scope act ⟨cleared, fun dest => Bound lost frames dest ∨ dest = some brk, marks⟩
      fun value later => Course excuse later (next value) ⟨[some brk], fun _ => False, []⟩ last) :
    Course excuse scope (act >>= next) ⟨cleared, Bound lost frames, marks⟩ last := by
  refine (Course.bind inside).widen ⟨fun dest member => List.mem_append_left _ member, fun dest sent => ?_, ?_⟩
  · rcases sent with ⟨bound | same, kept⟩ | never
    · exact bound
    · exact absurd (List.mem_singleton.mpr same) kept
    · exact never.elim
  · exact List.append_nil _

theorem course_within {effect : Effect}
    (inside : Course excuse ⟨frame :: frames, ""⟩ body effect fun _ later => ∃ inner, later = ⟨inner :: frames, ""⟩) :
    Course excuse ⟨frames, ""⟩ (within frame body) effect fun _ later => later = ⟨frames, ""⟩ := by
  refine .before (course_push (.behind (inside.mono ?_)))
  rintro _ _ ⟨inner, rfl⟩
  exact course_pop rfl

/-! Loops. -/

theorem course_loopFrame {scope : Scope} {result : Frame → Scope → Prop}
    (holds : ∀ frame, frame.Encloses excuse name true → frame.sections = [] → result frame scope) :
    Course excuse scope (loopFrame name) .none result := by
  refine .before (course_reserve fun serial => .pure (holds _ ⟨⟨?_, .inr ?_⟩, rfl, rfl⟩ rfl))
  · simp [Frame.labels]
  · simp

/-- A round leaves no branch to the head of the loop. -/
theorem course_backEdge {post : CheckM Unit} (encloses : frame.Encloses excuse name true) (plain : frame.sections = [])
    (inside : Visits excuse lost (frame :: frames) "" body marksBody)
    (last : Visits excuse lost frames "" post marksPost) :
    Course excuse ⟨frames, ""⟩ (backEdge frame body post)
      ⟨[], fun dest => Bound lost frames dest ∨ dest = some frame.brk, marksBody ++ marksPost⟩
      fun _ later => later = ⟨frames, ""⟩ := by
  obtain ⟨back, known⟩ := Option.isSome_iff_exists.mp encloses.cont
  have unnamed : isNamed frame.cont = false := by
    rw [known]
    exact isNamed_some (encloses.unnamed back (by simp [Frame.labels, known]))
  have round := course_within (inside.mono fun _ later same => ⟨frame, same⟩)
  refine Course.widen (.andThen round fun _ => .bind (course_resolve unnamed fun _ => .behind (last.mono ?_)))
    (.of_sent (fun dest sent => ?_) rfl)
  · rintro _ _ rfl
    exact course_current fun _ => rfl
  · rcases sent with ⟨inner, kept⟩ | ⟨never, _⟩ | sent
    · refine (bound_cons inner).imp_right fun own => ?_
      have apart : dest ≠ some back := by
        rintro rfl
        exact kept (by simp [Effect.andThen, known])
      simpa [Frame.labels, known, plain, apart] using own
    · exact never.elim
    · exact .inl sent

/-- The rounds of a loop and the way out of it. -/
theorem visits_rounds {post : CheckM Unit} {state : Assigned} (encloses : frame.Encloses excuse name true)
    (plain : frame.sections = []) (inside : Visits excuse lost (frame :: frames) "" body marksBody)
    (last : Visits excuse lost frames "" post marksPost) :
    Visits excuse lost frames "" (do
      let _ ← backEdge frame body post
      Analysis.setCurrent state
      let _ ← Analysis.resolve (some frame.brk)) (marksBody ++ marksPost) := by
  refine .toEnd frame.brk ((course_backEdge encloses plain inside last).mono ?_)
  rintro _ _ rfl
  exact course_end (encloses.unnamed frame.brk (List.mem_cons_self ..))

theorem Visits.loop {init post : CheckM Unit} {condition : Option Expr}
    (initial : Visits excuse lost frames "" init marksInit)
    (inside : ∀ frame : Frame, frame.Encloses excuse name true → Visits excuse lost (frame :: frames) "" body marksBody)
    (last : Visits excuse lost frames "" post marksPost) :
    Visits excuse lost frames name (Checker.loop init condition body post) (marksInit ++ (marksBody ++ marksPost)) := by
  refine .before (course_detachLabel (initial.andThen ?_))
  refine .before (course_loopFrame fun frame encloses plain => .before (course_current fun entry => ?_))
  exact .before (course_setCurrent (visits_rounds encloses plain (inside frame encloses) last))

theorem Visits.range {targets : CheckM Unit} (assigned : Quiet excuse ⟨frames, ""⟩ targets)
    (inside : ∀ frame : Frame, frame.Encloses excuse name true → Visits excuse lost (frame :: frames) "" body marks) :
    Visits excuse lost frames name (Checker.range targets body) marks := by
  refine .before (course_detachLabel (.before (course_current fun entry => ?_)))
  refine .before (course_loopFrame fun frame encloses plain => .before (assigned.mono ?_))
  rintro _ _ rfl
  have nothing : Visits excuse lost frames "" (pure ()) [] := .idle (.pure rfl)
  simpa using visits_rounds encloses plain (inside frame encloses) nothing

/-! Selects. -/

/-- The walk of a clause of a select. -/
abbrev VisitsComm (excuse lost : Prop) (frames : List Frame) (act : CheckM Unit) (clause : CommClause) : Prop :=
  Visits excuse lost frames "" act (marksOf clause.comm ++ marksOfAll clause.body)

variable {clauses : List CommClause} {acts : List (CheckM Unit)}

theorem course_alternatives (each : List.Forall₂ (VisitsComm excuse lost frames) acts clauses)
    (entry exits : Assigned) :
    Course excuse ⟨frames, ""⟩ (alternatives entry exits acts) ⟨[], Bound lost frames, marksOfComms clauses⟩
      fun _ later => later = ⟨frames, ""⟩ := by
  induction each generalizing exits with
  | nil => exact .idle (.pure rfl)
  | @cons _ clause _ _ first _ ih =>
    rw [marksOfComms_cons]
    exact .before (course_setCurrent (.both first fun _ => .before (course_current fun state => ih _)))

theorem Visits.select (each : ∀ frame : Frame, frame.Encloses excuse name false →
      List.Forall₂ (VisitsComm excuse lost (frame :: frames)) acts clauses) :
    Visits excuse lost frames name (Checker.select acts) (marksOfComms clauses) := by
  refine .before (course_detachLabel (.before (course_reserve fun serial => .before (course_current fun entry => ?_))))
  let frame : Frame := { label := name, brk := ⟨serial, .break, name⟩ }
  have encloses : frame.Encloses excuse name false :=
    ⟨⟨by simp [frame, Frame.labels], .inr List.not_mem_nil⟩, rfl, rfl⟩
  have inside : Course excuse ⟨frame :: frames, ""⟩ (alternatives entry unreachable acts)
      ⟨[], fun dest => Bound lost frames dest ∨ dest = some frame.brk, marksOfComms clauses⟩
      fun _ later => later = ⟨frame :: frames, ""⟩ := by
    refine (course_alternatives (each frame encloses) entry unreachable).widen (.of_sent (fun dest bound => ?_) rfl)
    simpa [frame, Frame.labels] using bound_cons bound
  refine .before (course_push (.toEnd frame.brk (inside.mono ?_)))
  rintro exits _ rfl
  exact .before (course_pop (course_end (encloses.unnamed _ (List.mem_cons_self ..))))

end ClauseReach.Checker
