import ClauseReach.Proofs.TypeSwitchWalk
import ClauseReach.Proofs.Visits

/-!
Visits of switches. Dispatch sends branches to labels of sections only, and the sections are all passed afterwards;
what a `fallthrough` sends goes to the section that is passed next. So no branch to a label of a switch is left
behind it, whether or not the switch knows its target, and whatever its cases are.
-/

namespace ClauseReach.Checker

open Source StateAlgebra

/-- The entrances stand for these clauses, and their labels are not written in the program. -/
structure Opened (excuse : Prop) (clauses : List CaseClause) (entrances : List Entrance) : Prop where
  listed : entrances.map (·.clause) = clauses
  unnamed : ∀ label ∈ entrances.flatMap (·.labels), label.kind ≠ .user
  filled : excuse ∨ ∀ entrance ∈ entrances, entrance.labels ≠ []

/-- The walk of the body of a clause, in a switch of this name. -/
abbrev VisitsCase (excuse lost : Prop) (frames : List Frame) (name : String) (body : CheckM Unit)
    (clause : CaseClause) : Prop :=
  ∀ frame : Frame, frame.Encloses excuse name false →
    Visits excuse lost (frame :: frames) "" body (marksOfAll clause.body)

variable {excuse lost : Prop} {frames : List Frame} {frame : Frame} {name : String} {clauses : List CaseClause}
  {entrances rest : List Entrance} {bodies : List (CheckM Unit)} {scope : Scope}

/-! Sections. -/

/-- From inside a section, jumps lead out of the switch, behind it or into the next section. -/
theorem bound_section {dest : Dest} {index : Nat} (closed : frame.cont = none)
    (following : frame.sections.drop (index + 1) = rest.map (·.labels))
    (bound : Bound lost ({ frame with current := index } :: frames) dest) :
    (Bound lost frames dest ∨ dest = some frame.brk) ∨ dest ∈ (rest.flatMap (·.labels)).map some := by
  cases dest with
  | none => exact .inl (.inl bound)
  | some label =>
    obtain ⟨jump, found⟩ := bound
    rw [target_cons] at found
    split at found
    · exact .inl (.inr found.symm)
    · split at found
      · exact .inl (.inl ⟨jump, found⟩)
      · refine .inr (List.mem_map_of_mem ?_)
        -- A switch has no label for `continue`, so what stays inside is a `fallthrough`.
        unfold Frame.inside at found
        split at found
        · rw [closed] at found
          cases found
        · obtain ⟨labels, next, first⟩ := Option.bind_eq_some_iff.mp found
          have member : labels ∈ rest.map (·.labels) := by
            rw [← following]
            exact List.mem_of_getElem? ((List.getElem?_drop (i := index + 1) (j := 0)).trans next)
          obtain ⟨entrance, listed, rfl⟩ := List.mem_map.mp member
          exact List.mem_flatMap.mpr ⟨entrance, listed, List.mem_of_head? first⟩
        · cases found

theorem course_section {body : CheckM Unit} {clause : CaseClause} (encloses : frame.Encloses excuse name false)
    (visits : VisitsCase excuse lost frames name body clause) (index current : Nat) :
    Course excuse ⟨{ frame with current } :: frames, ""⟩ (do arrive index clause; body)
      ⟨[], Bound lost ({ frame with current := index } :: frames), .clause clause :: marksOfAll clause.body⟩
      fun _ later => later = ⟨{ frame with current := index } :: frames, ""⟩ := by
  have inner : Frame.Encloses excuse name false { frame with current := index } :=
    ⟨⟨encloses.unnamed, encloses.filled⟩, encloses.label, encloses.cont⟩
  refine Course.widen (.bind (course_arrive index clause (visits _ inner))) (.of_sent (fun dest sent => ?_) rfl)
  exact sent.elim (fun never => never.1.elim) id

theorem course_runSections (encloses : frame.Encloses excuse name false)
    (parts : List.Forall₂ (VisitsCase excuse lost frames name) bodies clauses)
    (listed : entrances.map (·.clause) = clauses) (index : Nat)
    (sections : frame.sections.drop index = entrances.map (·.labels)) (current : Nat) (exits : Assigned) :
    Course excuse ⟨{ frame with current } :: frames, ""⟩
      (Switch.runSections exits (((entrances.zip bodies).zipIdx index).map sectionOf))
      ⟨(entrances.flatMap (·.labels)).map some, fun dest => Bound lost frames dest ∨ dest = some frame.brk,
        marksOfCases clauses⟩
      fun _ later => ∃ last, later = ⟨{ frame with current := last } :: frames, ""⟩ := by
  have closed : frame.cont = none := Option.not_isSome_iff_eq_none.mp (by simp [encloses.cont])
  induction parts generalizing entrances index current exits with
  | nil =>
    obtain rfl := List.map_eq_nil_iff.mp listed
    exact .idle (.pure ⟨current, rfl⟩)
  | @cons body clause _ later first _ ih =>
    obtain ⟨entrance, rest, rfl, rfl, restListed⟩ := List.map_eq_cons_iff.mp listed
    have following : frame.sections.drop (index + 1) = rest.map (·.labels) := by
      rw [← List.drop_drop, sections]
      rfl
    have unnamed : ∀ dest ∈ entrance.labels.map some, isNamed dest = false := by
      intro dest member
      obtain ⟨label, own, rfl⟩ := List.mem_map.mp member
      have among : entrance.labels ∈ frame.sections := List.mem_of_mem_drop (by rw [sections]; simp)
      exact isNamed_some (encloses.unnamed label (Frame.mem_labels own among))
    have entered := course_section encloses first index current
    refine .before (course_setCurrent (Course.widen (.bind (course_resolveAll unnamed (.andThen entered fun _ =>
      .before (course_current fun state => ih restListed _ following index _)))) ⟨?_, ?_, ?_⟩))
    · intro dest member
      simpa [Effect.andThen, sectionOf] using member
    · rintro dest (⟨never, _⟩ | ⟨bound, kept⟩ | sent)
      · exact never.elim
      · exact (bound_section closed following bound).resolve_right kept
      · exact sent
    · exact (marksOfCases_cons entrance.clause later).symm

/-! Dispatch. -/

/-- A switch while it is walked: its frame, its entrances and the walks of its clauses. -/
structure Staged (excuse lost : Prop) (frames : List Frame) (name : String) (frame : Frame)
    (entrances : List Entrance) (bodies : List (CheckM Unit)) (clauses : List CaseClause) : Prop where
  encloses : frame.Encloses excuse name false
  sectioned : frame.sections = entrances.map (·.labels)
  listed : entrances.map (·.clause) = clauses
  parts : List.Forall₂ (VisitsCase excuse lost frames name) bodies clauses

/-- The walk passes the labels of the switch, so that no branch to them is left. -/
abbrev Passes (excuse lost : Prop) (frames : List Frame) (frame : Frame) (entrances : List Entrance)
    (clauses : List CaseClause) (act : CheckM Unit) : Prop :=
  Course excuse ⟨frame :: frames, ""⟩ act
    ⟨(entrances.flatMap (·.labels)).map some, Bound lost frames, marksOfCases clauses⟩
    fun _ later => ∃ inner, later = ⟨inner :: frames, ""⟩

namespace Staged

theorem length (staged : Staged excuse lost frames name frame entrances bodies clauses) :
    bodies.length = entrances.length := by
  rw [staged.parts.length_eq, ← staged.listed, List.length_map]

theorem unnamed (staged : Staged excuse lost frames name frame entrances bodies clauses) {label : Label}
    (member : label ∈ entrances.flatMap (·.labels)) : label.kind ≠ .user := by
  obtain ⟨entrance, listed, own⟩ := List.mem_flatMap.mp member
  refine staged.encloses.unnamed label (Frame.mem_labels own ?_)
  rw [staged.sectioned]
  exact List.mem_map_of_mem listed

theorem finish (staged : Staged excuse lost frames name frame entrances bodies clauses) (passing : Assigned) :
    Passes excuse lost frames frame entrances clauses
      (Switch.finish passing (sections entrances bodies) (some frame.brk)) := by
  have passed := course_runSections staged.encloses staged.parts staged.listed 0 staged.sectioned frame.current
    unreachable
  refine .toEnd frame.brk (passed.mono ?_)
  rintro exits _ ⟨last, rfl⟩
  have unnamed := staged.encloses.unnamed frame.brk (List.mem_cons_self ..)
  exact (course_end unnamed).mono fun _ later same => ⟨_, same⟩

end Staged

/-- The computation does nothing but send branches to these destinations. -/
abbrev Sends (excuse : Prop) (scope : Scope) (sent : Dest → Prop) {α : Type} (act : CheckM α) : Prop :=
  Course excuse scope act ⟨[], sent, []⟩ fun _ later => later = scope

section Sends

variable {sent : Dest → Prop} {label : Label}

theorem sends_branch (unnamed : label.kind ≠ .user) (goal : sent (some label)) :
    Sends excuse scope sent (Analysis.branch (some label)) :=
  (course_branch (isNamed_some unnamed) rfl).widen (.of_sent (fun _ same => same ▸ goal) rfl)

theorem sends_record {state : Assigned} (unnamed : label.kind ≠ .user) (goal : sent (some label)) :
    Sends excuse scope sent (Analysis.record (some label) state) :=
  (course_record (isNamed_some unnamed) rfl).widen (.of_sent (fun _ same => same ▸ goal) rfl)

theorem sends_branchAll {labels : List Label} (unnamed : ∀ label ∈ labels, label.kind ≠ .user)
    (goals : ∀ label ∈ labels, sent (some label)) (seen : Bool) :
    Sends excuse scope sent (Switch.branchAll seen (labels.map some)) := by
  induction labels generalizing seen with
  | nil => exact Course.idle (.pure rfl)
  | cons label rest ih =>
    simp only [List.forall_mem_cons] at unnamed goals
    refine Course.both (sends_branch unnamed.1 goals.1) fun _ => ?_
    cases seen <;> exact ih unnamed.2 goals.2 _

end Sends

/-- What the dispatch sends to labels of the switch arrives in its sections. -/
theorem Passes.dispatched {α : Type} {act : CheckM α} {next : α → CheckM Unit}
    (began : Sends excuse ⟨frame :: frames, ""⟩ (· ∈ (entrances.flatMap (·.labels)).map some) act)
    (went : ∀ value, Passes excuse lost frames frame entrances clauses (next value)) :
    Passes excuse lost frames frame entrances clauses (act >>= next) := by
  refine (Course.andThen began went).widen ⟨fun dest member => member, fun dest sent => ?_, rfl⟩
  exact sent.resolve_left fun stray => stray.2 stray.1

/-- Outside the switch nobody asks for its labels. -/
theorem Passes.within {act : CheckM Unit} (passes : Passes excuse lost frames frame entrances clauses act) :
    Visits excuse lost frames "" (Checker.within frame act) (marksOfCases clauses) :=
  (course_within passes).widen (.of_sent (fun _ sent => sent) rfl)

/-! Switches over expressions. -/

theorem lastDefault_mem {label : Label} (found : SwitchPlan.lastDefault entrances = some label) :
    label ∈ entrances.flatMap (·.labels) := by
  obtain ⟨entrance, member, own⟩ := List.mem_flatMap.mp (List.mem_of_getLast? found)
  refine List.mem_flatMap.mpr ⟨entrance, member, ?_⟩
  split at own
  · exact own
  · cases own

theorem firstMatch_mem {tag : Constant} {cases : List (Label × Expr)} {label : Label}
    (found : SwitchPlan.firstMatch tag cases = some (some label)) : ∃ expr, (label, expr) ∈ cases := by
  fun_induction SwitchPlan.firstMatch tag cases with
  | case1 => cases found
  | case2 => cases found
  | case3 first expr rest value known equal =>
    cases found
    exact ⟨expr, List.mem_cons_self ..⟩
  | case4 first expr rest value known different ih =>
    obtain ⟨other, member⟩ := ih found
    exact ⟨other, List.mem_cons_of_mem _ member⟩

/-- A known target is the end of the switch or a label of a section. -/
theorem knownTarget_mem {tag : Option Expr} {brk label : Label}
    (known : SwitchPlan.knownTarget tag brk entrances = some label) :
    label = brk ∨ label ∈ entrances.flatMap (·.labels) := by
  have chosen (value : Constant)
      (known : ((SwitchPlan.firstMatch value (SwitchPlan.caseList entrances)).bind fun found =>
        some ((found.or (SwitchPlan.lastDefault entrances)).getD brk)) = some label) :
      label = brk ∨ label ∈ entrances.flatMap (·.labels) := by
    obtain ⟨found, first, same⟩ := Option.bind_eq_some_iff.mp known
    cases same
    cases found with
    | some label =>
      obtain ⟨expr, member⟩ := firstMatch_mem first
      obtain ⟨entrance, listed, own⟩ := List.mem_flatMap.mp member
      exact .inr (List.mem_flatMap.mpr ⟨entrance, listed, (List.of_mem_zip own).1⟩)
    | none =>
      cases fallback : SwitchPlan.lastDefault entrances with
      | none => exact .inl rfl
      | some label => exact .inr (lastDefault_mem fallback)
  cases tag with
  | none => exact chosen (.bool true) known
  | some tag =>
    cases valued : tag.value? with
    | none => simp [SwitchPlan.knownTarget, valued] at known
    | some value =>
      simp only [SwitchPlan.knownTarget, valued] at known
      exact chosen value known

theorem Staged.jumpSwitch (staged : Staged excuse lost frames name frame entrances bodies clauses) {goal : Dest}
    (leads : ∀ label, goal = some label → label = frame.brk ∨ label ∈ entrances.flatMap (·.labels)) :
    Passes excuse lost frames frame entrances clauses (JumpSwitch.run
      { scrutinee := pure (), sections := sections entrances bodies, brk := some frame.brk, target := goal }) := by
  have among : ∀ label ∈ entrances.flatMap (·.labels), some label ∈ (entrances.flatMap (·.labels)).map some :=
    fun label member => List.mem_map_of_mem member
  refine .before (.pure (.before (course_current fun entry => ?_)))
  cases goal with
  | none =>
    simp only [sections_labels staged.length]
    refine Passes.dispatched (sends_branchAll (fun label member => staged.unnamed member) among _) fun _ => ?_
    exact .before (course_setCurrent (staged.finish _))
  | some label =>
    by_cases passing : some label = some frame.brk
    · simp only [passing, if_true]
      exact .before (course_setCurrent (staged.finish _))
    · simp only [passing, if_false]
      have member := (leads label rfl).resolve_left fun same => passing (congrArg some same)
      refine Passes.dispatched (sends_branch (staged.unnamed member) (among label member)) fun _ => ?_
      exact .before (course_setCurrent (staged.finish _))

theorem clauseLabels_unnamed {serial : Nat} {clause : CaseClause} {label : Label}
    (member : label ∈ SwitchPlan.clauseLabels serial clause) : label.kind ≠ .user := by
  rw [clauseLabels_kind member]
  split <;> simp

theorem opened_switch (serial : Nat) (shape : excuse ∨ filled clauses = true) :
    Opened excuse clauses (SwitchPlan.entrancesFrom serial clauses) := by
  induction clauses generalizing serial with
  | nil => exact ⟨rfl, by simp [SwitchPlan.entrancesFrom], .inr (by simp [SwitchPlan.entrancesFrom])⟩
  | cons clause rest ih =>
    rw [filled, List.all_cons, Bool.and_eq_true, or_and_left] at shape
    have later := ih (serial + (SwitchPlan.clauseLabels serial clause).length) shape.2
    refine ⟨?_, ?_, ?_⟩
    · rw [SwitchPlan.entrancesFrom, List.map_cons, later.listed]
    · rw [SwitchPlan.entrancesFrom, List.flatMap_cons]
      exact List.forall_mem_append.mpr ⟨fun label => clauseLabels_unnamed, later.unnamed⟩
    · rcases later.filled with excused | restFilled
      · exact .inl excused
      · exact shape.1.imp_right fun filled => List.forall_mem_cons.mpr ⟨clauseLabels_filled serial filled, restFilled⟩

theorem Opened.staged (opened : Opened excuse clauses entrances) {brk : Label} (unnamed : brk.kind ≠ .user)
    (live : Bool) (parts : List.Forall₂ (VisitsCase excuse lost frames name) bodies clauses) :
    Staged excuse lost frames name { label := name, brk, sections := entrances.map (·.labels), live } entrances bodies
      clauses where
  encloses := by
    refine ⟨⟨?_, ?_⟩, rfl, rfl⟩
    · exact List.forall_mem_cons.mpr ⟨unnamed, opened.unnamed⟩
    · exact opened.filled.imp_right fun filled member => by
        obtain ⟨entrance, listed, empty⟩ := List.mem_map.mp member
        exact filled entrance listed empty
  sectioned := rfl
  listed := opened.listed
  parts := parts

theorem course_switchFrame {brk : Label} {result : Frame → Scope → Prop}
    (holds : ∀ live, result { label := name, brk, sections := entrances.map (·.labels), live } scope) :
    Course excuse scope (switchFrame name brk entrances) .none result :=
  .before (course_current fun _ => .pure (holds _))

theorem Visits.switch {init : CheckM Unit} {tag : Option Expr} {marks : List Mark}
    (initial : Visits excuse lost frames "" init marks) (shape : excuse ∨ filled clauses = true)
    (parts : List.Forall₂ (VisitsCase excuse lost frames name) bodies clauses) :
    Visits excuse lost frames name (Checker.switch init tag clauses bodies) (marks ++ marksOfCases clauses) := by
  refine .before (course_detachLabel (initial.andThen (.before (course_reserve fun serial => ?_))))
  have unnamed : (⟨serial, .break, name⟩ : Label).kind ≠ .user := by simp
  refine .before (course_switchFrame fun live => ?_)
  have staged := (opened_switch (serial + 1) shape).staged unnamed live parts
  exact Passes.within (staged.jumpSwitch fun label found => knownTarget_mem found)

/-! Type switches. -/

/-- The leaf of this entrance sends to a destination among these. -/
def Leading (sent : Dest → Prop) (entrance : Entrance) : Prop :=
  ∃ label, entrance.labels = [label] ∧ label.kind ≠ .user ∧ sent (some label)

theorem sends_leaf {sent : Dest → Prop} {entrance : Entrance} (leading : Leading sent entrance) :
    Sends excuse scope sent ((TypeSwitchPlan.leaf entrance).walk matcher none) := by
  obtain ⟨label, labels, unnamed, goal⟩ := leading
  simp only [TypeSwitchPlan.leaf, labels, List.head?_cons, Decision.walk]
  refine .before (course_current fun entry => .before (.before (.before (course_current fun state => ?_))))
  refine course_setCurrent (.pure (.before (course_current fun bound => ?_)))
  exact Course.both (sends_record unnamed goal) fun _ => Course.idle (.before (course_setCurrent (.pure rfl)))

theorem sends_leaves {sent : Dest → Prop} {doors : List Entrance} (leading : ∀ entrance ∈ doors, Leading sent entrance)
    (entry : Assigned) :
    Sends excuse scope sent (Decision.walkTypes matcher none entry (doors.map TypeSwitchPlan.leaf)) := by
  induction doors with
  | nil => exact Course.idle (.pure rfl)
  | cons entrance rest ih =>
    simp only [List.forall_mem_cons] at leading
    exact .before (course_setCurrent (Course.both (sends_leaf leading.1) fun _ => ih leading.2))

theorem sends_typeTree {sent : Dest → Prop} {tests : List (Entrance × TypeSwitchPlan.Test)}
    (leading : ∀ entrance ∈ TypeSwitchPlan.leaves tests, Leading sent entrance) :
    Sends excuse scope sent ((Decision.byType (TypeSwitchPlan.onNull tests)
      (tests.filterMap TypeSwitchPlan.typeLeaf?) .empty).walk matcher none) := by
  simp only [TypeSwitchPlan.leaves, List.forall_mem_append] at leading
  simp only [Decision.walk, TypeSwitchPlan.onNull_eq, TypeSwitchPlan.typeLeaves_eq]
  have onNull : Sends excuse scope sent
      ((((TypeSwitchPlan.nullDoor tests).map TypeSwitchPlan.leaf).getD .empty).walk matcher none) := by
    cases found : TypeSwitchPlan.nullDoor tests with
    | none => exact Course.idle (.pure rfl)
    | some entrance => exact sends_leaf (leading.1 entrance (by simp [found]))
  refine .before (course_current fun entry => .before (course_setCurrent (Course.both onNull fun _ => ?_)))
  refine Course.both (sends_leaves leading.2 entry) fun _ => Course.idle ?_
  exact .before (course_setCurrent (.pure rfl))

theorem mem_of_mem_leaves {info : Info} {entrance : Entrance}
    (member : entrance ∈ TypeSwitchPlan.leaves (TypeSwitchPlan.tests info entrances)) : entrance ∈ entrances := by
  rcases List.mem_append.mp member with null | typed
  · exact (TypeSwitchPlan.mem_tests.mp (TypeSwitchPlan.nullDoor_mem (Option.mem_toList.mp null))).1
  · obtain ⟨type, tested⟩ := TypeSwitchPlan.mem_typeDoors.mp typed
    exact (TypeSwitchPlan.mem_tests.mp tested).1

theorem Staged.treeSwitch (staged : Staged excuse lost frames name frame entrances bodies clauses) {fallback : Dest}
    {complete : Bool} {tests : List (Entrance × TypeSwitchPlan.Test)}
    (leading : ∀ entrance ∈ TypeSwitchPlan.leaves tests,
      Leading (· ∈ (entrances.flatMap (·.labels)).map some) entrance)
    (falls : ∀ label, fallback = some label → label ∈ entrances.flatMap (·.labels)) :
    Passes excuse lost frames frame entrances clauses (TreeSwitch.run matcher
      { scrutinee := pure ()
        known := none
        tree := .byType (TypeSwitchPlan.onNull tests) (tests.filterMap TypeSwitchPlan.typeLeaf?) .empty
        fallback
        complete
        sections := sections entrances bodies
        brk := some frame.brk }) := by
  refine .before (.pure (.before (course_current fun entry => ?_)))
  refine Passes.dispatched (sends_typeTree leading) fun _ => ?_
  cases fallback with
  | none => exact staged.finish _
  | some label =>
    have member := falls label rfl
    refine .before (course_current fun state => ?_)
    exact Passes.dispatched (sends_record (staged.unnamed member) (List.mem_map_of_mem member)) fun _ => staged.finish _

namespace TypeSwitchPlan

theorem scrutinee_of_isTypeGuard {guard : Stmt} (asserts : guard.isTypeGuard = true) :
    ∃ operand, scrutinee guard = .ok operand := by
  unfold Stmt.isTypeGuard at asserts
  split at asserts
  · exact ⟨_, rfl⟩
  · exact ⟨_, rfl⟩
  · cases asserts

theorem marksOf_guard {guard : Stmt} {operand : Expr} (found : scrutinee guard = .ok operand) : marksOf guard = [] := by
  unfold scrutinee at found
  split at found
  · rfl
  · rfl
  · rfl
  · cases found

theorem any_isEmpty (clauses : List CaseClause) :
    (clauses.any fun clause => clause.cases.any (·.isEmpty)) = !filled clauses := by
  rw [filled, List.not_all_eq_any_not]
  refine congrArg clauses.any (funext fun clause => ?_)
  cases clause.cases <;> simp

/-- A plan is refused only if the switch lacks the shape of one. -/
theorem make_cases (info : Info) (serial : Nat) (label : String) (guard : Stmt) (clauses : List CaseClause) :
    (¬(guard.isTypeGuard = true ∧ filled clauses = true) ∧
      ∃ fault, make info serial label guard clauses = .error fault) ∨
    (marksOf guard = [] ∧ ∃ complete, make info serial label guard clauses = .ok {
      brk := ⟨serial, .break, label⟩
      entrances := entrancesFrom (serial + 1) clauses
      tree := .byType (onNull (tests info (entrancesFrom (serial + 1) clauses)))
        ((tests info (entrancesFrom (serial + 1) clauses)).filterMap typeLeaf?) .empty
      fallback := SwitchPlan.lastDefault (entrancesFrom (serial + 1) clauses)
      complete }) := by
  unfold make
  rw [any_isEmpty]
  cases found : scrutinee guard with
  | error fault =>
    refine .inl ⟨fun shape => ?_, fault, rfl⟩
    obtain ⟨operand, asserted⟩ := scrutinee_of_isTypeGuard shape.1
    rw [found] at asserted
    cases asserted
  | ok operand =>
    cases full : filled clauses with
    | false => exact .inl ⟨fun shape => Bool.false_ne_true shape.2, _, rfl⟩
    | true => exact .inr ⟨marksOf_guard found, _, rfl⟩

end TypeSwitchPlan

theorem opened_typeSwitch (serial : Nat) : Opened excuse clauses (TypeSwitchPlan.entrancesFrom serial clauses) := by
  have layout : Layout serial clauses.length clauses _ := typeSwitchPlan_layout serial
  exact ⟨layout.listed, fun label member => (layout.reserved member).1, .inr layout.filled⟩

theorem Visits.typeSwitch {info : Info} {init : CheckM Unit} {guard : Stmt} {marks : List Mark}
    (initial : Visits excuse lost frames "" init marks)
    (shape : excuse ∨ (guard.isTypeGuard = true ∧ filled clauses = true))
    (parts : List.Forall₂ (VisitsCase excuse lost frames name) bodies clauses) :
    Visits excuse lost frames name (Checker.typeSwitch info init guard clauses bodies)
      (marks ++ (marksOf guard ++ marksOfCases clauses)) := by
  refine .before (course_detachLabel (initial.andThen (.before (course_reserve fun serial => ?_))))
  rcases TypeSwitchPlan.make_cases info serial name guard clauses with
    ⟨misshaped, fault, made⟩ | ⟨plain, complete, made⟩
  · rw [made]
    exact .fault (shape.resolve_right misshaped) fault
  · rw [made, plain]
    have unnamed : (⟨serial, .break, name⟩ : Label).kind ≠ .user := by simp
    refine .before (course_switchFrame fun live => ?_)
    have staged := (opened_typeSwitch (serial + 1)).staged unnamed live parts
    refine Passes.within (staged.treeSwitch (fun entrance member => ?_) fun label found => lastDefault_mem found)
    have listed := mem_of_mem_leaves member
    obtain ⟨label, labels⟩ := typeSwitchPlan_single (serial + 1) entrance listed
    have own : label ∈ (TypeSwitchPlan.entrancesFrom (serial + 1) clauses).flatMap (·.labels) :=
      List.mem_flatMap.mpr ⟨entrance, listed, by simp [labels]⟩
    exact ⟨label, labels, staged.unnamed own, List.mem_map_of_mem own⟩

end ClauseReach.Checker
