import ClauseReach.Proofs.Cover

/-!
Walks of the statements without statements inside.
-/

namespace ClauseReach.Checker

open Source StateAlgebra Paths

variable {info : Info} {first : Nat}

theorem outcome_straight {stores : Set Store} {way : Way}
    (straight : Straight way) :
    ∀ cursor, cursor ≠ .onward → outcome stores way cursor = ∅ := by
  intro cursor elsewhere
  refine Set.eq_empty_of_forall_notMem fun after => ?_
  rintro ⟨before, _, passed⟩
  exact elsewhere (straight before cursor after passed)

/-- A statement that a path passes without leaving it. -/
theorem covers_of_runs {act : CheckM Unit} {way : Way}
    (straight : Straight way)
    (runs : ∀ view : View,
      Runs act view fun _ after => after = { view with here := outcome view.here way .onward }) :
    Covers act "" [] first [] way := by
  intro view _ attached _
  refine (runs view).mono ?_
  rintro _ _ rfl
  exact ⟨rfl, .stay _ attached (outcome_straight straight)⟩

theorem outcome_stay (stores : Set Store) : outcome stores stay .onward = stores := by
  ext store
  simp [outcome, stay]

theorem covers_stay : Covers (pure ()) "" [] first [] stay := by
  refine covers_of_runs (fun _ _ _ passed => passed.1) fun view => .pure ?_
  rw [outcome_stay]

theorem outcome_stuck (stores : Set Store) (cursor : Cursor) : outcome stores stuck cursor = ∅ := by
  simp [outcome, stuck]

theorem covers_stuck : Covers Analysis.setUnreachable "" [] first [] stuck := by
  refine covers_of_runs (fun _ _ _ => False.elim) fun view => runs_setUnreachable ?_
  rw [outcome_stuck]

theorem covers_evaluate (expr : Expr) :
    Covers (evaluate info expr) "" [] first [] (if info.neverReturns expr then stuck else stay) := by
  unfold evaluate
  split
  · exact covers_stuck
  · exact covers_stay

theorem outcome_assigning (stores : Set Store) (objects : Store) :
    outcome stores (assigning objects) .onward = {after | ∃ before ∈ stores, after = before ∪ objects} := by
  simp [outcome, assigning]

theorem outcome_assigning_union (stores : Set Store) (objects more : Store) :
    outcome (outcome stores (assigning objects) .onward) (assigning more) .onward =
      outcome stores (assigning (objects ∪ more)) .onward := by
  ext after
  simp [outcome, assigning, Set.union_assoc]

theorem outcome_assigning_empty (stores : Set Store) : outcome stores (assigning ∅) .onward = stores := by
  simp [outcome, assigning]

/-- A computation that assigns variables at the current point and does nothing else. -/
def Assigns (act : CheckM Unit) (objects : Store) : Prop :=
  ∀ view : View, Runs act view fun _ after =>
    after = { view with here := outcome view.here (assigning objects) .onward }

theorem Assigns.nothing : Assigns (pure ()) ∅ := by
  intro view
  refine .pure ?_
  rw [outcome_assigning_empty]

theorem Assigns.andThen {act next : CheckM Unit} {objects more : Store} (assigns : Assigns act objects)
    (further : Assigns next more) : Assigns (act >>= fun _ => next) (objects ∪ more) := by
  intro view
  refine .bind ((assigns view).mono ?_)
  rintro _ _ rfl
  refine (further _).mono ?_
  rintro _ _ rfl
  simp only [outcome_assigning_union]

theorem Assigns.covers {act : CheckM Unit} {objects : Store} (assigns : Assigns act objects) :
    Covers act "" [] first [] (assigning objects) :=
  covers_of_runs (fun _ _ _ passed => passed.1) assigns

theorem assigns_assign (target : Expr) :
    Assigns (assign info target) {object | info.assigned? target = some object} := by
  unfold assign
  cases info.assigned? target with
  | none => simpa using Assigns.nothing
  | some object =>
    refine fun view => .bind (runs_current fun state summary => runs_setCurrent (summary.assign [object]) ?_)
    simp [outcome_assigning, eq_comm]

theorem assigns_assignAll (targets : List Expr) : Assigns (assignAll info targets) (assignedBy info targets) := by
  induction targets with
  | nil =>
    have nothing : assignedBy info [] = ∅ := by simp [assignedBy]
    rw [nothing]
    exact .nothing
  | cons target rest ih =>
    have joined : assignedBy info (target :: rest) =
        {object | info.assigned? target = some object} ∪ assignedBy info rest := by
      ext object
      simp [assignedBy]
    rw [joined]
    exact (assigns_assign target).andThen ih

theorem assigns_declareAll {specs : List Spec} (values : specs.all Spec.isValues = true) :
    Assigns (declareAll info specs) (declaredBy info specs) := by
  induction specs with
  | nil =>
    have nothing : declaredBy info [] = ∅ := by simp [declaredBy]
    rw [nothing]
    exact .nothing
  | cons spec rest ih =>
    simp only [List.all_cons, Bool.and_eq_true] at values
    cases spec with
    | type => cases values.1
    | values names initial =>
      have here : Assigns (if initial.isEmpty then pure () else assignAll info names)
          {object | initial ≠ [] ∧ object ∈ assignedBy info names} := by
        cases initial with
        | nil => simpa using Assigns.nothing
        | cons value others => simpa using assigns_assignAll names
      have joined : declaredBy info (.values names initial :: rest) =
          {object | initial ≠ [] ∧ object ∈ assignedBy info names} ∪ declaredBy info rest := by
        ext object
        simp only [declaredBy, List.mem_cons, Set.mem_union, Set.mem_ofPred_eq]
        grind
      have unfolded : declareAll info (.values names initial :: rest) =
          ((if initial.isEmpty then pure () else assignAll info names) >>= fun _ => declareAll info rest) := by
        cases initial <;> rfl
      rw [joined, unfolded]
      exact here.andThen (ih values.2)

/-- The branch of a jump waits where the jump leads. -/
theorem spread_jump {frames : List Frame} {waiting : Waiting} {stores : Set Store} {jump : Jump} :
    spread frames waiting
        (outcome stores fun before cursor after => cursor = .leaving jump ∧ after = before) =
      match target frames jump with
      | some label => sending label stores waiting
      | none => waiting := by
  funext label
  ext store
  cases found : target frames jump with
  | none => simp [spread, outcome, found]
  | some goal =>
    by_cases same : label = goal
    · simp [spread, outcome, found, sending, same]
    · simp [spread, outcome, found, sending, same, Ne.symm same]

theorem runs_jump {view : View} {jump : Jump} {post : Unit → View → Prop} (sound : view.Sound)
    (named : jump ≠ .goto none)
    (holds : post () { view with
      here := ∅
      waiting := match target view.frames jump with
        | some label => sending label view.here view.waiting
        | none => view.waiting }) : Runs (Checker.jump jump) view post := by
  unfold Checker.jump
  cases jump with
  | «break» label =>
    refine .bind (runs_frames ?_)
    cases found : breakFrame? label view.frames with
    | none => exact runs_setUnreachable (by simpa [target, found] using holds)
    | some frame => exact .bind (runs_branch (runs_setUnreachable (by simpa [target, found] using holds)))
  | «continue» label =>
    refine .bind (runs_frames ?_)
    cases found : continueFrame? label view.frames with
    | none => exact runs_setUnreachable (by simpa [target, found] using holds)
    | some frame =>
      cases known : frame.cont with
      | none =>
        simp only [known]
        exact .bind (runs_branch_none (runs_setUnreachable (by simpa [target, found, known] using holds)))
      | some label =>
        simp only [known]
        exact .bind (runs_branch (runs_setUnreachable (by simpa [target, found, known] using holds)))
  | goto label =>
    cases label with
    | none => exact absurd rfl named
    | some name => exact .bind (runs_branch (runs_setUnreachable holds))
  | «fallthrough» =>
    refine .bind (runs_frames ?_)
    cases found : nextSection? view.frames with
    | none => exact runs_setUnreachable (by simpa [target, found] using holds)
    | some labels =>
      cases labels with
      | nil =>
        -- Every section of a proper frame has a label.
        obtain ⟨frame, innermost, following⟩ := Option.bind_eq_some_iff.mp found
        exact absurd (List.mem_of_getElem? following)
          (sound.frames frame (List.mem_of_head? innermost)).sections
      | cons label rest =>
        exact .bind (runs_branch (runs_setUnreachable (by simpa [target, found] using holds)))
  | other => exact runs_setUnreachable holds

theorem covers_jump {jump : Jump} (named : jump ≠ .goto none) :
    Covers (Checker.jump jump) "" [] first []
      (fun before cursor after => cursor = .leaving jump ∧ after = before) := by
  intro view sound attached _
  refine runs_jump sound named ?_
  rw [← spread_jump]
  refine ⟨by simp [outcome], rfl, attached, Nat.le_refl _, rfl, [], (List.append_nil _).symm, .nil ?_⟩
  simp [outcome]

end ClauseReach.Checker
