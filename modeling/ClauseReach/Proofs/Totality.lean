import ClauseReach.Checker.Check
import ClauseReach.Proofs.SwitchVisits

/-!
The walk of a whole function, apart from flow states. It faults only if the body lacks the shape that the grammar
gives to it; a `break`, `continue` or `fallthrough` out of place does no harm, and neither do missing types and
values. On the way every clause is met once, and no branch to a label made by the walk is left at the end.
-/

namespace ClauseReach.Checker

open Source StateAlgebra

variable {excuse lost : Prop} {info : Info}

theorem or_both {first second : Bool} (given : excuse ∨ (first && second) = true) :
    (excuse ∨ first = true) ∧ (excuse ∨ second = true) := by
  rwa [Bool.and_eq_true, or_and_left] at given

theorem or_neither {first second : Bool} (given : lost ∨ (first || second) = false) :
    (lost ∨ first = false) ∧ (lost ∨ second = false) := by
  rwa [Bool.or_eq_false_iff, or_and_left] at given

mutual

/-- By induction on the syntax, with the statements around a statement as the walk knows them. -/
theorem walk_visits (stmt : Stmt) (frames : List Frame) (name : String)
    (furnished : ∀ frame ∈ frames, frame.Furnished excuse) (shape : excuse ∨ shaped stmt = true)
    (led : lost ∨ misnames (around frames) name stmt = false) :
    Visits excuse lost frames (if takesLabel stmt then name else "") (walk info stmt) (marksOf stmt) :=
  match stmt with
  | .empty | .eval _ | .declare .other _ => Course.idle (.pure rfl)
  | .block body => walkAll_visits body frames furnished shape led
  | .expr expr => Course.idle (quiet_evaluate expr)
  | .assign targets _ => Course.idle (quiet_assignAll targets)
  | .declare .variables specs => Course.idle (quiet_declareAll shape)
  | .return _ => Course.idle (course_setCurrent rfl)
  | .jump jump => visits_jump furnished shape led
  | .labeled label stmt => (walk_visits stmt frames label furnished shape led).labeled
  | .cond init condition body otherwise => by
    obtain ⟨shapeInit, shape⟩ := or_both shape
    obtain ⟨shapeBody, shapeElse⟩ := or_both shape
    obtain ⟨ledInit, led⟩ := or_neither led
    obtain ⟨ledBody, ledElse⟩ := or_neither led
    have initial := walk_visits init frames "" furnished shapeInit ledInit
    have whenTrue := walkAll_visits body frames furnished shapeBody ledBody
    have whenFalse := walk_visits otherwise frames "" furnished shapeElse ledElse
    rw [ite_self] at initial whenFalse
    exact initial.andThen (whenTrue.choose whenFalse)
  | .loop init condition post body => by
    obtain ⟨shapeInit, shape⟩ := or_both shape
    obtain ⟨shapeBody, shapePost⟩ := or_both shape
    obtain ⟨ledInit, led⟩ := or_neither led
    obtain ⟨ledBody, ledPost⟩ := or_neither led
    have initial := walk_visits init frames "" furnished shapeInit ledInit
    have last := walk_visits post frames "" furnished shapePost ledPost
    rw [ite_self] at initial last
    refine Visits.loop initial (fun frame encloses => ?_) last
    have inside := List.forall_mem_cons.mpr ⟨encloses.toFurnished, furnished⟩
    exact walkAll_visits body (frame :: frames) inside shapeBody (encloses.around_cons ▸ ledBody)
  | .range assigns key value operand body => by
    refine Visits.range ?_ fun frame encloses => ?_
    · cases assigns with
      | true => exact quiet_assignAll _
      | false => exact .pure rfl
    · have inside := List.forall_mem_cons.mpr ⟨encloses.toFurnished, furnished⟩
      exact walkAll_visits body (frame :: frames) inside shape (encloses.around_cons ▸ led)
  | .select clauses => by
    refine Visits.select fun frame encloses => ?_
    have inside := List.forall_mem_cons.mpr ⟨encloses.toFurnished, furnished⟩
    exact walkComms_visits clauses (frame :: frames) inside shape (encloses.around_cons ▸ led)
  | .switch init tag clauses => by
    obtain ⟨shapeInit, shape⟩ := or_both shape
    obtain ⟨full, shapeClauses⟩ := or_both shape
    obtain ⟨ledInit, ledClauses⟩ := or_neither led
    have initial := walk_visits init frames "" furnished shapeInit ledInit
    rw [ite_self] at initial
    exact initial.switch full (walkCases_visits clauses frames name furnished shapeClauses ledClauses)
  | .typeSwitch init guard clauses => by
    obtain ⟨shapeInit, shape⟩ := or_both shape
    obtain ⟨asserts, shape⟩ := or_both shape
    obtain ⟨full, shapeClauses⟩ := or_both shape
    obtain ⟨ledInit, ledClauses⟩ := or_neither led
    have initial := walk_visits init frames "" furnished shapeInit ledInit
    rw [ite_self] at initial
    exact initial.typeSwitch (or_and_left.mpr ⟨asserts, full⟩)
      (walkCases_visits clauses frames name furnished shapeClauses ledClauses)
termination_by structural stmt

theorem walkAll_visits (stmts : List Stmt) (frames : List Frame)
    (furnished : ∀ frame ∈ frames, frame.Furnished excuse) (shape : excuse ∨ shapedAll stmts = true)
    (led : lost ∨ misnamesAll (around frames) stmts = false) :
    Visits excuse lost frames "" (walkAll info stmts) (marksOfAll stmts) :=
  match stmts with
  | [] => Course.idle (.pure rfl)
  | stmt :: rest => by
    obtain ⟨shapeFirst, shapeRest⟩ := or_both shape
    obtain ⟨ledFirst, ledRest⟩ := or_neither led
    have first := walk_visits stmt frames "" furnished shapeFirst ledFirst
    rw [ite_self] at first
    exact first.andThen (walkAll_visits rest frames furnished shapeRest ledRest)
termination_by structural stmts

theorem walkCases_visits (clauses : List CaseClause) (frames : List Frame) (name : String)
    (furnished : ∀ frame ∈ frames, frame.Furnished excuse) (shape : excuse ∨ shapedCases clauses = true)
    (led : lost ∨ misnamesCases ((name, false) :: around frames) clauses = false) :
    List.Forall₂ (VisitsCase excuse lost frames name) (walkCases info clauses) clauses :=
  match clauses with
  | [] => .nil
  | ⟨_, _, _, body⟩ :: rest => by
    obtain ⟨shapeFirst, shapeRest⟩ := or_both shape
    obtain ⟨ledFirst, ledRest⟩ := or_neither led
    refine .cons (fun frame encloses => ?_) (walkCases_visits rest frames name furnished shapeRest ledRest)
    have inside := List.forall_mem_cons.mpr ⟨encloses.toFurnished, furnished⟩
    exact walkAll_visits body (frame :: frames) inside shapeFirst (encloses.around_cons ▸ ledFirst)
termination_by structural clauses

theorem walkComms_visits (clauses : List CommClause) (frames : List Frame)
    (furnished : ∀ frame ∈ frames, frame.Furnished excuse) (shape : excuse ∨ shapedComms clauses = true)
    (led : lost ∨ misnamesComms (around frames) clauses = false) :
    List.Forall₂ (VisitsComm excuse lost frames) (walkComms info clauses) clauses :=
  match clauses with
  | [] => .nil
  | ⟨comm, body⟩ :: rest => by
    obtain ⟨shape, shapeRest⟩ := or_both shape
    obtain ⟨shapeComm, shapeBody⟩ := or_both shape
    obtain ⟨led, ledRest⟩ := or_neither led
    obtain ⟨ledComm, ledBody⟩ := or_neither led
    have first := walk_visits comm frames "" furnished shapeComm ledComm
    rw [ite_self] at first
    have clause := first.andThen (walkAll_visits body frames furnished shapeBody ledBody)
    exact .cons clause (walkComms_visits rest frames furnished shapeRest ledRest)
termination_by structural clauses

end

/-- What a checked function is left with. A lost branch is one of a `continue` that names no loop. -/
structure Result.Concludes (lost : Prop) (body : List Stmt) (result : Result) : Prop where
  met : result.arrivals.map Arrival.clause = ownClauses body
  named : result.unresolved.filter isNamed = ((marksOfAll body).foldl Mark.follow []).map placeOf
  others : ∀ dest ∈ result.unresolved, isNamed dest = true ∨ (dest = none ∧ lost)

/-- Outside of all statements a jump leads to a label of the program only. -/
theorem bound_nil {dest : Dest} (bound : Bound lost [] dest) : isNamed dest = true ∨ (dest = none ∧ lost) := by
  cases dest with
  | none => exact .inr ⟨rfl, bound⟩
  | some label =>
    obtain ⟨jump, found⟩ := bound
    rcases target_eq_some found with ⟨name, _, rfl⟩ | ⟨frame, member, _⟩
    · exact .inl rfl
    · cases member

theorem checkFunction_concludes {body : List Stmt} (shape : excuse ∨ shapedAll body = true)
    (led : lost ∨ misnamesAll [] body = false) :
    (∃ result, checkFunction info body = .ok result ∧ result.Concludes lost body) ∨
      (excuse ∧ ∃ fault, checkFunction info body = .error fault) := by
  have visits : Visits excuse lost [] "" (walkAll info body) _ := walkAll_visits body [] (by simp) shape led
  unfold checkFunction
  rcases visits ⟨Pass.start Assigned.entry, Walker.start⟩ rfl with
    ⟨_, after, ended, holds, _⟩ | ⟨excused, fault, _, ended⟩
  · rw [ended]
    refine .inl ⟨_, rfl, ?_, holds.named [] rfl, fun dest member => ?_⟩
    · obtain ⟨met, listed, same⟩ := holds.met
      rw [ownClauses, ← same, listed]
      rfl
    · rcases holds.waiting dest member with ⟨never, _⟩ | bound
      · cases never
      · exact bound_nil bound
  · rw [ended]
    exact .inr ⟨excused, fault, rfl⟩

theorem concludes_of_shaped (info : Info) {body : List Stmt} (shape : shapedAll body = true)
    (led : lost ∨ misnamesAll [] body = false) :
    ∃ result, checkFunction info body = .ok result ∧ result.Concludes lost body := by
  have ends : _ ∨ (False ∧ ∃ fault, checkFunction info body = .error fault) := checkFunction_concludes (.inr shape) led
  exact ends.resolve_right And.left

theorem concludes_of_ok {body : List Stmt} {result : Result} (checked : checkFunction info body = .ok result) :
    result.Concludes True body := by
  have ends : _ ∨ (True ∧ ∃ fault, checkFunction info body = .error fault) :=
    checkFunction_concludes (.inl trivial) (.inl trivial)
  rcases ends with ⟨other, same, concludes⟩ | ⟨_, fault, failed⟩
  · cases checked.symm.trans same
    exact concludes
  · cases checked.symm.trans failed

/-- A body of the shape that the grammar gives to it is checked to its end, whatever is known about its types and
values, and every clause in it is met. -/
theorem checkFunction_total (info : Info) {body : List Stmt} (shape : shapedAll body = true) :
    ∃ result, checkFunction info body = .ok result ∧ result.arrivals.map Arrival.clause = ownClauses body := by
  obtain ⟨result, checked, concludes⟩ := concludes_of_shaped info shape (.inl trivial)
  exact ⟨result, checked, concludes.met⟩

def nothingKnown : Info := ⟨"main", ⟨#[]⟩, #[]⟩

/-- Jumps where the language has no place for them. -/
def strayJumps : List Stmt :=
  let unknown : Expr := .literal none
  [.jump (.break none), .jump (.continue (some "nowhere")), .jump .fallthrough,
    .labeled "outer" (.switch .empty none
      [⟨10, none, none, [.jump (.continue (some "outer")), .jump .fallthrough]⟩,
        ⟨20, some [unknown], none,
          [.select [⟨.jump .fallthrough, [.jump (.break (some "outer")), .jump (.continue none)]⟩],
            .jump .fallthrough]⟩]),
    .typeSwitch .empty (.assign [unknown] [.assertion none unknown none])
      [⟨30, some [unknown], some 7, [.jump .fallthrough]⟩, ⟨40, none, none, []⟩, ⟨50, none, none, []⟩],
    .jump (.goto (some "nowhere"))]

theorem strayJumps_checked : shapedAll strayJumps = true ∧
    ∃ result, checkFunction nothingKnown strayJumps = .ok result ∧
      result.arrivals.map Arrival.clause = ownClauses strayJumps :=
  ⟨rfl, checkFunction_total _ rfl⟩

end ClauseReach.Checker
