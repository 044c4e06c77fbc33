import ClauseReach.Proofs.FunctionWalk

/-!
What the checker finds out about a function, in terms of all paths through it. Where no `goto` goes back the
result is exact: the end of the function has the merge of the paths that come there, and the clauses reported
are those that some path comes by and none enters.
-/

namespace ClauseReach.Checker

open Source Paths

variable {info : Info} {body : List Stmt}

/-- Some path comes to the switch of this clause, and none enters the clause. -/
def Unentered (paths : Cursor → Store → Prop) (number : Nat) : Prop :=
  (∃ store, paths (.stopped (.head number)) store) ∧ ¬∃ store, paths (.stopped (.entry number)) store

open Classical in
/-- A diagnostic for every clause with one of these numbers, in source order. -/
noncomputable def reports (first : Nat) (clauses : List CaseClause) (numbers : Nat → Prop) : List Diagnostic :=
  (clauses.zipIdx first).filterMap fun (clause, number) =>
    if numbers number then some ⟨clause.pos, "case clause is unreachable"⟩ else none

/-- A dead arrival is a clause that the walk comes by and never enters. -/
theorem Recorded.isDead_iff {first index : Nat} {clauses : List CaseClause} {arrivals : List Arrival}
    {paths : Cursor → Store → Prop}
    (recorded : Recorded first clauses arrivals fun cursor => {store | paths cursor store})
    {arrival : Arrival} (found : arrivals[index]? = some arrival) :
    arrival.isDead = true ↔ Unentered paths (first + index) := by
  have live := recorded.live found
  have entered := (recorded.state found).reachable
  rw [Arrival.isDead, Bool.and_eq_true, Bool.not_eq_true', ← Bool.not_eq_true, live, entered]
  rfl

theorem diagnostics_eq_reports {first : Nat} {arrivals : List Arrival} {numbers : Nat → Prop}
    (dead : ∀ index arrival, arrivals[index]? = some arrival → (arrival.isDead = true ↔ numbers (first + index))) :
    (arrivals.filter Arrival.isDead).map Arrival.diagnostic = reports first (arrivals.map Arrival.clause) numbers := by
  induction arrivals generalizing first with
  | nil => rfl
  | cons arrival rest ih =>
    have here : arrival.isDead = true ↔ numbers first := dead 0 arrival rfl
    have later : _ = reports (first + 1) (rest.map Arrival.clause) numbers := ih fun index next found => by
      rw [Nat.add_assoc, Nat.add_comm 1]
      exact dead (index + 1) next found
    unfold reports at later ⊢
    rw [List.map_cons, List.zipIdx_cons, List.filterMap_cons, ← later, List.filter_cons]
    by_cases reported : arrival.isDead = true
    · simp [reported, here.mp reported, Arrival.diagnostic]
    · simp [reported, mt here.mpr reported]

namespace Result.Reflects

variable {result : Result}

theorem diagnostics (reflects : result.Reflects info body) :
    result.diagnostics = reports 0 (Traversal.clausesOfStmts body) (Unentered (ForwardPath info body)) := by
  rw [← reflects.arrivals.listed]
  exact diagnostics_eq_reports fun _ _ found => reflects.arrivals.isDead_iff found

/-- If nothing is left unresolved, no path wants to go back. -/
theorem path_iff (formed : WellFormed info body) (reflects : result.Reflects info body)
    (resolved : result.unresolved = []) {cursor : Cursor} {store : Store}
    (away : cursor.seeks (allLabels body) = false) :
    Path info body cursor store ↔ ForwardPath info body cursor store := by
  constructor
  · intro path
    rcases path.forward_or_back formed with forward | ⟨label, _, stuck, back⟩
    · exact forward
    · have waits := reflects.unresolved back
      rw [resolved] at waits
      cases waits
  · intro forward
    exact forward.path formed away

end Result.Reflects

/-- The state at the end of a function is the merge over all paths that come there. -/
theorem exit_summarizes_paths (formed : WellFormed info body) :
    ∃ result, checkFunction info body = .ok result ∧
      (result.unresolved = [] → result.exit.Summarizes {store | Path info body .onward store}) := by
  obtain ⟨result, checked, reflects⟩ := checkFunction_reflects formed
  refine ⟨result, checked, fun resolved => ?_⟩
  have same : {store | Path info body .onward store} = {store | ForwardPath info body .onward store} :=
    Set.ext fun _ => reflects.path_iff formed resolved rfl
  rw [same]
  exact reflects.exit

def integer (value : Int) : Expr := .literal (some (.known none (some (.int value))))

/-- A function whose loop is left by a `goto` only, with a switch behind it. -/
def leavingLoop : List Stmt :=
  let object : Expr := .ident none none (some 0)
  [.loop .empty none .empty [.cond .empty object [.jump (.goto (some "done"))] .empty],
    .labeled "done" (.switch .empty (some (integer 1))
      [⟨10, some [integer 1], none, [.assign [object] [integer 1]]⟩, ⟨20, some [integer 2], none, []⟩])]

def oneVariable : Info := ⟨"main", ⟨#[]⟩, #[⟨.var, "x", none, "", false⟩]⟩

theorem leavingLoop_formed : WellFormed oneVariable leavingLoop := by decide

theorem leavingLoop_resolved {result : Result} (checked : checkFunction oneVariable leavingLoop = .ok result) :
    result.unresolved = [] := by
  have evaluated : (checkFunction oneVariable leavingLoop).toOption.map Result.unresolved = some [] := by
    decide +kernel
  rw [checked] at evaluated
  exact Option.some.inj evaluated

theorem leavingLoop_exit : ∃ result, checkFunction oneVariable leavingLoop = .ok result ∧
    result.exit.Summarizes {store | Path oneVariable leavingLoop .onward store} := by
  obtain ⟨result, checked, summary⟩ := exit_summarizes_paths leavingLoop_formed
  exact ⟨result, checked, summary (leavingLoop_resolved checked)⟩

/-- The clauses reported are those that some forward path comes by and none enters. One of them is entered
after all only if a path gets to a `goto` back, and its label is then left unresolved. -/
theorem diagnostics_forward (formed : WellFormed info body) :
    ∃ result, checkFunction info body = .ok result ∧
      result.diagnostics = reports 0 (Traversal.clausesOfStmts body) (Unentered (ForwardPath info body)) ∧
      ∀ number store, Unentered (ForwardPath info body) number → Path info body (.stopped (.entry number)) store →
        ∃ label ∈ allLabels body, some (namedLabel label) ∈ result.unresolved ∧
          ∃ store, ForwardPath info body (.leaving (.goto (some label))) store := by
  obtain ⟨result, checked, reflects⟩ := checkFunction_reflects formed
  refine ⟨result, checked, reflects.diagnostics, ?_⟩
  intro number store unentered path
  rcases path.forward_or_back formed with forward | ⟨label, member, stuck, back⟩
  · exact absurd ⟨store, forward⟩ unentered.2
  · exact ⟨label, member, reflects.unresolved back, stuck, back⟩

/-- A statement list that comes to its `fallthrough` by a `goto` back only. -/
def backAndThrough : List Stmt :=
  [.jump (.goto (some "second")), .labeled "first" (.jump (.goto (some "last"))),
    .labeled "second" (.jump (.goto (some "first"))), .labeled "last" (.block []), .jump .fallthrough]

def goingBack : List Stmt :=
  [.switch .empty (some (integer 1))
    [⟨30, some [integer 1], none, backAndThrough⟩, ⟨90, some [integer 2], none, []⟩]]

theorem goingBack_formed : WellFormed oneVariable goingBack := by decide

theorem goingBack_diagnostics {result : Result} (checked : checkFunction oneVariable goingBack = .ok result) :
    result.diagnostics = [⟨90, "case clause is unreachable"⟩] := by
  have evaluated : (checkFunction oneVariable goingBack).toOption.map Result.diagnostics =
      some [⟨90, "case clause is unreachable"⟩] := by decide +kernel
  rw [checked] at evaluated
  exact Option.some.inj evaluated

theorem crossing_of_enters {cursor stand : Cursor} {labels : List String} {way : Way} {before after : Store}
    (enters : cursor.enters labels = true) (passed : way before stand after) :
    crossing labels way cursor before stand after := by
  rw [crossing, if_pos enters]
  exact passed

theorem crossing_of_passes {cursor : Cursor} {labels : List String} {way : Way} {store : Store}
    (passes : cursor.enters labels = false) : crossing labels way cursor store cursor store := by
  rw [crossing, passes]
  exact ⟨rfl, rfl⟩

theorem backAndThrough_falls (first : Nat) (store : Store) :
    block true (ownLabels backAndThrough) (crossAll oneVariable true first backAndThrough) store
      (.leaving .fallthrough) store := by
  -- The first round gets as far as the `goto` back, the second one from its label to the end.
  have there : crossAll oneVariable true first backAndThrough .onward store
      (.leaving (.goto (some "first"))) store :=
    ⟨_, _, crossing_of_enters rfl ⟨rfl, rfl⟩, _, _, crossing_of_passes rfl, _, _, crossing_of_enters rfl ⟨rfl, rfl⟩,
      _, _, crossing_of_passes rfl, _, _, crossing_of_passes rfl, rfl, rfl⟩
  have back : crossAll oneVariable true first backAndThrough (.leaving (.goto (some "first"))) store
      (.leaving .fallthrough) store :=
    ⟨_, _, crossing_of_passes rfl, _, _, crossing_of_enters rfl ⟨rfl, rfl⟩, _, _, crossing_of_passes rfl, _, _,
      crossing_of_enters rfl (.last ⟨rfl, rfl⟩ fun _ => rfl), _, _, crossing_of_enters rfl ⟨rfl, rfl⟩, rfl, rfl⟩
  exact .again rfl there rfl (.last back fun _ => rfl)

theorem goingBack_enters : Path oneVariable goingBack (.stopped (.entry 1)) ∅ := by
  refine .last ⟨_, ∅, crossing_of_enters rfl ?_, rfl, rfl⟩ fun _ => rfl
  refine .inr ⟨∅, ⟨rfl, rfl⟩, .inr (.inr ⟨0, ∅, ⟨rfl, rfl⟩, .stopped (.entry 1), ?_, rfl⟩)⟩
  exact .inr (.inr ⟨∅, backAndThrough_falls 1 ∅, .inl ⟨rfl, rfl⟩⟩)

theorem goingBack_unresolved : ∃ result, checkFunction oneVariable goingBack = .ok result ∧
    ∃ label ∈ allLabels goingBack, some (namedLabel label) ∈ result.unresolved := by
  obtain ⟨result, checked, exact, back⟩ := diagnostics_forward goingBack_formed
  have unentered : Unentered (ForwardPath oneVariable goingBack) 1 := by
    rw [goingBack_diagnostics checked] at exact
    generalize Unentered (ForwardPath oneVariable goingBack) = numbers at exact ⊢
    by_contra entered
    by_cases other : numbers 0 <;>
      simp [reports, goingBack, backAndThrough, Traversal.clausesOfStmts, Traversal.clausesOfStmt,
        Traversal.clausesOfCases, other, entered] at exact
  obtain ⟨label, member, waits, _⟩ := back 1 ∅ unentered goingBack_enters
  exact ⟨result, checked, label, member, waits⟩

/-- A clause that a path enters is reported as unreachable. -/
theorem goingBack_reported : ∃ result, checkFunction oneVariable goingBack = .ok result ∧
    ((Traversal.clausesOfStmts goingBack)[1]?.map fun clause => ⟨clause.pos, "case clause is unreachable"⟩) ∈
      result.diagnostics.map some ∧
    ∃ store, Path oneVariable goingBack (.stopped (.entry 1)) store := by
  obtain ⟨result, checked, _⟩ := checkFunction_reflects goingBack_formed
  refine ⟨result, checked, ?_, ∅, goingBack_enters⟩
  rw [goingBack_diagnostics checked]
  decide

/-- The clauses reported are those that some path comes by and none enters. -/
theorem diagnostics_exact (formed : WellFormed info body) :
    ∃ result, checkFunction info body = .ok result ∧
      (result.unresolved = [] →
        result.diagnostics = reports 0 (Traversal.clausesOfStmts body) (Unentered (Path info body))) := by
  obtain ⟨result, checked, reflects⟩ := checkFunction_reflects formed
  refine ⟨result, checked, fun resolved => ?_⟩
  have stops (place : Place) (store : Store) :
      Path info body (.stopped place) store ↔ ForwardPath info body (.stopped place) store :=
    reflects.path_iff formed resolved rfl
  have same : Unentered (Path info body) = Unentered (ForwardPath info body) := by
    funext number
    simp only [Unentered, stops]
  rw [same]
  exact reflects.diagnostics

theorem leavingLoop_diagnostics : ∃ result, checkFunction oneVariable leavingLoop = .ok result ∧
    result.diagnostics = [⟨20, "case clause is unreachable"⟩] ∧
    result.diagnostics =
      reports 0 (Traversal.clausesOfStmts leavingLoop) (Unentered (Path oneVariable leavingLoop)) := by
  obtain ⟨result, checked, exact⟩ := diagnostics_exact leavingLoop_formed
  have evaluated : (checkFunction oneVariable leavingLoop).toOption.map Result.diagnostics =
      some [⟨20, "case clause is unreachable"⟩] := by decide +kernel
  rw [checked] at evaluated
  exact ⟨result, checked, Option.some.inj evaluated, exact (leavingLoop_resolved checked)⟩

end ClauseReach.Checker
