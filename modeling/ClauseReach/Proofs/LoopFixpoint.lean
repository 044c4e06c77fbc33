import ClauseReach.Proofs.StateOrder
import ClauseReach.Proofs.Surroundings

/-!
One round of a loop is enough. Every state in a loop has at least what is assigned at its head: the walk only adds to
it, and whatever arrives at a label inside was sent from inside. So the state that flows back to the head tells
nothing new there, and a second round would be like the first.
-/

namespace ClauseReach.Checker

open Source StateAlgebra

theorem merge_fits {floor left right : Assigned} (fitsLeft : merge floor left = floor)
    (fitsRight : merge floor right = floor) : merge floor (merge left right) = floor := by
  rw [← LawfulMerge.merge_assoc, fitsLeft, fitsRight]

theorem foldl_fits {floor state : Assigned} {states : List Assigned} (fits : merge floor state = floor)
    (each : ∀ other ∈ states, merge floor other = floor) : merge floor (states.foldl merge state) = floor := by
  induction states generalizing state with
  | nil => exact fits
  | cons other rest ih =>
    rw [List.forall_mem_cons] at each
    exact ih (merge_fits fits each.1) each.2

/-! Destinations inside a loop, before the walk comes to it and while it is there. -/

/-- The destinations of a piece of code: its labels, and the labels made in its walk, which begins at `bound`. -/
inductive Inside (bound : Nat) (inner : List String) : Dest → Prop where
  | named {name : String} (member : name ∈ inner) : Inside bound inner (placeOf name)
  | made {label : Label} (kind : label.kind ≠ .user) (above : bound ≤ label.serial) : Inside bound inner (some label)

theorem Inside.earlier {bound least : Nat} {inner : List String} {dest : Dest} (inside : Inside bound inner dest)
    (lower : least ≤ bound) : Inside least inner dest := by
  cases inside with
  | named member => exact .named member
  | made kind above => exact .made kind (lower.trans above)

structure Untouched (inner : List String) (session : Session Assigned Walker) : Prop where
  around : ∀ frame ∈ session.own.frames, ∀ label ∈ frame.labels, Made 0 session.own.serial label
  nothing : ∀ {dest}, Inside session.own.serial inner dest → session.pass.pending.states dest = []

theorem Untouched.outside {inner : List String} {admits : Mark → Prop} {session : Session Assigned Walker} {dest : Dest}
    (untouched : Untouched inner session) (apart : ∀ name, admits (.goto name) → name ∉ inner)
    (destined : Destined 0 admits session.own dest) : ¬Inside session.own.serial inner dest := by
  have old {label : Label} (made : Made 0 session.own.serial label) :
      ¬Inside session.own.serial inner (some label) := by
    intro inside
    cases inside with
    | named _ => exact made.kind rfl
    | made _ above => exact absurd made.below (Nat.not_lt.mpr above)
  cases destined with
  | nowhere => exact fun inside => nomatch inside
  | made made => exact old made
  | around inside own => exact old (untouched.around _ inside _ own)
  | named admitted =>
    intro inside
    cases inside with
    | named member => exact apart _ admitted member
    | made kind _ => exact kind rfl

/-- Code that no `goto` leads into from around it stays untouched until the walk comes to it. -/
def untouched (inner : List String) : Invariant where
  bound := 0
  admits mark := ∀ name, mark = .goto name → name ∉ inner
  fits _ := True
  holds := Untouched inner
  above _ := Nat.zero_le _
  unreachable := trivial
  merge _ _ := trivial
  assign _ _ := trivial
  current _ := trivial
  setCurrent holds _ := ⟨holds.around, holds.nothing⟩
  record := by
    intro session sent state holds _ destined
    refine ⟨holds.around, fun {dest} inside => ?_⟩
    have other : dest ≠ sent := by
      intro same
      subst same
      exact holds.outside (fun name admitted => admitted name rfl) destined inside
    exact ((session.pass.pending.states_record sent dest state).trans (if_neg other)).trans (holds.nothing inside)
  resolve := by
    intro session label holds _
    refine ⟨holds.around, fun {dest} inside => ?_⟩
    refine (session.pass.pending.states_forget (some label) dest).trans ?_
    split
    · rfl
    · exact holds.nothing inside
  own := by
    intro session walker holds grows labels
    refine ⟨fun frame inside label own => ?_, fun inside => holds.nothing (inside.earlier grows)⟩
    rcases labels frame inside label own with ⟨other, outer, old⟩ | made
    · exact (holds.around other outer label old).mono grows
    · exact made

/-- The state is above `floor`, and so is all that is under way into the code. -/
structure Rising (floor : Assigned) (bound : Nat) (inner : List String) (session : Session Assigned Walker) : Prop where
  above : bound ≤ session.own.serial
  current : merge floor session.pass.state = floor
  waiting : ∀ {dest}, Inside bound inner dest → ∀ state ∈ session.pass.pending.states dest, merge floor state = floor

/-- A walk through code whose labels are all its own does not fall below the state in which it began. -/
def rising (floor : Assigned) (bound : Nat) (inner : List String) : Invariant where
  bound := bound
  admits mark := ∀ name, mark = .label name → name ∈ inner
  fits state := merge floor state = floor
  holds := Rising floor bound inner
  above := Rising.above
  unreachable := LawfulMerge.merge_unreachable floor
  merge := merge_fits
  assign objects fits := Assigned.merge_assign fits objects
  current := Rising.current
  setCurrent holds fits := ⟨holds.above, fits, holds.waiting⟩
  record := by
    intro session sent added holds fits _
    refine ⟨holds.above, holds.current, fun {dest} inside state waits => ?_⟩
    have waits : state ∈ (session.pass.pending.record sent added).states dest := waits
    rw [Pending.states_record] at waits
    split at waits
    · rename_i same
      subst same
      rcases List.mem_append.mp waits with old | new
      · exact holds.waiting inside state old
      · rw [List.mem_singleton.mp new]
        exact fits
    · exact holds.waiting inside state waits
  resolve := by
    intro session label holds resolved
    have inside : Inside bound inner (some label) := by
      rcases resolved with made | ⟨name, rfl, admitted⟩
      · exact .made made.kind made.above
      · exact .named (admitted name rfl)
    refine ⟨holds.above, foldl_fits holds.current (holds.waiting inside), fun {dest} other state waits => ?_⟩
    have waits : state ∈ (session.pass.pending.forget (some label)).states dest := waits
    rw [Pending.states_forget] at waits
    split at waits
    · cases waits
    · exact holds.waiting other state waits
  own holds grows _ := ⟨holds.above.trans grows, holds.current, holds.waiting⟩

theorem Untouched.rising {inner : List String} {session : Session Assigned Walker}
    (untouched : Untouched inner session) :
    Rising session.pass.state session.own.serial inner session where
  above := Nat.le_refl _
  current := IdempotentMerge.merge_self _
  waiting inside state waits := by
    rw [untouched.nothing inside] at waits
    cases waits

/-! Loops. -/

/-- A loop by its parts. It begins with `init`; at its head it enters the body, and the state that leaves it there is
given; `post` comes behind the body. -/
structure Loop where
  init : Stmt
  enter : CheckM Assigned
  body : List Stmt
  post : Stmt

namespace Loop

def enterIf (condition : Option Expr) : CheckM Assigned := do
  let entry ← Analysis.current
  let outcomes := condition.elim (entry, unreachable) fun condition => condition.split entry
  Analysis.setCurrent outcomes.1
  return outcomes.2

def enterWith (targets : CheckM Unit) : CheckM Assigned := do
  let entry ← Analysis.current
  targets
  return entry

variable (info : Info) (loop : Loop)

def approach : CheckM String := do
  let name ← detachLabel
  walk info loop.init
  return name

/-- One round from the head on: the result is the state that flows back to it. -/
def back (name : String) : CheckM Assigned := do
  let frame ← loopFrame name
  let _ ← loop.enter
  backEdge frame (walkAll info loop.body) (walk info loop.post)

def run (name : String) : CheckM Unit := do
  let frame ← loopFrame name
  let leaves ← loop.enter
  let _ ← backEdge frame (walkAll info loop.body) (walk info loop.post)
  Analysis.setCurrent leaves
  let _ ← Analysis.resolve (some frame.brk)

end Loop

inductive IsLoop (info : Info) : Stmt → Loop → Prop where
  | conditional (init : Stmt) (condition : Option Expr) (post : Stmt) (body : List Stmt) :
      IsLoop info (.loop init condition post body) ⟨init, Loop.enterIf condition, body, post⟩
  | ranging (assigns : Bool) (key value : Option Expr) (operand : Expr) (body : List Stmt) :
      IsLoop info (.range assigns key value operand body) ⟨.empty,
        Loop.enterWith (if assigns then assignAll info (key.toList ++ value.toList) else pure ()), body, .empty⟩

section Rounds

variable {info : Info} {stmt : Stmt} {loop : Loop} {inv : Invariant} {visible : List String}

theorem IsLoop.walk_eq (isLoop : IsLoop info stmt loop) :
    walk info stmt = (do let name ← loop.approach info; loop.run info name) := by
  cases isLoop with
  | conditional init condition post body =>
    simp only [walk, Checker.loop, Loop.approach, Loop.run, Loop.enterIf, bind_assoc, pure_bind]
    cases condition <;> rfl
  | ranging assigns key value operand body =>
    -- The walk notes the state at the head before it reserves the loop's labels; the order does not matter.
    funext session
    simp only [walk, range, Loop.approach, Loop.run, Loop.enterWith, bind_assoc, pure_bind]
    rfl

theorem IsLoop.marks (isLoop : IsLoop info stmt loop) (legality : legal info visible stmt = true) :
    marksOf loop.init = [] ∧ marksOf loop.post = [] ∧ Within visible [] (innerLabels stmt) (marksOfAll loop.body) := by
  cases isLoop with
  | conditional init condition post body =>
    simp only [legal, Bool.and_eq_true] at legality
    obtain ⟨⟨simple, simplePost⟩, legalBody⟩ := legality
    exact ⟨marksOf_simple simple, marksOf_simple simplePost, (marksOfAll_within body legalBody).block⟩
  | ranging assigns key value operand body => exact ⟨rfl, rfl, (marksOfAll_within body legality).block⟩

theorem IsLoop.lasts_enter (isLoop : IsLoop info stmt loop) (least : Nat) :
    Lasts inv least loop.enter fun _ => True := by
  cases isLoop with
  | conditional init condition post body =>
    refine lasts_current.bind fun entry fit => ?_
    have holds : inv.fits (condition.elim (entry, unreachable) fun condition => condition.split entry).1 := by
      cases condition with
      | none => exact fit
      | some condition => exact (inv.split fit condition).1
    exact (lasts_setCurrent holds).andThen fun _ => .pure trivial
  | ranging assigns key value operand body =>
    have targets : Lasts inv least
        (if assigns then assignAll info (key.toList ++ value.toList) else pure ()) fun _ => True := by
      split
      · exact lasting_assignAll _ least
      · exact .pure trivial
    exact lasts_current.bind fun entry _ => targets.andThen fun _ => .pure trivial

theorem lasts_approach (unmarked : marksOf loop.init = []) :
    Lasts inv 0 (loop.approach info) fun _ => True := by
  refine lasts_detachLabel.andThen fun name => ?_
  refine (walk_lasting loop.init ?_ 0).andThen fun _ => .pure trivial
  rw [unmarked]
  exact fun _ member => absurd member List.not_mem_nil

theorem IsLoop.lasts_back (isLoop : IsLoop info stmt loop) (unmarked : marksOf loop.post = [])
    (admitted : ∀ mark ∈ marksOfAll loop.body, inv.admits mark) (name : String) :
    Lasts inv 0 (loop.back info name) inv.fits := by
  refine lasts_loopFrame fun serial above => (isLoop.lasts_enter _).andThen fun _ => ?_
  refine lasts_backEdge above (walkAll_lasting loop.body admitted) (walk_lasting loop.post ?_)
  rw [unmarked]
  exact fun _ member => absurd member List.not_mem_nil

/-- The state that flows back to the head adds nothing to the one that is there. -/
theorem IsLoop.merge_back (isLoop : IsLoop info stmt loop) (legality : legal info visible stmt = true)
    {head behind : Session Assigned Walker} (untouched : Untouched (innerLabels stmt) head) {name : String}
    {back : Assigned} (went : loop.back info name head = .ok back behind) :
    merge head.pass.state back = head.pass.state := by
  obtain ⟨_, unmarked, within⟩ := isLoop.marks legality
  have admitted : ∀ mark ∈ marksOfAll loop.body,
      (rising head.pass.state head.own.serial (innerLabels stmt)).admits mark := by
    intro mark member label same
    subst same
    exact (within.labels label member).resolve_left List.not_mem_nil
  obtain ⟨kept, _⟩ := isLoop.lasts_back unmarked admitted name head untouched.rising (Nat.zero_le _)
  exact (kept back behind went).2.2

theorem Loop.exists_of_run {name : String} {head last : Session Assigned Walker}
    (ran : loop.run info name head = .ok () last) : ∃ back behind, loop.back info name head = .ok back behind := by
  obtain ⟨frame, framed, reserved, ran⟩ := Analysis.exists_of_bind_ok ran
  obtain ⟨leaves, entered, began, ran⟩ := Analysis.exists_of_bind_ok ran
  obtain ⟨back, behind, went, _⟩ := Analysis.exists_of_bind_ok ran
  exact ⟨back, behind, (Analysis.bind_ok reserved).trans ((Analysis.bind_ok began).trans went)⟩

end Rounds

/-! Loops in a function body. -/

section Bodies

variable {info : Info} {body : List Stmt} {stmt : Stmt} {layers : List Layer}

theorem walkLayers_body (placed : fillAll stmt layers = .block body) :
    walkLayers info stmt (walk info stmt) layers = walkAll info body := by
  rw [walkLayers_walk, placed, walk]

theorem exists_of_wellFormed (formed : WellFormed info body) :
    ∃ final, walkAll info body ⟨Pass.start Assigned.entry, Walker.start⟩ = .ok () final := by
  obtain ⟨result, checked, _⟩ := checkFunction_reflects formed
  cases walked : walkAll info body ⟨Pass.start Assigned.entry, Walker.start⟩ with
  | ok _ final => exact ⟨final, rfl⟩
  | error fault after => simp [checkFunction, walked] at checked

/-- The walk of a well-formed body comes to every place in it. -/
theorem comes_of_wellFormed (formed : WellFormed info body) (placed : fillAll stmt layers = .block body) :
    ∃ here, Comes (fun act => walkLayers info stmt act layers) ⟨Pass.start Assigned.entry, Walker.start⟩ here := by
  obtain ⟨final, walked⟩ := exists_of_wellFormed formed
  rcases @walkLayers_reaches info stmt layers ⟨Pass.start Assigned.entry, Walker.start⟩ with
    ⟨fault, after, failed⟩ | comes
  · have failed : walkLayers info stmt (walk info stmt) layers _ = _ := failed (walk info stmt)
    rw [walkLayers_body placed, walked] at failed
    cases failed
  · exact comes

theorem secluded_of_wellFormed (formed : WellFormed info body) (placed : fillAll stmt layers = .block body) :
    Secluded info (allLabels body) stmt (layers.flatMap Layer.marks) := by
  have legality : legal info [] (fillAll stmt layers) = true := by
    rw [placed, legal, List.append_nil]
    exact formed.legal
  have fenced : Fenced [] (innerLabels (fillAll stmt layers)) := by
    rw [placed, innerLabels]
    exact ⟨formed.labels, fun _ seen => absurd seen List.not_mem_nil⟩
  have secluded := secluded_layers legality fenced
  rwa [placed] at secluded

theorem untouched_start (inner : List String) : Untouched inner ⟨Pass.start Assigned.entry, Walker.start⟩ :=
  ⟨fun _ inside => absurd inside List.not_mem_nil, fun _ => Pending.states_empty _⟩

theorem Comes.untouched {here : Session Assigned Walker}
    (comes : Comes (fun act => walkLayers info stmt act layers) ⟨Pass.start Assigned.entry, Walker.start⟩ here)
    (secluded : Secluded info (allLabels body) stmt (layers.flatMap Layer.marks)) :
    Untouched (innerLabels stmt) here := by
  have admitted : ∀ mark ∈ layers.flatMap Layer.marks, (Checker.untouched (innerLabels stmt)).admits mark := by
    intro mark member label same
    subst same
    exact secluded.apart label member
  exact comes.holds (fun _ lasting => walkLayers_lasting admitted lasting 0) (untouched_start _)

/-- One round is enough for every loop in a well-formed body. The walk of the body comes to the loop, and then to its
head. The state that flows back from there adds nothing to the state at the head: from both of them merged, the walk
of the loop ends in the same session, with the same state and the same clauses met, and there the walk of the body
goes on. -/
theorem loop_settled_by_round {loop : Loop} (formed : WellFormed info body) (placed : fillAll stmt layers = .block body)
    (isLoop : IsLoop info stmt loop) :
    ∃ here later, (∀ act, walkLayers info stmt act layers ⟨Pass.start Assigned.entry, Walker.start⟩ =
        (act >>= later) here) ∧
      ∃ name head back behind last,
        loop.approach info here = .ok name head ∧
        loop.back info name head = .ok back behind ∧
        (merge head.pass.state back).equal head.pass.state = true ∧
        (back.isReachable = true → head.pass.state.isReachable = true ∧
          ∀ object ∈ head.pass.state.objects, object ∈ back.objects) ∧
        walk info stmt here = .ok () last ∧
        loop.run info name ⟨head.pass.withState (merge head.pass.state back), head.own⟩ = .ok () last ∧
        walkAll info body ⟨Pass.start Assigned.entry, Walker.start⟩ = later () last := by
  obtain ⟨here, later, comes⟩ := comes_of_wellFormed formed placed
  have secluded := secluded_of_wellFormed formed placed
  obtain ⟨visible, legality, _⟩ := secluded.legal
  -- The walk of the loop itself, from the walk of the whole body.
  obtain ⟨final, whole⟩ := exists_of_wellFormed formed
  have goes : walkAll info body ⟨Pass.start Assigned.entry, Walker.start⟩ = (walk info stmt >>= later) here := by
    rw [← walkLayers_body placed]
    exact comes (walk info stmt)
  obtain ⟨_, last, walked, _⟩ := Analysis.exists_of_bind_ok (goes.symm.trans whole)
  rw [Analysis.bind_ok walked] at goes
  have parts := walked
  rw [isLoop.walk_eq] at parts
  obtain ⟨name, head, approached, ran⟩ := Analysis.exists_of_bind_ok parts
  obtain ⟨back, behind, went⟩ := Loop.exists_of_run ran
  -- Nothing is under way into the loop when its head is reached.
  have untouched : Untouched (innerLabels stmt) head := by
    have before := Comes.untouched ⟨later, comes⟩ secluded
    have lasts := @lasts_approach info loop (Checker.untouched (innerLabels stmt)) (isLoop.marks legality).1
    exact ((lasts here before (Nat.zero_le _)).1 name head approached).1
  have same := isLoop.merge_back legality untouched went
  refine ⟨here, later, comes, name, head, back, behind, last, approached, went, ?_, ?_, walked, ?_, goes⟩
  · rw [same]
    exact Assigned.equal_self _
  · exact Assigned.objects_of_merge_eq same
  · rw [same]
    exact ran

end Bodies

def twoVariables : Info :=
  let named (name : String) : Object := ⟨.var, name, none, "", false⟩
  ⟨"main", ⟨#[]⟩, #[named "x", named "y"]⟩

/-- `for y = range z { again: if z { continue outer }; select { case <-z: goto done; default: goto again };
done: {} }` -/
def innerLoop : Stmt :=
  let other : Expr := .ident none none none
  .range true (some (.ident none none (some 1))) none other
    [.labeled "again" (.cond .empty other [.jump (.continue (some "outer"))] .empty),
      .select [⟨.expr other, [.jump (.goto (some "done"))]⟩, ⟨.empty, [.jump (.goto (some "again"))]⟩],
      .labeled "done" (.block [])]

/-- `outer: for { switch { case z: ... default: } }` -/
def outerLoop : List Layer :=
  [.labeled "outer", .loop .empty none .empty [] [],
    .switch .empty none [] ⟨10, some [.ident none none none], none, []⟩ [] [] [⟨20, none, none, []⟩]]

def nestedLoops : List Stmt :=
  [.assign [.ident none none (some 0)] [.ident none none none], fillAll innerLoop outerLoop]

/-- A look at the state that flows back to the head: the fault tells whether control comes there. -/
def probe (loop : Loop) : CheckM Unit := do
  let name ← loop.approach twoVariables
  let back ← loop.back twoVariables name
  throw (if back.isReachable then .clauseAlone else .nothingToLeave)

/-- The inner loop goes round, by a `goto` past the one that goes back, and `x` is still assigned then. -/
theorem nestedLoops_settled :
    ∃ layers loop, fillAll innerLoop layers = .block nestedLoops ∧ WellFormed twoVariables nestedLoops ∧
      IsLoop twoVariables innerLoop loop ∧
      ∃ here, Comes (fun act => walkLayers twoVariables innerLoop act layers)
          ⟨Pass.start Assigned.entry, Walker.start⟩ here ∧
        ∃ name head back behind,
          loop.approach twoVariables here = .ok name head ∧
          loop.back twoVariables name head = .ok back behind ∧
          back.isReachable = true ∧ (∀ object ∈ head.pass.state.objects, object ∈ back.objects) ∧
          (merge head.pass.state back).equal head.pass.state = true := by
  have formed : WellFormed twoVariables nestedLoops := by decide
  obtain ⟨layers, around⟩ : ∃ layers : List Layer,
      layers = .block [.assign [.ident none none (some 0)] [.ident none none none]] [] :: outerLoop := ⟨_, rfl⟩
  have placed : fillAll innerLoop layers = .block nestedLoops := by
    rw [around]
    rfl
  obtain ⟨loop, isLoop⟩ : ∃ loop, IsLoop twoVariables innerLoop loop := ⟨_, .ranging ..⟩
  obtain ⟨here, later, comes, name, head, back, behind, _, approached, went, same, above, _⟩ :=
    loop_settled_by_round formed placed isLoop
  have reached : back.isReachable = true := by
    have evaluated : (tryCatch (do walkLayers twoVariables innerLoop (probe loop) layers; return none)
        (fun fault => return some fault) : CheckM (Option Fault)).run' ⟨Pass.start Assigned.entry, Walker.start⟩ =
          some (some .clauseAlone) := by
      subst around
      cases isLoop
      decide +kernel
    obtain ⟨after, caught⟩ := Analysis.exists_of_run' evaluated
    have probed : probe loop here = .error (if back.isReachable then .clauseAlone else .nothingToLeave) behind :=
      (Analysis.bind_ok approached).trans (Analysis.bind_ok went)
    have failed := (comes (probe loop)).trans (Analysis.bind_error probed)
    rw [Analysis.tryCatch_error (Analysis.bind_error failed)] at caught
    cases known : back.isReachable with
    | true => rfl
    | false =>
      rw [known] at caught
      cases caught
  exact ⟨layers, loop, placed, formed, isLoop, here, ⟨later, comes⟩, name, head, back, behind, approached, went,
    reached, (above reached).2, same⟩

end ClauseReach.Checker
