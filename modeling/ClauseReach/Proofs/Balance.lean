import ClauseReach.Proofs.Course
import ClauseReach.Proofs.SwitchVisits

/-!
The stack of enclosing statements is balanced. A walk pushes a frame for each statement that it goes into and pops it
when it leaves, whatever states it carries along and whatever frames are there before. So where the walk of a statement
ends, the frames are those from before it, and no name is left waiting. A walk may be stopped by a tree that
the grammar does not produce, but never by itself: there is always a frame where one is needed, and its decision
trees have no nodes but those that are known.
-/

namespace ClauseReach

/-- There is no frame where one is needed. -/
def Fault.ofStack : Fault → Bool
  | .clauseAlone | .nothingToLeave => true
  | _ => false

/-- No syntax tree leads to it: there is no frame, or a decision tree has a node of an unknown kind. -/
def Fault.isInternal : Fault → Bool
  | .unknownDecision _ => true
  | fault => fault.ofStack

theorem Fault.ofStack_of_not_isInternal {fault : Fault} (apart : fault.isInternal = false) : fault.ofStack = false := by
  cases fault with
  | unknownDecision node => rfl
  | _ => exact apart

end ClauseReach

namespace ClauseReach.Checker

open Source StateAlgebra

variable {α β : Type}

/-- From any session in this scope, the computation ends with a result and a scope as they should be, or it faults, but
not for itself. -/
def Nests (scope : Scope) (act : CheckM α) (post : α → Scope → Prop) : Prop :=
  ∀ session : Session Assigned Walker, session.own.scope = scope →
    (∀ value after, act session = .ok value after → post value after.own.scope) ∧
      ∀ fault after, act session = .error fault after → fault.isInternal = false

/-- From one scope to another. -/
abbrev Ends (before : Scope) (act : CheckM α) (after : Scope) : Prop := Nests before act fun _ later => later = after

/-- The computation leaves the scope as it is. -/
abbrev Stays (scope : Scope) (act : CheckM α) : Prop := Ends scope act scope

/-- It does so from every scope. -/
abbrev Steady (act : CheckM α) : Prop := ∀ scope, Stays scope act

namespace Nests

variable {scope middle : Scope} {act : CheckM α} {next : α → CheckM β} {post weaker : α → Scope → Prop}
  {last : β → Scope → Prop}

theorem of_ok (ends : ∀ session : Session Assigned Walker, session.own.scope = scope →
    ∃ value after, act session = .ok value after ∧ post value after.own.scope) : Nests scope act post := by
  intro session same
  obtain ⟨value, after, ended, holds⟩ := ends session same
  constructor
  · intro other later again
    cases ended.symm.trans again
    exact holds
  · intro fault later failed
    cases ended.symm.trans failed

theorem fault {fault : Fault} (apart : fault.isInternal = false) : Nests scope (throw fault : CheckM α) post := by
  intro session _
  constructor
  · intro value after ended
    cases ended
  · intro other after failed
    cases failed
    exact apart

theorem pure {value : α} (holds : post value scope) : Nests scope (pure value) post :=
  of_ok fun session same => ⟨value, session, rfl, same ▸ holds⟩

theorem bind (first : Nests scope act fun value later => Nests later (next value) last) :
    Nests scope (act >>= next) last := by
  intro session same
  obtain ⟨went, failed⟩ := first session same
  cases began : act session with
  | ok value middle =>
    rw [Analysis.bind_ok began]
    exact went value middle began middle rfl
  | error fault middle =>
    rw [Analysis.bind_error began]
    constructor
    · intro value after ended
      cases ended
    · intro other after same
      cases same
      exact failed fault middle began

theorem mono (nests : Nests scope act post) (implies : ∀ value later, post value later → weaker value later) :
    Nests scope act weaker := by
  intro session same
  obtain ⟨went, failed⟩ := nests session same
  exact ⟨fun value after ended => implies _ _ (went value after ended), failed⟩

/-- If it is known where the first computation ends, the second one starts there. -/
theorem andThen (first : Ends scope act middle) (rest : ∀ value, Nests middle (next value) last) :
    Nests scope (act >>= next) last := by
  apply bind
  apply first.mono
  intro value later same
  rw [same]
  exact rest value

end Nests

/-! ### Operations -/

section Operations

variable {scope : Scope} {frames : List Frame} {frame : Frame} {attached : String} {act : CheckM α}
  {next : α → CheckM β}

namespace Steady

theorem pure (value : α) : Steady (pure value : CheckM α) := fun _ => .pure rfl

theorem fault {fault : Fault} (apart : fault.isInternal = false) : Steady (throw fault : CheckM α) := fun _ => .fault apart

theorem bind (first : Steady act) (rest : ∀ value, Steady (next value)) : Steady (act >>= next) :=
  fun scope => (first scope).andThen fun value => rest value scope

/-- What does not change the scope may stand in front. -/
theorem before (first : Steady act) {last : β → Scope → Prop} (rest : ∀ value, Nests scope (next value) last) :
    Nests scope (act >>= next) last :=
  (first scope).andThen rest

end Steady

theorem steady_onPass (act : Pass Assigned → α × Pass Assigned) : Steady (Analysis.onPass act : CheckM α) :=
  fun _ => .of_ok fun _ same => ⟨_, _, rfl, same⟩

theorem steady_current : Steady (Analysis.current : CheckM Assigned) :=
  fun _ => .of_ok fun _ same => ⟨_, _, rfl, same⟩

theorem steady_modifyPass (act : Pass Assigned → Pass Assigned) : Steady (Analysis.modifyPass act : CheckM Unit) :=
  steady_onPass fun pass => ((), act pass)

theorem steady_setCurrent (state : Assigned) : Steady (Analysis.setCurrent state : CheckM Unit) := steady_modifyPass _

theorem steady_branch (dest : Dest) : Steady (Analysis.branch dest : CheckM Unit) := steady_modifyPass _

theorem steady_resolve (dest : Dest) : Steady (Analysis.resolve dest : CheckM Nat) := steady_onPass _

theorem steady_resolveAll (dests : List Dest) : Steady (Analysis.resolveAll dests : CheckM Unit) := by
  induction dests with
  | nil => exact .pure ()
  | cons dest rest ih => exact (steady_resolve dest).bind fun _ => ih

theorem steady_frames : Steady Checker.frames :=
  fun _ => .of_ok fun _ same => ⟨_, _, rfl, same⟩

theorem steady_reserve (count : Nat) : Steady (reserve count) :=
  fun _ => .of_ok fun _ same => ⟨_, _, rfl, same⟩

/-- The name that waits is taken. -/
theorem nests_detachLabel {next : String → CheckM β} {last : β → Scope → Prop}
    (rest : Nests ⟨frames, ""⟩ (next attached) last) : Nests ⟨frames, attached⟩ (detachLabel >>= next) last := by
  apply Nests.bind
  apply Nests.of_ok
  intro session same
  cases same
  exact ⟨_, _, rfl, rest⟩

theorem ends_attach (label : String) : Ends ⟨frames, attached⟩ (attach label) ⟨frames, label⟩ := by
  apply Nests.of_ok
  intro session same
  cases same
  exact ⟨_, _, rfl, rfl⟩

theorem ends_push : Ends ⟨frames, attached⟩ (push frame) ⟨frame :: frames, attached⟩ := by
  apply Nests.of_ok
  intro session same
  cases same
  exact ⟨_, _, rfl, rfl⟩

theorem ends_pop : Ends ⟨frame :: frames, attached⟩ pop ⟨frames, attached⟩ := by
  apply Nests.of_ok
  intro session same
  have inside : session.own.frames = frame :: frames := congrArg Scope.frames same
  have kept : session.own.attached = attached := congrArg Scope.attached same
  exact ⟨_, _, pop_eq inside, by rw [← kept]; rfl⟩

theorem ends_arrive (index : Nat) (clause : CaseClause) : Ends ⟨frame :: frames, attached⟩ (arrive index clause)
    ⟨{ frame with current := index } :: frames, attached⟩ := by
  apply Nests.of_ok
  intro session same
  have inside : session.own.frames = frame :: frames := congrArg Scope.frames same
  have kept : session.own.attached = attached := congrArg Scope.attached same
  exact ⟨_, _, arrive_eq index clause inside, by rw [← kept]; rfl⟩

/-- A body may change the frame that is around it; the frames around that one stay. -/
theorem stays_within {body : CheckM Unit}
    (inside : Nests ⟨frame :: frames, ""⟩ body fun _ later => ∃ top, later = ⟨top :: frames, ""⟩) :
    Stays ⟨frames, ""⟩ (within frame body) := by
  refine ends_push.andThen fun _ => .bind (inside.mono ?_)
  intro _ later changed
  obtain ⟨top, rfl⟩ := changed
  exact ends_pop

end Operations

/-! ### Statements without a frame -/

section Simple

variable {info : Info}

theorem steady_assignAll (targets : List Expr) : Steady (assignAll info targets) := by
  induction targets with
  | nil => exact .pure ()
  | cons target rest ih =>
    refine Steady.bind ?_ fun _ => ih
    unfold assign
    split
    · exact steady_current.bind fun state => steady_setCurrent _
    · exact .pure ()

theorem steady_declareAll (specs : List Spec) : Steady (declareAll info specs) := by
  induction specs with
  | nil => exact .pure ()
  | cons spec rest ih =>
    cases spec with
    | type => exact .fault rfl
    | values names initial =>
      cases initial with
      | nil => exact ih
      | cons value others => exact (steady_assignAll names).bind fun _ => ih

theorem steady_evaluate (expr : Expr) : Steady (evaluate info expr) := by
  unfold evaluate
  split
  · exact steady_setCurrent _
  · exact .pure ()

theorem steady_jump (jump : Jump) : Steady (Checker.jump jump) := by
  cases jump with
  | «break» label =>
    refine steady_frames.bind fun frames => ?_
    cases breakFrame? label frames with
    | none => exact steady_setCurrent _
    | some frame => exact (steady_branch _).bind fun _ => steady_setCurrent _
  | «continue» label =>
    refine steady_frames.bind fun frames => ?_
    cases continueFrame? label frames with
    | none => exact steady_setCurrent _
    | some frame => exact (steady_branch _).bind fun _ => steady_setCurrent _
  | goto label =>
    cases label with
    | none => exact .fault rfl
    | some name => exact (steady_branch _).bind fun _ => steady_setCurrent _
  | «fallthrough» =>
    refine steady_frames.bind fun frames => ?_
    cases nextSection? frames with
    | none => exact steady_setCurrent _
    | some labels =>
      cases labels with
      | nil => exact .fault rfl
      | cons label rest => exact (steady_branch _).bind fun _ => steady_setCurrent _
  | other => exact steady_setCurrent _

end Simple

/-! ### Statements with parts -/

section Compound

variable {info : Info} {scope : Scope} {frames : List Frame} {name : String} {init body post : CheckM Unit}

theorem stays_labeled {label : String} {named : Bool} {stmt : CheckM Unit}
    (inside : Ends ⟨frames, if named then label else ""⟩ stmt ⟨frames, ""⟩) :
    Stays ⟨frames, ""⟩ (labeled label named stmt) := by
  refine (steady_resolve _).before fun _ => ?_
  cases named with
  | false => exact inside
  | true => exact (ends_attach label).andThen fun _ => inside

theorem stays_choose (condition : Expr) {first second : CheckM Unit} (whenTrue : Stays scope first)
    (whenFalse : Stays scope second) : Stays scope (choose condition first second) := by
  refine steady_current.before fun state => (steady_setCurrent _).before fun _ => ?_
  refine whenTrue.andThen fun _ => steady_current.before fun kept => ?_
  refine (steady_setCurrent _).before fun _ => whenFalse.andThen fun _ => ?_
  exact steady_modifyPass _ _

/-- The way out of a statement. -/
theorem steady_leave (state : Assigned) (dest : Dest) :
    Steady (do Analysis.setCurrent state; let _ ← Analysis.resolve dest : CheckM Unit) :=
  (steady_setCurrent _).bind fun _ => (steady_resolve _).bind fun _ => .pure ()

/-- A loop has its name, and two labels of its own. -/
theorem nests_loopFrame {next : Frame → CheckM β} {last : β → Scope → Prop}
    (rest : ∀ serial, Nests scope (next (newLoop serial name)) last) : Nests scope (loopFrame name >>= next) last :=
  Nests.bind ((steady_reserve 2).before fun serial => .pure (rest serial))

theorem stays_rounds {frame : Frame} (inside : Stays ⟨frame :: frames, ""⟩ body)
    (last : Stays ⟨frames, ""⟩ post) (state : Assigned) :
    Stays ⟨frames, ""⟩ (do
      let _ ← backEdge frame body post
      Analysis.setCurrent state
      let _ ← Analysis.resolve (some frame.brk)) := by
  have around : Stays ⟨frames, ""⟩ (within frame body) :=
    stays_within (inside.mono fun _ later same => ⟨frame, same⟩)
  have round : Stays ⟨frames, ""⟩ (backEdge frame body post) :=
    around.andThen fun _ => (steady_resolve _).before fun _ => last.andThen fun _ => steady_current _
  exact round.andThen fun _ => steady_leave _ _ _

theorem ends_loop (condition : Option Expr) (initial : Stays ⟨frames, ""⟩ init)
    (inside : ∀ serial, Stays ⟨newLoop serial name :: frames, ""⟩ body)
    (last : Stays ⟨frames, ""⟩ post) :
    Ends ⟨frames, name⟩ (loop init condition body post) ⟨frames, ""⟩ := by
  refine nests_detachLabel (initial.andThen fun _ => nests_loopFrame fun serial => ?_)
  refine steady_current.before fun entry => ?_
  exact (steady_setCurrent _).before fun _ => stays_rounds (inside serial) last _

theorem ends_range {targets : CheckM Unit} (assigns : Steady targets)
    (inside : ∀ serial, Stays ⟨newLoop serial name :: frames, ""⟩ body) :
    Ends ⟨frames, name⟩ (range targets body) ⟨frames, ""⟩ := by
  refine nests_detachLabel (steady_current.before fun entry => nests_loopFrame fun serial => ?_)
  exact assigns.before fun _ => stays_rounds (inside serial) (.pure rfl) _

theorem stays_alternatives {acts : List (CheckM Unit)} (each : ∀ act ∈ acts, Stays scope act)
    (entry exits : Assigned) : Stays scope (alternatives entry exits acts) := by
  induction acts generalizing exits with
  | nil => exact .pure rfl
  | cons act rest ih =>
    rw [List.forall_mem_cons] at each
    refine (steady_setCurrent _).before fun _ => each.1.andThen fun _ => ?_
    exact steady_current.before fun state => ih each.2 _

theorem ends_select {acts : List (CheckM Unit)} (each : ∀ act ∈ acts, ∀ serial,
    Stays ⟨newSelect serial name :: frames, ""⟩ act) :
    Ends ⟨frames, name⟩ (select acts) ⟨frames, ""⟩ := by
  refine nests_detachLabel ((steady_reserve 1).before fun serial => steady_current.before fun entry => ?_)
  have inside := stays_alternatives (fun act listed => each act listed serial) entry unreachable
  exact ends_push.andThen fun _ => inside.andThen fun exits => ends_pop.andThen fun _ => steady_leave _ _ _

/-! Switches. -/

variable {frame : Frame} {entrances : List Entrance} {bodies : List (CheckM Unit)} {tag : Option Expr}
  {clauses : List CaseClause}

/-- The frame of a switch while the clause at this index is walked. -/
def Frame.at (frame : Frame) (index : Nat) : Frame := { frame with current := index }

/-- Every clause is walked under its own index, whatever the clauses before it have left there. -/
theorem nests_runSections {first : Nat} (each : ∀ index body, bodies[index]? = some body →
      Stays ⟨frame.at (first + index) :: frames, ""⟩ body)
    (current : Nat) (exits : Assigned) :
    Nests ⟨frame.at current :: frames, ""⟩
      (Switch.runSections exits (((entrances.zip bodies).zipIdx first).map sectionOf))
      fun _ later => ∃ last, later = ⟨frame.at last :: frames, ""⟩ := by
  induction bodies generalizing entrances first current exits with
  | nil =>
    rw [List.zip_nil_right]
    exact .pure ⟨current, rfl⟩
  | cons body rest ih =>
    cases entrances with
    | nil => exact .pure ⟨current, rfl⟩
    | cons entrance others =>
      have enters : Ends ⟨frame.at current :: frames, ""⟩ (arrive first entrance.clause)
          ⟨frame.at first :: frames, ""⟩ := ends_arrive first entrance.clause
      have inside := each 0 body rfl
      refine (steady_setCurrent _).before fun _ => (steady_resolveAll _).before fun _ => ?_
      refine Nests.andThen (enters.andThen fun _ => inside) fun _ => steady_current.before fun state => ?_
      apply ih
      intro index body listed
      have shifted := each (index + 1) body listed
      rwa [show first + (index + 1) = first + 1 + index by omega] at shifted

/-- What leaves a switch in its frame, with whatever index. -/
abbrev Leaves (frame : Frame) (frames : List Frame) (act : CheckM Unit) : Prop :=
  Nests ⟨frame :: frames, ""⟩ act fun _ later => ∃ top, later = ⟨top :: frames, ""⟩

theorem leaves_finish (each : ∀ index body, bodies[index]? = some body →
      Stays ⟨frame.at index :: frames, ""⟩ body) (passing : Assigned) (brk : Dest) :
    Leaves frame frames (Switch.finish passing (sections entrances bodies) brk) := by
  have counted : ∀ index body, bodies[index]? = some body → Stays ⟨frame.at (0 + index) :: frames, ""⟩ body := by
    simpa only [Nat.zero_add] using each
  refine Nests.bind ((nests_runSections counted frame.current unreachable).mono ?_)
  intro exits later given
  obtain ⟨last, rfl⟩ := given
  exact (steady_leave _ _ _).mono fun _ later same => ⟨frame.at last, same⟩

theorem steady_branchAll (dests : List Dest) (seen : Bool) : Steady (Switch.branchAll seen dests : CheckM Bool) := by
  induction dests generalizing seen with
  | nil => exact .pure seen
  | cons dest rest ih =>
    refine (steady_branch dest).bind fun _ => ?_
    cases seen with
    | true => exact ih true
    | false =>
      cases dest with
      | none => exact .fault rfl
      | some label => exact ih _

theorem leaves_jumpSwitch {parts : List (Section Assigned Walker)} {brk : Dest}
    (finishes : ∀ passing, Leaves frame frames (Switch.finish passing parts brk)) (goal : Dest) :
    Leaves frame frames (JumpSwitch.run { scrutinee := pure (), sections := parts, brk, target := goal }) := by
  have rest (passing : Assigned) : Leaves frame frames (do
      Analysis.setUnreachable
      Switch.finish passing parts brk) :=
    (steady_setCurrent _).before fun _ => finishes passing
  refine Nests.andThen (.pure rfl) fun _ => steady_current.before fun entry => ?_
  cases goal with
  | none => exact (steady_branchAll _ _).before fun default => rest _
  | some label =>
    dsimp only
    split
    · exact rest _
    · exact (steady_branch _).before fun _ => rest _

theorem nests_switchFrame {serial : Nat} {next : Frame → CheckM β} {last : β → Scope → Prop}
    (rest : ∀ live, Nests scope (next (newSwitch serial name entrances live)) last) :
    Nests scope (switchFrame name ⟨serial, .break, name⟩ entrances >>= next) last :=
  Nests.bind (steady_current.before fun state => .pure (rest state.isReachable))

theorem ends_switch (initial : Stays ⟨frames, ""⟩ init)
    (each : ∀ index body, bodies[index]? = some body → ∀ serial live, Stays
      ⟨(newSwitch serial name (SwitchPlan.entrancesFrom (serial + 1) clauses) live).at index :: frames, ""⟩ body) :
    Ends ⟨frames, name⟩ (switch init tag clauses bodies) ⟨frames, ""⟩ := by
  refine nests_detachLabel (initial.andThen fun _ => (steady_reserve _).before fun serial => ?_)
  refine nests_switchFrame fun live => ?_
  apply stays_within
  apply leaves_jumpSwitch
  exact fun passing => leaves_finish (fun index body listed => each index body listed serial live) passing _

/-! A type switch walks its decision tree first. -/

theorem steady_enter (bindings : List ObjectId) (guard : Option Expr) (label : Dest) :
    Steady (matcher.enter bindings guard label) := by
  have binds : Steady (matcher.bind bindings label) := steady_current.bind fun state => steady_setCurrent _
  refine binds.bind fun _ => ?_
  cases guard with
  | none => exact .pure ()
  | some guard =>
    have splits : Steady (matcher.split guard) := steady_current.bind fun state => .pure _
    exact splits.bind fun parts => steady_setCurrent _

theorem steady_leaf (entrance : Entrance) : Steady ((TypeSwitchPlan.leaf entrance).walk matcher none) := by
  refine steady_current.bind fun entry => (steady_enter _ _ _).bind fun _ => ?_
  refine steady_current.bind fun state => (steady_modifyPass _).bind fun _ => ?_
  exact (steady_setCurrent _).bind fun _ => .pure ()

theorem steady_onNull (tests : List (Entrance × TypeSwitchPlan.Test)) :
    Steady ((TypeSwitchPlan.onNull tests).walk matcher none) := by
  fun_induction TypeSwitchPlan.onNull tests with
  | case1 => exact .pure ()
  | case2 entrance rest => exact steady_leaf entrance
  | case3 first rest _ ih => exact ih

theorem steady_types {trees : List (Decision Expr ObjectId)} (each : ∀ tree ∈ trees, Steady (tree.walk matcher none))
    (entry : Assigned) : Steady (Decision.walkTypes matcher none entry trees) := by
  induction trees with
  | nil => exact .pure ()
  | cons tree rest ih =>
    rw [List.forall_mem_cons] at each
    exact (steady_setCurrent _).bind fun _ => each.1.bind fun _ => ih each.2

/-- The tree of a type switch has leaves for its cases, and no other nodes below the first. -/
theorem steady_tree (tests : List (Entrance × TypeSwitchPlan.Test)) :
    Steady (Decision.walk matcher none
      (.byType (TypeSwitchPlan.onNull tests) (tests.filterMap TypeSwitchPlan.typeLeaf?) .empty)) := by
  have each : ∀ tree ∈ tests.filterMap TypeSwitchPlan.typeLeaf?, Steady (tree.walk matcher none) := by
    intro tree member
    obtain ⟨⟨entrance, test⟩, _, found⟩ := List.mem_filterMap.mp member
    cases test <;> cases found
    exact steady_leaf entrance
  refine steady_current.bind fun entry => (steady_setCurrent _).bind fun _ => (steady_onNull tests).bind fun _ => ?_
  exact (steady_types each entry).bind fun _ => (steady_setCurrent _).bind fun _ => .pure ()

namespace TypeSwitchPlan

theorem asserted_fault {expr : Expr} {fault : Fault} (refused : scrutinee.asserted expr = .error fault) :
    fault.isInternal = false := by
  unfold scrutinee.asserted at refused
  split at refused
  · cases refused
  · cases refused
    rfl

theorem scrutinee_fault {guard : Stmt} {fault : Fault} (refused : scrutinee guard = .error fault) :
    fault.isInternal = false := by
  unfold scrutinee at refused
  split at refused
  · exact asserted_fault refused
  · exact asserted_fault refused
  · cases refused
    rfl
  · cases refused
    rfl

/-- A plan is refused for the head of the switch or for its cases. -/
theorem make_fault {serial : Nat} {guard : Stmt} {fault : Fault}
    (refused : make info serial name guard clauses = .error fault) : fault.isInternal = false := by
  unfold make at refused
  cases found : scrutinee guard with
  | error other =>
    rw [found] at refused
    cases refused
    exact scrutinee_fault found
  | ok operand =>
    simp only [found, bind, Except.bind] at refused
    split at refused
    · cases refused
      rfl
    · cases refused

end TypeSwitchPlan

theorem leaves_treeSwitch {parts : List (Section Assigned Walker)} {brk : Dest}
    (finishes : ∀ passing, Leaves frame frames (Switch.finish passing parts brk)) {tree : Decision Expr ObjectId}
    (walks : Steady (tree.walk matcher none)) (fallback : Dest) (complete : Bool) :
    Leaves frame frames (TreeSwitch.run matcher
      { scrutinee := pure (), known := none, tree, fallback, complete, sections := parts, brk }) := by
  refine Nests.andThen (.pure rfl) fun _ => steady_current.before fun entry => ?_
  refine walks.before fun _ => ?_
  cases fallback with
  | none => exact finishes _
  | some label => exact steady_current.before fun state => (steady_modifyPass _).before fun _ => finishes _

theorem ends_typeSwitch {guard : Stmt} (initial : Stays ⟨frames, ""⟩ init)
    (each : ∀ index body, bodies[index]? = some body → ∀ serial live, Stays
      ⟨(newSwitch serial name (TypeSwitchPlan.entrancesFrom (serial + 1) clauses) live).at index :: frames, ""⟩ body) :
    Ends ⟨frames, name⟩ (typeSwitch info init guard clauses bodies) ⟨frames, ""⟩ := by
  refine nests_detachLabel (initial.andThen fun _ => (steady_reserve _).before fun serial => ?_)
  rcases TypeSwitchPlan.make_cases info serial name guard clauses with ⟨_, fault, plan⟩ | ⟨_, complete, plan⟩
  · rw [plan]
    exact .fault (TypeSwitchPlan.make_fault plan)
  · rw [plan]
    refine nests_switchFrame fun live => ?_
    apply stays_within
    refine leaves_treeSwitch (fun passing => ?_) (steady_tree _) _ _
    exact leaves_finish (fun index body listed => each index body listed serial live) passing _

end Compound

/-! ### Whole walks -/

section Walks

variable {info : Info}

mutual

/-- The frames are left as they are, and a waiting name is taken by the statement that it stands in front of. -/
theorem walk_ends : ∀ (stmt : Stmt) {frames : List Frame} {name : String}, takesLabel stmt = true ∨ name = "" →
    Ends ⟨frames, name⟩ (walk info stmt) ⟨frames, ""⟩
  | .empty, _, _, .inr rfl | .eval _, _, _, .inr rfl | .declare .other _, _, _, .inr rfl => .pure rfl
  | .block body, _, _, .inr rfl => walkAll_stays body
  | .expr expr, _, _, .inr rfl => steady_evaluate expr _
  | .assign targets _, _, _, .inr rfl => steady_assignAll targets _
  | .declare .variables specs, _, _, .inr rfl => steady_declareAll specs _
  | .return _, _, _, .inr rfl => steady_setCurrent _ _
  | .jump jump, _, _, .inr rfl => steady_jump jump _
  | .labeled label stmt, _, _, .inr rfl => by
    apply stays_labeled
    apply walk_ends stmt
    cases takesLabel stmt <;> simp
  | .cond init condition body otherwise, _, _, .inr rfl =>
    (walk_ends init (.inr rfl)).andThen fun _ =>
      stays_choose condition (walkAll_stays body) (walk_ends otherwise (.inr rfl))
  | .loop init condition post body, _, _, _ =>
    ends_loop condition (walk_ends init (.inr rfl)) (fun _ => walkAll_stays body) (walk_ends post (.inr rfl))
  | .range assigns key value _ body, _, _, _ => by
    apply ends_range _ fun _ => walkAll_stays body
    split
    · exact steady_assignAll _
    · exact .pure ()
  | .select clauses, _, _, _ => ends_select fun act listed _ => walkComms_stays clauses act listed
  | .switch init _ clauses, _, _, _ =>
    ends_switch (walk_ends init (.inr rfl)) fun _ body listed _ _ =>
      walkCases_stays clauses body (List.mem_of_getElem? listed)
  | .typeSwitch init guard clauses, _, _, _ =>
    ends_typeSwitch (walk_ends init (.inr rfl)) fun _ body listed _ _ =>
      walkCases_stays clauses body (List.mem_of_getElem? listed)
termination_by structural stmt => stmt

theorem walkAll_stays : ∀ (stmts : List Stmt) {frames : List Frame}, Stays ⟨frames, ""⟩ (walkAll info stmts)
  | [], _ => .pure rfl
  | stmt :: rest, _ => (walk_ends stmt (.inr rfl)).andThen fun _ => walkAll_stays rest
termination_by structural stmts => stmts

theorem walkCases_stays : ∀ (clauses : List CaseClause), ∀ body ∈ walkCases info clauses, ∀ {frames : List Frame},
    Stays ⟨frames, ""⟩ body
  | [], _, listed, _ => absurd listed List.not_mem_nil
  | ⟨_, _, _, body⟩ :: rest, act, listed, frames => by
    rcases List.mem_cons.mp listed with rfl | later
    · exact walkAll_stays body
    · exact walkCases_stays rest act later
termination_by structural clauses => clauses

theorem walkComms_stays : ∀ (clauses : List CommClause), ∀ act ∈ walkComms info clauses, ∀ {frames : List Frame},
    Stays ⟨frames, ""⟩ act
  | [], _, listed, _ => absurd listed List.not_mem_nil
  | ⟨comm, body⟩ :: rest, act, listed, frames => by
    rcases List.mem_cons.mp listed with rfl | later
    · exact (walk_ends comm (.inr rfl)).andThen fun _ => walkAll_stays body
    · exact walkComms_stays rest act later
termination_by structural clauses => clauses

end

end Walks

end ClauseReach.Checker
