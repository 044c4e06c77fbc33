import ClauseReach.Proofs.Client
import ClauseReach.Proofs.Invariant
import ClauseReach.Proofs.Leaves
import ClauseReach.Proofs.StateOrder
import ClauseReach.Proofs.Totality

/-!
Where a type switch goes when the program runs. The value switched on is nil or has a dynamic type, and the first
clause with a case that matches it is chosen, else the default clause. If control comes to the head of a type switch,
the walk enters the clause that is chosen for any such value in a state that control reaches, and it comes behind
the switch if no clause is chosen.
-/

namespace ClauseReach.Checker

open Source StateAlgebra

/-- Dynamic types: those that a value of a static type can have, and those that a case for a type matches. If a
static type can be assigned to an interface, the interface matches all values of it but nil. -/
structure Dynamics (info : Info) where
  Kind : Type
  allows : Option TypeRef → Kind → Prop
  fits : Kind → TypeRef → Bool
  assignable : ∀ {type id kind}, info.types.isInterface id = true → info.types.assignable info.package type id = true →
    allows (some type) kind → fits kind (.entry id) = true

namespace Dynamics

variable {info : Info} (dynamics : Dynamics info) {value : Option dynamics.Kind} {clauses : List CaseClause}

def accepts : Option dynamics.Kind → Expr → Bool
  | none, case => info.isNil case
  | some kind, case => !info.isNil case && (info.typeOf case).any (dynamics.fits kind)

def choice (value : Option dynamics.Kind) (clauses : List CaseClause) : Option Nat :=
  (clauses.findIdx? fun clause => (clause.cases.getD []).any (dynamics.accepts value)).or
    (clauses.findIdx? (·.cases.isNone))

def CanBe (operand : Expr) (value : Option dynamics.Kind) : Prop :=
  ∀ kind, value = some kind → dynamics.allows (info.typeOf operand) kind

theorem refused_of_none (past : dynamics.choice value clauses = none) :
    ∀ case ∈ clauses.flatMap (·.cases.getD []), dynamics.accepts value case = false := by
  intro case member
  obtain ⟨clause, listed, own⟩ := List.mem_flatMap.mp member
  have unmatched := List.findIdx?_eq_none_iff.mp (Option.or_eq_none_iff.mp past).1 clause listed
  exact Bool.eq_false_iff.mpr (List.any_eq_false.mp unmatched case own)

theorem accepts_of_catchesAll {operand case : Expr} {kind : dynamics.Kind}
    (possible : dynamics.CanBe operand (some kind))
    (catches : TypeSwitchPlan.catchesAll info (info.typeOf operand) (TypeSwitchPlan.test info case) = true) :
    dynamics.accepts (some kind) case = true := by
  unfold TypeSwitchPlan.test at catches
  split at catches
  next => cases catches
  next notNil =>
    cases typed : info.typeOf case with
    | none =>
      rw [typed] at catches
      cases catches
    | some type =>
      rw [typed] at catches
      cases type with
      | entry id =>
        simp only [TypeSwitchPlan.catchesAll, Bool.and_eq_true, Option.any_eq_true] at catches
        obtain ⟨isInterface, static, known, assigns⟩ := catches
        have allowed := possible kind rfl
        rw [known] at allowed
        simp [accepts, notNil, typed, dynamics.assignable isInterface assigns allowed]
      | untypedNil => cases catches
      | invalid => cases catches
      | signature => cases catches

theorem incomplete_of_none {guard : Stmt} {operand : Expr} (found : TypeSwitchPlan.scrutinee guard = .ok operand)
    (possible : dynamics.CanBe operand value) (past : dynamics.choice value clauses = none) :
    Paths.isComplete info guard clauses = false := by
  have refused := dynamics.refused_of_none past
  simp only [Paths.isComplete, found, ← List.map_flatMap, List.any_map, Bool.and_eq_false_iff]
  cases value with
  | none =>
    left
    apply List.any_eq_false.mpr
    intro case member
    simpa [TypeSwitchPlan.isNullTest_test, accepts] using refused case member
  | some kind =>
    right
    apply List.any_eq_false.mpr
    intro case member catches
    have accepted := dynamics.accepts_of_catchesAll possible catches
    rw [refused case member] at accepted
    cases accepted

end Dynamics

/-! The head of a type switch. -/

/-- A branch from a point that control reaches is under way to this destination. -/
def Awaits (session : Session Assigned Walker) (dest : Dest) : Prop :=
  ∃ state ∈ session.pass.pending.states dest, state.isReachable = true

section Record

variable {session : Session Assigned Walker} {dest other : Dest} {state : Assigned}

theorem Awaits.record (waits : Awaits session other) (own : Walker) :
    Awaits ⟨session.pass.record dest state, own⟩ other := by
  obtain ⟨found, member, reached⟩ := waits
  refine ⟨found, ?_, reached⟩
  change found ∈ (session.pass.pending.record dest state).states other
  rw [Pending.states_record]
  split
  next same =>
    rw [← same]
    exact List.mem_append_left _ member
  next => exact member

theorem awaits_record (reached : state.isReachable = true) (own : Walker) :
    Awaits ⟨session.pass.record dest state, own⟩ dest := by
  refine ⟨state, ?_, reached⟩
  change state ∈ (session.pass.pending.record dest state).states dest
  rw [Pending.states_record, if_pos rfl]
  exact List.mem_append_right _ (List.mem_singleton_self state)

end Record

def leafOf (entrance : Entrance) : Leaf Expr ObjectId :=
  ⟨entrance.clause.binding.toList, none, entrance.labels.head?⟩

theorem visits_typeTree (tests : List (Entrance × TypeSwitchPlan.Test)) :
    (Decision.byType (TypeSwitchPlan.onNull tests) (tests.filterMap TypeSwitchPlan.typeLeaf?) .empty).visits none =
      (TypeSwitchPlan.leaves tests).map fun entrance => .leaf (leafOf entrance) := by
  have types (doors : List Entrance) : Decision.visitsOfTypes none (doors.map TypeSwitchPlan.leaf) =
      doors.map fun entrance => .leaf (leafOf entrance) := by
    induction doors with
    | nil => rfl
    | cons entrance rest ih =>
      rw [List.map_cons, Decision.visitsOfTypes, ih]
      rfl
  rw [Decision.visits, TypeSwitchPlan.onNull_eq, TypeSwitchPlan.typeLeaves_eq, types, TypeSwitchPlan.leaves,
    List.map_append]
  congr 1
  · cases TypeSwitchPlan.nullDoor tests <;> rfl
  · exact List.append_nil _

theorem follow_delivers (doors : List Entrance) {session : Session Assigned Walker}
    (reached : session.pass.state.isReachable = true) :
    ∃ after, follow matcher session.pass.state (doors.map fun entrance => .leaf (leafOf entrance)) session =
        .ok () after ∧ after.own = session.own ∧ after.pass.state = session.pass.state ∧
      (∀ dest, Awaits session dest → Awaits after dest) ∧ ∀ entrance ∈ doors, Awaits after entrance.labels.head? := by
  induction doors generalizing session with
  | nil => exact ⟨session, rfl, rfl, rfl, fun _ waits => waits, fun _ member => absurd member List.not_mem_nil⟩
  | cons entrance rest ih =>
    obtain ⟨bound, known⟩ : ∃ bound, bound = session.pass.state.assign (entrance.clause.binding.toList.map some) :=
      ⟨_, rfl⟩
    have live : bound.isReachable = true := by
      rw [known, isReachable_assign]
      exact reached
    obtain ⟨after, ended, own, state, kept, sent⟩ :=
      @ih ⟨session.pass.record entrance.labels.head? bound, session.own⟩ reached
    refine ⟨after, ?_, own, state, fun dest waits => kept dest (waits.record _), ?_⟩
    · subst known
      exact ended
    · exact List.forall_mem_cons.mpr ⟨kept _ (awaits_record live _), sent⟩

theorem typeHeader_delivers {tests : List (Entrance × TypeSwitchPlan.Test)} {fallback brk : Dest} {complete : Bool}
    {sections : List (Section Assigned Walker)} {session : Session Assigned Walker}
    (reached : session.pass.state.isReachable = true) :
    ∃ after, (AnySwitch.tree matcher {
        scrutinee := pure ()
        known := none
        tree := .byType (TypeSwitchPlan.onNull tests) (tests.filterMap TypeSwitchPlan.typeLeaf?) .empty
        fallback
        complete
        sections
        brk }).header session = .ok (if complete then unreachable else session.pass.state) after ∧
      after.own = session.own ∧
      (∀ entrance ∈ TypeSwitchPlan.leaves tests, Awaits after entrance.labels.head?) ∧
      ∀ label, fallback = some label → Awaits after (some label) := by
  obtain ⟨middle, walked, own, state, _, sent⟩ := follow_delivers (TypeSwitchPlan.leaves tests) reached
  rw [← visits_typeTree, ← Decision.walk_eq_follow] at walked
  have here : Analysis.current session = .ok session.pass.state session := rfl
  cases fallback with
  | none =>
    refine ⟨middle, ?_, own, sent, fun _ absent => nomatch absent⟩
    change (Analysis.current >>= fun entry => Decision.walk matcher none _ >>= fun _ =>
      pure (if complete then unreachable else clone entry)) session = _
    rw [Analysis.bind_ok here, Analysis.bind_ok walked, TransparentClone.clone_eq]
    rfl
  | some label =>
    have live : middle.pass.state.isReachable = true := state ▸ reached
    refine ⟨⟨middle.pass.record (some label) middle.pass.state, middle.own⟩, ?_, own, ?_, ?_⟩
    · change (Analysis.current >>= fun entry => Decision.walk matcher none _ >>= fun _ =>
        Analysis.current >>= fun state => Analysis.record (some label) state >>= fun _ =>
          pure (if complete then unreachable else clone entry)) session = _
      rw [Analysis.bind_ok here, Analysis.bind_ok walked, TransparentClone.clone_eq]
      rfl
    · exact fun entrance member => (sent entrance member).record _
    · intro other same
      cases same
      exact awaits_record live _

/-! The chosen clause. -/

theorem nullDoor_eq {info : Info} (entrances : List Entrance) :
    TypeSwitchPlan.nullDoor (TypeSwitchPlan.tests info entrances) =
      entrances.find? fun entrance => (entrance.clause.cases.getD []).any info.isNil := by
  have through (entrance : Entrance) (cases : List Expr) (rest : List (Entrance × TypeSwitchPlan.Test)) :
      TypeSwitchPlan.nullDoor (cases.map (fun case => (entrance, TypeSwitchPlan.test info case)) ++ rest) =
        if cases.any info.isNil then some entrance else TypeSwitchPlan.nullDoor rest := by
    induction cases with
    | nil => rfl
    | cons case cases ih =>
      rw [List.map_cons, List.cons_append, List.any_cons]
      by_cases null : info.isNil case = true
      · simp [TypeSwitchPlan.test, null, TypeSwitchPlan.nullDoor]
      · cases typed : info.typeOf case <;> simpa [TypeSwitchPlan.test, null, typed, TypeSwitchPlan.nullDoor] using ih
  induction entrances with
  | nil => rfl
  | cons entrance rest ih =>
    rw [TypeSwitchPlan.tests, List.flatMap_cons, through, List.find?_cons, ← ih]
    cases (entrance.clause.cases.getD []).any info.isNil <;> rfl

theorem chosen_awaited {info : Info} (dynamics : Dynamics info) {clauses : List CaseClause}
    {entrances : List Entrance} {session : Session Assigned Walker} (listed : entrances.map (·.clause) = clauses)
    (single : ∀ entrance ∈ entrances, ∃ label, entrance.labels = [label])
    (once : (clauses.filter (·.cases.isNone)).length ≤ 1)
    (sent : ∀ entrance ∈ TypeSwitchPlan.leaves (TypeSwitchPlan.tests info entrances),
      Awaits session entrance.labels.head?)
    (falls : ∀ label, SwitchPlan.lastDefault entrances = some label → Awaits session (some label))
    {value : Option dynamics.Kind} {index : Nat} (chosen : dynamics.choice value clauses = some index) :
    ∃ entrance label, entrances[index]? = some entrance ∧ entrance.labels = [label] ∧ Awaits session (some label) := by
  rw [Dynamics.choice, ← listed, List.findIdx?_map, List.findIdx?_map] at chosen
  have arrives {entrance : Entrance} (placed : entrances[index]? = some entrance)
      (leads : entrance ∈ TypeSwitchPlan.leaves (TypeSwitchPlan.tests info entrances)) :
      ∃ entrance label, entrances[index]? = some entrance ∧ entrance.labels = [label] ∧
        Awaits session (some label) := by
    obtain ⟨label, own⟩ := single entrance (List.mem_of_getElem? placed)
    have waits := sent entrance leads
    rw [own] at waits
    exact ⟨entrance, label, placed, own, waits⟩
  rcases Option.or_eq_some_iff.mp chosen with matched | ⟨_, default⟩
  · obtain ⟨inside, accepted, _⟩ := List.findIdx?_eq_some_iff_getElem.mp matched
    have placed : entrances[index]? = some entrances[index] := List.getElem?_eq_getElem inside
    apply arrives placed
    rw [TypeSwitchPlan.leaves, List.mem_append]
    cases value with
    | none =>
      left
      rw [Option.mem_toList, nullDoor_eq, List.find?_eq_bind_findIdx?_getElem?]
      exact Option.bind_eq_some_iff.mpr ⟨index, matched, placed⟩
    | some kind =>
      right
      obtain ⟨case, member, fits⟩ := List.any_eq_true.mp accepted
      simp only [Dynamics.accepts, Bool.and_eq_true, Bool.not_eq_true', Option.any_eq_true] at fits
      obtain ⟨notNil, type, typed, _⟩ := fits
      refine TypeSwitchPlan.mem_typeDoors.mpr ⟨type, TypeSwitchPlan.mem_tests.mpr ⟨by simp, case, member, ?_⟩⟩
      simp [TypeSwitchPlan.test, notNil, typed]
  · obtain ⟨inside, isDefault, _⟩ := List.findIdx?_eq_some_iff_getElem.mp default
    have placed : entrances[index]? = some entrances[index] := List.getElem?_eq_getElem inside
    obtain ⟨label, own⟩ := single entrances[index] (by simp)
    refine ⟨entrances[index], label, placed, own, falls label ?_⟩
    refine (lastDefault_iff listed (fun entrance member _ => single entrance member) once).mpr ?_
    exact ⟨entrances[index], by simp, isDefault, by simp [own]⟩

/-! Sections. -/

theorem isReachable_foldl {states : List Assigned} {state : Assigned} (reached : state.isReachable = true ∨
    ∃ other ∈ states, other.isReachable = true) : (states.foldl merge state).isReachable = true := by
  induction states generalizing state with
  | nil => simpa using reached
  | cons first rest ih =>
    apply ih
    rw [isReachable_merge]
    simp only [List.exists_mem_cons_iff] at reached
    rcases reached with here | first | later
    · simp [here]
    · simp [first]
    · exact .inr later

theorem Course.of_run {α : Type} {scope : Scope} {act : CheckM α} {effect : Effect} {post : α → Scope → Prop}
    (course : Course False scope act effect post) {session after : Session Assigned Walker} {value : α}
    (same : session.own.scope = scope) (ended : act session = .ok value after) :
    effect.Holds session after ∧ post value after.own.scope := by
  obtain ⟨other, later, finished, holds, reached⟩ := (course session same).resolve_right And.left
  cases finished.symm.trans ended
  exact ⟨holds, reached⟩

/-- Branches arrive at the label of a section from an unreachable point. -/
def Session.received (session : Session Assigned Walker) (label : Label) : Session Assigned Walker :=
  ⟨((session.pass.withState unreachable).resolve (some label)).2, session.own⟩

section Received

variable {session : Session Assigned Walker} {label other : Label}

theorem Awaits.resolve (waits : Awaits session (some label)) (apart : label ≠ other) :
    Awaits ⟨(session.pass.resolve (some other)).2, session.own⟩ (some label) := by
  obtain ⟨state, member, reached⟩ := waits
  refine ⟨state, ?_, reached⟩
  change state ∈ (session.pass.pending.forget (some other)).states (some label)
  rwa [Pending.states_forget, if_neg fun same => apart (Option.some.inj same)]

theorem Awaits.arrives (waits : Awaits session (some label)) :
    (Session.received session label).pass.state.isReachable = true :=
  isReachable_foldl (.inr waits)

/-- A label is resolved by those only who made it, so a branch to an older one stays under way. -/
def awaiting (bound : Nat) (label : Label) (older : label.kind ≠ .user ∧ label.serial < bound) : Invariant where
  bound := bound
  admits _ := True
  fits _ := True
  holds session := bound ≤ session.own.serial ∧ Awaits session (some label)
  above := And.left
  unreachable := trivial
  merge _ _ := trivial
  assign _ _ := trivial
  current _ := trivial
  setCurrent holds _ := holds
  record holds _ _ := ⟨holds.1, holds.2.record _⟩
  resolve := by
    intro session other holds resolved
    refine ⟨holds.1, holds.2.resolve ?_⟩
    intro same
    subst same
    rcases resolved with made | ⟨name, rfl, _⟩
    · exact absurd older.2 (Nat.not_lt.mpr made.above)
    · exact older.1 rfl
  own holds grows _ := ⟨holds.1.trans grows, holds.2⟩

end Received

/-- What is met between two points of the walk: first what stands in these clauses, then this one, in a switch whose
head control reaches, and control reaches the clause. -/
def Enters (passed : List CaseClause) (clause : CaseClause) (before after : List Arrival) : Prop :=
  ∃ early state late, after = before ++ (early ++ ⟨clause, true, state⟩ :: late) ∧
    early.map Arrival.clause = (marksOfCases passed).filterMap Mark.clause? ∧ state.isReachable = true

section Sections

variable {frames : List Frame} {frame : Frame} {name : String} {clauses : List CaseClause}
  {entrances : List Entrance} {bodies : List (CheckM Unit)} {bound : Nat} {label : Label} {entrance : Entrance}
  {session after : Session Assigned Walker} {value : Assigned}

theorem exists_of_runSections {entered : Section Assigned Walker} {rest : List (Section Assigned Walker)}
    {exits : Assigned} (labels : entered.labels = [some label])
    (ran : Switch.runSections exits (entered :: rest) session = .ok value after) :
    ∃ middle, entered.body (Session.received session label) = .ok () middle ∧
      Switch.runSections (merge exits middle.pass.state) rest middle = .ok value after := by
  change (Analysis.setUnreachable >>= fun _ => Analysis.resolveAll entered.labels >>= fun _ => entered.body >>= fun _ =>
    Analysis.current >>= fun state => Switch.runSections (merge exits state) rest) session = _ at ran
  rw [labels] at ran
  change (entered.body >>= fun _ => Analysis.current >>= fun state => Switch.runSections (merge exits state) rest)
    (Session.received session label) = _ at ran
  obtain ⟨_, middle, walked, ran⟩ := Analysis.exists_of_bind_ok ran
  exact ⟨middle, walked, ran⟩

theorem section_arrival {body : CheckM Unit} {clause : CaseClause} {index current : Nat}
    (encloses : frame.Encloses False name false) (live : frame.live = true)
    (visits : VisitsCase False True frames name body clause)
    (scope : session.own.scope = ⟨{ frame with current } :: frames, ""⟩)
    (ended : (do arrive index clause; body : CheckM Unit) session = .ok () after) :
    ∃ later, after.own.arrivals = session.own.arrivals ++ ⟨clause, true, session.pass.state⟩ :: later := by
  have enclosed : session.own.frames = { frame with current } :: frames := congrArg Scope.frames scope
  have attached : session.own.attached = "" := congrArg Scope.attached scope
  rw [Analysis.bind_ok (arrive_eq index clause enclosed)] at ended
  have around : Frame.Encloses False name false { frame with current := index } :=
    ⟨⟨encloses.unnamed, encloses.filled⟩, encloses.label, encloses.cont⟩
  obtain ⟨⟨_, _, later, arrivals, _⟩, _⟩ := (visits _ around).of_run (congrArg (Scope.mk _) attached) ended
  refine ⟨later, ?_⟩
  rw [arrivals, ← live]
  exact List.append_assoc ..

/-- By induction on the clauses: those before the chosen one leave alone what waits for it, and all that stands
behind it comes later. -/
theorem runSections_enters (encloses : frame.Encloses False name false) (live : frame.live = true)
    (parts : List.Forall₂ (VisitsCase False True frames name) bodies clauses)
    {older : label.kind ≠ .user ∧ label.serial < bound}
    (lasting : ∀ body ∈ bodies, Lasting (awaiting bound label older) body) (listed : entrances.map (·.clause) = clauses)
    (single : ∀ entrance ∈ entrances, ∃ label, entrance.labels = [label])
    (distinct : (entrances.flatMap (·.labels)).Nodup) (number : Nat)
    (sections : frame.sections.drop number = entrances.map (·.labels)) {index : Nat}
    (placed : entrances[index]? = some entrance) (own : entrance.labels = [label])
    {current : Nat} (scope : session.own.scope = ⟨{ frame with current } :: frames, ""⟩)
    (above : bound ≤ session.own.serial) (waits : Awaits session (some label)) {exits : Assigned}
    (ran : Switch.runSections exits (((entrances.zip bodies).zipIdx number).map sectionOf) session = .ok value after) :
    Enters (clauses.take index) entrance.clause session.own.arrivals after.own.arrivals := by
  induction parts generalizing entrances number index current session exits with
  | nil =>
    obtain rfl := List.map_eq_nil_iff.mp listed
    cases placed
  | @cons body clause bodies later first parts ih =>
    obtain ⟨door, rest, rfl, rfl, restListed⟩ := List.map_eq_cons_iff.mp listed
    obtain ⟨entry, only⟩ := single door (List.mem_cons_self ..)
    rw [List.forall_mem_cons] at lasting single
    rw [List.flatMap_cons, List.nodup_append] at distinct
    have following : frame.sections.drop (number + 1) = rest.map (·.labels) := by
      rw [← List.drop_drop, sections]
      rfl
    obtain ⟨middle, walked, went⟩ := exists_of_runSections (congrArg (List.map some) only) ran
    have began : (Session.received session entry).own.scope = ⟨{ frame with current } :: frames, ""⟩ := scope
    obtain ⟨holds, inside⟩ := (course_section encloses first number current).of_run began walked
    cases index with
    | zero =>
      cases placed
      cases only.symm.trans own
      obtain ⟨inner, arrivals⟩ := section_arrival encloses live first began walked
      obtain ⟨⟨_, _, outer, further, _⟩, _⟩ :=
        (course_runSections encloses parts restListed (number + 1) following number _).of_run inside went
      refine ⟨[], (Session.received session label).pass.state, inner ++ outer, ?_, rfl, waits.arrives⟩
      rw [further, arrivals, List.append_assoc]
      rfl
    | succ index =>
      have member : entrance ∈ rest := List.mem_of_getElem? placed
      have apart : label ≠ entry := by
        intro same
        refine distinct.2.2 entry (by simp [only]) label ?_ same.symm
        exact List.mem_flatMap.mpr ⟨entrance, member, by simp [own]⟩
      have inner : Lasts (awaiting bound label older) 0 (do arrive number door.clause; body) fun _ => True :=
        (lasts_arrive number door.clause).andThen fun _ => lasting.1 0
      obtain ⟨kept, _⟩ := inner (Session.received session entry) ⟨above, waits.resolve apart⟩ (Nat.zero_le _)
      obtain ⟨still, _⟩ := kept () middle walked
      obtain ⟨met, arrivals, passed⟩ := holds.met
      obtain ⟨early, state, late, further, skipped, reached⟩ := ih lasting.2 restListed single.2 distinct.2.1
        (number + 1) following placed inside still.1 still.2 went
      refine ⟨met ++ early, state, late, ?_, ?_, reached⟩
      · rw [further, arrivals, List.append_assoc, List.append_assoc]
        rfl
      · rw [List.map_append, skipped, passed, List.take_succ_cons, marksOfCases_cons, ← List.filterMap_append]
        rfl

end Sections

/-! Type switches. -/

section Statement

variable {session head inner after : Session Assigned Walker} {info : Info} {init : CheckM Unit} {guard : Stmt}
  {clauses : List CaseClause} {bodies : List (CheckM Unit)}

theorem exists_of_within {frame : Frame} {body : CheckM Unit} (ended : within frame body session = .ok () after) :
    ∃ inner, body ⟨session.pass, { session.own with frames := frame :: session.own.frames }⟩ = .ok () inner ∧
      after.pass = inner.pass ∧ after.own.arrivals = inner.own.arrivals := by
  obtain ⟨_, pushed, entered, ended⟩ := Analysis.exists_of_bind_ok ended
  cases entered
  obtain ⟨_, inner, walked, left⟩ := Analysis.exists_of_bind_ok ended
  refine ⟨inner, walked, ?_⟩
  cases enclosed : inner.own.frames with
  | nil =>
    have looked : frames inner = .ok [] inner := enclosed ▸ rfl
    cases (Analysis.bind_ok looked).symm.trans left
  | cons innermost outer =>
    cases (pop_eq enclosed).symm.trans left
    exact ⟨rfl, rfl⟩

theorem exists_of_finish {passing : Assigned} {sections : List (Section Assigned Walker)} {brk : Dest}
    (ended : Switch.finish passing sections brk session = .ok () after) :
    ∃ exits middle, Switch.runSections unreachable sections session = .ok exits middle ∧ after.own = middle.own ∧
      (passing.isReachable = true → after.pass.state.isReachable = true) := by
  obtain ⟨exits, middle, ran, ended⟩ := Analysis.exists_of_bind_ok ended
  cases ended
  refine ⟨exits, middle, ran, rfl, fun reached => isReachable_foldl (.inl ?_)⟩
  change (merge passing exits).isReachable = true
  rw [isReachable_merge, reached, Bool.true_or]

theorem exists_of_treeSwitch {tests : List (Entrance × TypeSwitchPlan.Test)} {fallback brk : Dest} {complete : Bool}
    {entered : List (Section Assigned Walker)} (ended : TreeSwitch.run matcher {
      scrutinee := pure ()
      known := none
      tree := .byType (TypeSwitchPlan.onNull tests) (tests.filterMap TypeSwitchPlan.typeLeaf?) .empty
      fallback
      complete
      sections := entered
      brk } session = .ok () after) (reached : session.pass.state.isReachable = true) :
    ∃ opened exits middle, opened.own = session.own ∧
      (∀ entrance ∈ TypeSwitchPlan.leaves tests, Awaits opened entrance.labels.head?) ∧
      (∀ label, fallback = some label → Awaits opened (some label)) ∧
      Switch.runSections unreachable entered opened = .ok exits middle ∧ after.own = middle.own ∧
      (complete = false → after.pass.state.isReachable = true) := by
  change (AnySwitch.tree matcher _).run session = _ at ended
  rw [AnySwitch.run_eq] at ended
  obtain ⟨opened, headed, own, sent, falls⟩ := typeHeader_delivers reached
  rw [Analysis.bind_ok headed] at ended
  obtain ⟨exits, middle, ran, kept, past⟩ := exists_of_finish ended
  refine ⟨opened, exits, middle, own, sent, falls, ran, kept, fun incomplete => past ?_⟩
  rw [incomplete]
  exact reached

def Walker.switching (walker : Walker) (name : String) (clauses : List CaseClause) : Walker := { walker with
  serial := walker.serial + (1 + clauses.length)
  frames := {
    label := name
    brk := ⟨walker.serial, .break, name⟩
    sections := (TypeSwitchPlan.entrancesFrom (walker.serial + 1) clauses).map (·.labels)
    live := true } :: walker.frames }

theorem typeSwitch_opens {operand : Expr} (found : TypeSwitchPlan.scrutinee guard = .ok operand)
    (proper : properClauses clauses = true) (began : (do let _ ← detachLabel; init) session = .ok () head)
    (reached : head.pass.state.isReachable = true) {entrances : List Entrance}
    (made : entrances = TypeSwitchPlan.entrancesFrom (head.own.serial + 1) clauses)
    (ended : typeSwitch info init guard clauses bodies session = .ok () after) :
    ∃ opened exits middle, opened.own = head.own.switching session.own.attached clauses ∧
      (∀ entrance ∈ TypeSwitchPlan.leaves (TypeSwitchPlan.tests info entrances), Awaits opened entrance.labels.head?) ∧
      (∀ label, SwitchPlan.lastDefault entrances = some label → Awaits opened (some label)) ∧
      Switch.runSections unreachable (sections entrances bodies) opened = .ok exits middle ∧
      after.own.arrivals = middle.own.arrivals ∧
      (Paths.isComplete info guard clauses = false → after.pass.state.isReachable = true) := by
  subst made
  obtain ⟨label, opened, detached, ended⟩ := Analysis.exists_of_bind_ok ended
  obtain ⟨_, _, same, began⟩ := Analysis.exists_of_bind_ok began
  cases same.symm.trans detached
  cases detached
  rw [Analysis.bind_ok began] at ended
  obtain ⟨serial, reserved, numbered, ended⟩ := Analysis.exists_of_bind_ok ended
  cases numbered
  dsimp only at ended
  rw [TypeSwitchPlan.make_eq (by rw [found]; rfl) proper, ← TypeSwitchPlan.typeLeaves_eq] at ended
  obtain ⟨inner, ran, passes, meets⟩ := exists_of_within ended
  obtain ⟨opened, exits, middle, own, sent, falls, entered, kept, past⟩ := exists_of_treeSwitch ran reached
  refine ⟨opened, exits, middle, ?_, sent, falls, entered, by rw [meets, kept], fun incomplete => ?_⟩
  · rw [own, Walker.switching, ← reached]
  · rw [passes]
    exact past incomplete

end Statement

theorem head_scope {info : Info} {init : Stmt} {session head : Session Assigned Walker}
    (furnished : ∀ frame ∈ session.own.frames, frame.Furnished False) (shape : shaped init = true)
    (began : (do let _ ← detachLabel; walk info init) session = .ok () head) :
    head.own.scope = ⟨session.own.frames, ""⟩ := by
  have visits := @walk_visits False True info init session.own.frames "" furnished (.inr shape) (.inl trivial)
  rw [ite_self] at visits
  obtain ⟨_, opened, detached, went⟩ := Analysis.exists_of_bind_ok began
  cases detached
  exact (visits.of_run rfl went).2

theorem switching_scope {walker : Walker} {around : List Frame} (scope : walker.scope = ⟨around, ""⟩) (name : String)
    (clauses : List CaseClause) : (walker.switching name clauses).scope = ⟨{
      label := name
      brk := ⟨walker.serial, .break, name⟩
      sections := (TypeSwitchPlan.entrancesFrom (walker.serial + 1) clauses).map (·.labels)
      live := true } :: around, ""⟩ := by
  obtain ⟨frames, attached, serial, arrivals⟩ := walker
  cases scope
  rfl

/-- From where control comes to the head of a type switch, the walk enters the clause that the language chooses for a
value of the operand. If none is chosen, control comes behind the switch, which is not complete then. -/
theorem typeSwitch_follows_choice {info : Info} (dynamics : Dynamics info) {init guard : Stmt}
    {clauses : List CaseClause} (shape : shaped (.typeSwitch init guard clauses) = true)
    (once : (clauses.filter (·.cases.isNone)).length ≤ 1) {operand : Expr}
    (found : TypeSwitchPlan.scrutinee guard = .ok operand) {value : Option dynamics.Kind}
    (possible : dynamics.CanBe operand value) {session head : Session Assigned Walker}
    (furnished : ∀ frame ∈ session.own.frames, frame.Furnished False)
    (began : (do let _ ← detachLabel; walk info init) session = .ok () head)
    (reached : head.pass.state.isReachable = true) :
    ∃ after, walk info (.typeSwitch init guard clauses) session = .ok () after ∧
      (∀ index, dynamics.choice value clauses = some index → ∃ clause, clauses[index]? = some clause ∧
        Enters (clauses.take index) clause head.own.arrivals after.own.arrivals) ∧
      (dynamics.choice value clauses = none → after.pass.state.isReachable = true ∧
        ∀ serial label, ∃ plan, TypeSwitchPlan.make info serial label guard clauses = .ok plan ∧
          plan.complete = false) := by
  obtain ⟨_, after, ended, _⟩ :=
    ((@walk_visits False True info (.typeSwitch init guard clauses) session.own.frames session.own.attached furnished
      (.inr shape) (.inl trivial)) session rfl).resolve_right And.left
  simp only [shaped, Bool.and_eq_true] at shape
  obtain ⟨shapedInit, _, full, shapedClauses⟩ := shape
  have proper : properClauses clauses = true := by
    simp only [properClauses, once, decide_true, Bool.true_and]
    exact full
  obtain ⟨opened, exits, middle, own, sent, falls, entered, meets, past⟩ :=
    typeSwitch_opens found proper began reached rfl ended
  refine ⟨after, ended, ?_, ?_⟩
  · intro index chosen
    have layout : Layout (head.own.serial + 1) clauses.length clauses _ := typeSwitchPlan_layout _
    have single := @typeSwitchPlan_single clauses (head.own.serial + 1)
    obtain ⟨entrance, label, placed, only, waits⟩ :=
      chosen_awaited dynamics layout.listed single once sent falls chosen
    have member : label ∈ (TypeSwitchPlan.entrancesFrom (head.own.serial + 1) clauses).flatMap (·.labels) :=
      List.mem_flatMap.mpr ⟨entrance, List.mem_of_getElem? placed, by simp [only]⟩
    obtain ⟨unnamed, _, below⟩ := layout.reserved member
    have parts := @walkCases_visits False True info clauses session.own.frames session.own.attached furnished
      (.inr shapedClauses) (.inl trivial)
    have enclosed : Label.kind ⟨head.own.serial, .break, session.own.attached⟩ ≠ .user := by simp
    have staged := (opened_typeSwitch (head.own.serial + 1)).staged enclosed true parts
    have above : head.own.serial + (1 + clauses.length) ≤ opened.own.serial := own ▸ Nat.le_refl _
    have scope := switching_scope (head_scope furnished shapedInit began) session.own.attached clauses
    rw [← own] at scope
    have older : label.kind ≠ .user ∧ label.serial < head.own.serial + (1 + clauses.length) := ⟨unnamed, by omega⟩
    have lasting := @walkCases_lasting (awaiting _ label older) info clauses fun _ _ => trivial
    have enters := runSections_enters staged.encloses rfl parts lasting layout.listed single layout.distinct 0 rfl
      placed only scope above waits entered
    refine ⟨entrance.clause, ?_, ?_⟩
    · rw [← layout.listed, List.getElem?_map, placed]
      rfl
    · rwa [own, ← meets] at enters
  · intro none
    have incomplete := dynamics.incomplete_of_none found possible none
    refine ⟨past incomplete, fun serial label => ?_⟩
    exact ⟨_, TypeSwitchPlan.make_eq (by rw [found]; rfl) proper _ _, incomplete⟩

/-- Any type is a dynamic type here, and the only interface is one that all of them implement. -/
def anyAndTwo : Info := ⟨"main", ⟨#[.interface [] [], .basic "int", .basic "string"]⟩, #[]⟩

theorem anyAndTwo_interface {id : TypeId} (isInterface : anyAndTwo.types.isInterface id = true) : id = 0 := by
  match id with
  | 0 => rfl
  | 1 => exact absurd isInterface (by decide)
  | 2 => exact absurd isInterface (by decide)
  | id + 3 =>
    have absent : anyAndTwo.types.decls[id + 3]? = none := by simp [anyAndTwo]
    simp [TypeTable.isInterface, TypeTable.underlyingDecl, TypeTable.underlying, TypeTable.depth,
      TypeTable.underlyingWithin, absent] at isInterface

def anyAndTwoDynamics : Dynamics anyAndTwo where
  Kind := TypeId
  allows type kind := type = some (.entry kind) ∨ type = some (.entry 0)
  fits kind type := type = .entry kind || type = .entry 0
  assignable := by
    intro type id kind isInterface _ _
    simp [anyAndTwo_interface isInterface]

def ofType (id : TypeId) : Expr := .ident (some (.known (some id) none)) none none

/-- `case string: case int, nil: return` -/
def stringOrInt : List CaseClause :=
  [⟨10, some [ofType 2], none, []⟩, ⟨20, some [ofType 1, .ident (some .untypedNil) none none], none, [.return []]⟩]

/-- An integer comes to the second clause, and a value of a fourth type comes out behind the switch. -/
theorem stringOrInt_followed :
    let switch := Stmt.typeSwitch .empty (.expr (.assertion none (ofType 0) none)) stringOrInt
    let start : Session Assigned Walker := ⟨.start .entry, .start⟩
    (∃ after, walk anyAndTwo switch start = .ok () after ∧
      ∃ clause, stringOrInt[1]? = some clause ∧ Enters (stringOrInt.take 1) clause [] after.own.arrivals) ∧
    ∃ after, walk anyAndTwo switch start = .ok () after ∧ after.pass.state.isReachable = true := by
  intro switch start
  have possible (kind : TypeId) : anyAndTwoDynamics.CanBe (ofType 0) (some kind) := fun _ _ => .inr rfl
  have furnished : ∀ frame ∈ start.own.frames, frame.Furnished False := fun _ member => nomatch member
  have shape : shaped switch = true := by decide
  constructor
  · obtain ⟨after, ended, entered, _⟩ := typeSwitch_follows_choice anyAndTwoDynamics shape (by decide) rfl (possible 1)
      furnished rfl rfl
    exact ⟨after, ended, entered 1 (by decide)⟩
  · obtain ⟨after, ended, _, past⟩ := typeSwitch_follows_choice anyAndTwoDynamics shape (by decide) rfl (possible 3)
      furnished rfl rfl
    exact ⟨after, ended, (past (by decide)).1⟩

end ClauseReach.Checker
