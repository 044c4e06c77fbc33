import ClauseReach.Proofs.SwitchWalk

/-!
Walks of type switches. A type switch sends a branch to every leaf of its decision tree and one to its default
clause; taken together, each clause is entered with what comes to the head and its variable assigned.
-/

namespace ClauseReach.Checker

open Source StateAlgebra Paths

variable {serial count first : Nat} {name : String} {clauses : List CaseClause} {entrances : List Entrance}
  {ways : Nat → Way} {bodies : List (CheckM Unit)} {inner : List String}

/-- What entering by a leaf assigns. -/
def leafObjects (entrance : Entrance) : Store := {object | entrance.clause.binding = some object}

/-- The leaves of these entrances send what comes to the head, with their variables assigned. -/
def leafing (doors : List Entrance) (stores : Set Store) (waiting : Waiting) : Waiting := fun label =>
  waiting label ∪ {after | ∃ entrance ∈ doors, label ∈ entrance.labels ∧
    ∃ before ∈ stores, after = before ∪ leafObjects entrance}

theorem leafing_cons {entrance : Entrance} {label : Label} (labels : entrance.labels = [label])
    {doors : List Entrance} {stores : Set Store} {waiting : Waiting} :
    leafing doors stores (sending label {after | ∃ before ∈ stores, after = before ∪ leafObjects entrance} waiting) =
      leafing (entrance :: doors) stores waiting := by
  funext other
  ext store
  simp only [leafing, sending, List.mem_cons, Set.mem_union, Set.mem_ofPred_eq]
  by_cases same : other = label
  · simp only [same, if_true, Set.mem_union, Set.mem_ofPred_eq]
    grind
  · simp only [same, if_false]
    grind

theorem runs_leaf {view : View} {entrance : Entrance} {label : Label} {post : Unit → View → Prop}
    (labels : entrance.labels = [label])
    (holds : post () { view with
      waiting := (sending label {after | ∃ before ∈ view.here, after = before ∪ leafObjects entrance} view.waiting) }) :
    Runs ((TypeSwitchPlan.leaf entrance).walk matcher none) view post := by
  simp only [TypeSwitchPlan.leaf, labels, List.head?_cons, Decision.walk]
  refine .bind (runs_current fun entry summary => .bind (.bind (.bind (runs_current fun state again => ?_))))
  refine runs_setCurrent (again.assign entrance.clause.binding.toList) (.pure ?_)
  have objects : {object | object ∈ entrance.clause.binding.toList} = leafObjects entrance := by
    ext object
    simp [leafObjects]
  refine .bind (runs_current fun bound boundSummary => .bind (runs_record boundSummary ?_))
  rw [objects]
  refine .bind (runs_setCurrent (TransparentClone.clone_eq entry ▸ summary) (.pure holds))

theorem runs_leaves {view : View} {entry : Assigned} {stores : Set Store} (summary : entry.Summarizes stores)
    (doors : List Entrance) (single : ∀ entrance ∈ doors, ∃ label, entrance.labels = [label])
    {post : Unit → View → Prop}
    (holds : ∀ here, post () { view with here := here, waiting := leafing doors stores view.waiting }) :
    Runs (Decision.walkTypes matcher none entry (doors.map TypeSwitchPlan.leaf)) view post := by
  induction doors generalizing view with
  | nil =>
    have nothing : leafing [] stores view.waiting = view.waiting := by
      funext label
      simp [leafing]
    have kept := holds view.here
    rw [nothing] at kept
    exact .pure kept
  | cons entrance rest ih =>
    obtain ⟨label, labels⟩ := single entrance (by simp)
    refine .bind (runs_setCurrent (TransparentClone.clone_eq entry ▸ summary) (.bind (runs_leaf labels ?_)))
    refine ih (fun other member => single other (by simp [member])) fun here => ?_
    rw [leafing_cons labels]
    exact holds here

theorem runs_typeTree {view : View} {tests : List (Entrance × TypeSwitchPlan.Test)} {post : Unit → View → Prop}
    (single : ∀ entrance ∈ TypeSwitchPlan.leaves tests, ∃ label, entrance.labels = [label])
    (holds : post () { view with
      waiting := leafing (TypeSwitchPlan.leaves tests) view.here view.waiting }) :
    Runs ((Decision.byType (TypeSwitchPlan.onNull tests)
      ((TypeSwitchPlan.typeDoors tests).map TypeSwitchPlan.leaf) .empty).walk matcher none) view post := by
  simp only [Decision.walk, TypeSwitchPlan.onNull_eq]
  refine .bind (runs_current fun entry summary => ?_)
  have cloned := TransparentClone.clone_eq entry ▸ summary
  refine .bind (runs_setCurrent cloned (.bind ?_))
  have typed : ∀ entrance ∈ TypeSwitchPlan.typeDoors tests, ∃ label, entrance.labels = [label] :=
    fun entrance member => single entrance (by simp [TypeSwitchPlan.leaves, member])
  cases found : TypeSwitchPlan.nullDoor tests with
  | none =>
    simp only [TypeSwitchPlan.leaves, found, Option.toList_none, List.nil_append] at holds
    refine .pure (.bind (runs_leaves summary _ typed fun here => ?_))
    exact .bind (runs_setCurrent summary (.pure holds))
  | some entrance =>
    obtain ⟨label, labels⟩ := single entrance (by simp [TypeSwitchPlan.leaves, found])
    simp only [TypeSwitchPlan.leaves, found, Option.toList_some, List.singleton_append] at holds
    refine runs_leaf labels (.bind (runs_leaves summary _ typed fun here => ?_))
    rw [leafing_cons labels]
    exact .bind (runs_setCurrent summary (.pure holds))

/-- A default clause takes what comes to the head as it is. -/
def falling (fallback : Dest) (stores : Set Store) (waiting : Waiting) : Waiting := fun label =>
  waiting label ∪ {store | fallback = some label ∧ store ∈ stores}

/-- What the branches of a type switch come to: every clause is entered with its variable assigned. -/
def routing (entrances : List Entrance) (stores : Set Store) (waiting : Waiting) : Waiting := fun label =>
  waiting label ∪ {after | ∃ entrance ∈ entrances, label ∈ entrance.labels ∧
    ∃ before ∈ stores, after = before ∪ bound entrance.clause}

theorem routing_eq {info : Info} (layout : Layout serial count clauses entrances)
    (proper : properClauses clauses = true) (typed : properTypes info clauses = true) {stores : Set Store}
    {waiting : Waiting} :
    falling (SwitchPlan.lastDefault entrances) stores
        (leafing (TypeSwitchPlan.leaves (TypeSwitchPlan.tests info entrances)) stores waiting) =
      routing entrances stores waiting := by
  simp only [properClauses, Bool.and_eq_true, decide_eq_true_eq, List.all_eq_true] at proper
  obtain ⟨once, filled⟩ := proper
  rw [← layout.listed] at typed filled
  have binds {entrance : Entrance} (some_case : ¬entrance.clause.cases.isNone = true) :
      leafObjects entrance = bound entrance.clause := by
    have present : entrance.clause.cases.isSome = true := Option.isSome_iff_ne_none.mpr (by simpa using some_case)
    simp [leafObjects, bound, present]
  have plain {entrance : Entrance} (default : entrance.clause.cases.isNone = true) :
      bound entrance.clause = ∅ := by
    have absent : entrance.clause.cases = none := by simpa using default
    simp [bound, absent]
  funext label
  ext store
  constructor
  · intro found
    rcases found with (waits | ⟨entrance, member, own, before, inside, rfl⟩) | ⟨fallback, inside⟩
    · exact .inl waits
    · obtain ⟨listed, cases⟩ := (TypeSwitchPlan.mem_leaves typed).mp member
      refine .inr ⟨entrance, listed, own, before, inside, ?_⟩
      rw [binds]
      intro default
      have absent : entrance.clause.cases = none := by simpa using default
      simp [absent] at cases
    · obtain ⟨entrance, listed, default, own⟩ := (lastDefault_iff layout.listed layout.single once).mp fallback
      exact .inr ⟨entrance, listed, own, store, inside, by simp [plain default]⟩
  · intro found
    rcases found with waits | ⟨entrance, listed, own, before, inside, rfl⟩
    · exact .inl (.inl waits)
    · by_cases default : entrance.clause.cases.isNone = true
      · refine .inr ⟨(lastDefault_iff layout.listed layout.single once).mpr ⟨entrance, listed, default, own⟩, ?_⟩
        simpa [plain default] using inside
      · have present := filled entrance.clause (List.mem_map_of_mem listed)
        have cases : entrance.clause.cases.getD [] ≠ [] := by
          obtain ⟨cases, known⟩ := Option.ne_none_iff_exists'.mp (by simpa using default)
          simpa [known] using present
        refine .inl (.inr ⟨entrance, (TypeSwitchPlan.mem_leaves typed).mpr ⟨listed, cases⟩, own, before, inside, ?_⟩)
        rw [binds default]

theorem entered_routing (layout : Layout serial count clauses entrances) {stores : Set Store} {waiting : Waiting}
    (unused : ∀ label ∈ entrances.flatMap (·.labels), waiting label = ∅) {index : Nat} :
    entered entrances (routing entrances stores waiting) index =
      {after | ∃ before ∈ stores, ∃ clause, clauses[index]? = some clause ∧ after = before ∪ bound clause} := by
  ext store
  constructor
  · intro given
    obtain ⟨entrance, found, label, own, waits⟩ := given
    have leads : LeadsInto entrances label index := ⟨entrance, found, own⟩
    rcases waits with waits | ⟨other, member, also, before, inside, rfl⟩
    · rw [unused label leads.mem] at waits
      cases waits
    · obtain ⟨door, placed⟩ := List.getElem?_of_mem member
      obtain rfl := leadsInto_unique layout.distinct leads ⟨other, placed, also⟩
      obtain rfl : entrance = other := by simpa [found] using placed
      exact ⟨before, inside, entrance.clause, by simp [← layout.listed, found], rfl⟩
  · intro given
    obtain ⟨before, inside, clause, found, same⟩ := given
    rw [← layout.listed, List.getElem?_map] at found
    obtain ⟨entrance, placed, rfl⟩ := Option.map_eq_some_iff.mp found
    have member := List.mem_of_getElem? placed
    obtain ⟨label, own⟩ := List.exists_mem_of_ne_nil _ (layout.filled entrance member)
    exact ⟨entrance, placed, label, own, .inr ⟨entrance, member, own, before, inside, same⟩⟩

theorem runs_fallback {view : View} {fallback : Dest} {next : CheckM Unit} {post : Unit → View → Prop}
    (holds : Runs next { view with waiting := falling fallback view.here view.waiting } post) :
    Runs (do
      if fallback.isSome then Analysis.record fallback (← Analysis.current)
      next) view post := by
  cases fallback with
  | none =>
    have kept : falling none view.here view.waiting = view.waiting := by
      funext label
      simp [falling]
    rw [kept] at holds
    exact holds
  | some label =>
    have sent : sending label view.here view.waiting = falling (some label) view.here view.waiting := by
      funext other
      unfold sending falling
      split
      next same => simp [same]
      next different => simp [Ne.symm different]
    rw [← sent] at holds
    exact .bind (runs_current fun _ summary => .bind (runs_record summary holds))

theorem typeSwitchPlan_single (serial : Nat) :
    ∀ entrance ∈ TypeSwitchPlan.entrancesFrom serial clauses, ∃ label, entrance.labels = [label] := by
  induction clauses generalizing serial with
  | nil => simp [TypeSwitchPlan.entrancesFrom]
  | cons clause rest ih => exact List.forall_mem_cons.mpr ⟨⟨_, rfl⟩, ih _⟩

theorem Covers.typeSwitch {info : Info} {init : CheckM Unit} {way : Way} (initial : Covers init "" [] first [] way)
    (straight : Straight way) {guard : Stmt}
    (headed : (TypeSwitchPlan.scrutinee guard).isOk = true) (proper : properClauses clauses = true)
    (typed : properTypes info clauses = true) (covers : CoversSections bodies inner first clauses ways)
    (settled : Settled ways) :
    Covers (Checker.typeSwitch info init guard clauses bodies) name inner first (Traversal.clausesOfCases clauses)
      (Paths.andThen way (switching name (headNumbers first clauses) (Matches info guard clauses) ways)) := by
  refine Covers.detached (initial.andThen straight ?_)
  intro view sound detached closed
  have layout : Layout (view.serial + 1) clauses.length clauses _ := typeSwitchPlan_layout (view.serial + 1)
  have unused := layout.unused sound
  refine .bind (runs_reserve ?_)
  rw [TypeSwitchPlan.make_eq headed proper]
  refine .bind (runs_switchFrame fun live reached => .bind (runs_push (.bind ?_)))
  refine .bind (.pure (.bind (runs_current fun entry summary => .bind ?_)))
  refine runs_typeTree (fun entrance member => ?_) (runs_fallback ?_)
  · refine typeSwitchPlan_single (view.serial + 1) entrance ((TypeSwitchPlan.mem_leaves ?_).mp member).1
    rwa [layout.listed]
  rw [routing_eq layout proper typed]
  refine runs_dispatched layout covers settled sound detached closed reached ?_ ?_ ?_
  · intro index
    rw [entered_routing layout unused]
    rfl
  · intro label foreign
    refine Set.union_eq_left.mpr fun store => ?_
    intro given
    obtain ⟨entrance, member, own, _⟩ := given
    exact absurd (List.mem_flatMap.mpr ⟨entrance, member, own⟩) foreign
  · cases complete : isComplete info guard clauses with
    | true => simpa [Matches, complete] using Assigned.summarizes_unreachable
    | false => simpa [Matches, complete, TransparentClone.clone_eq] using summary

end ClauseReach.Checker
