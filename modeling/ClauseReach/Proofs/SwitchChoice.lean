import ClauseReach.Proofs.ConstantMeaning
import ClauseReach.Proofs.Footprint
import ClauseReach.Proofs.FunctionWalk

/-!
Where a switch over an expression goes when the program runs. The tag is compared with the cases one by one, in
their order; the first equal case is chosen, else the default clause, wherever it stands. A plan that knows its
target has the label of that choice, whatever the values are that no constant tells. A plan that does not know it
sends control to every label of the switch.
-/

namespace ClauseReach

namespace Checker

open Source StateAlgebra

/-- Values at run time and their comparison. Constants are compared by what they stand for; nothing is assumed
about other values. -/
structure Runtime (ν : Type) where
  constant : Constant.Meaning → ν
  equal : ν → ν → Bool
  faithful : ∀ left right, equal (constant left) (constant right) = true ↔ left = right

/-- One evaluation of a switch: what its tag and the case at each place come to, unless they are constants. -/
structure Evaluation (ν : Type) extends Runtime ν where
  tag : ν
  operand : Nat × Nat → ν

/-- Where a switch goes: to a case, given by its clause and its place there, to the default clause, or past all of
them. -/
inductive Choice where
  | case (clause position : Nat)
  | default (clause : Nat)
  | past
  deriving DecidableEq

namespace Evaluation

variable {ν : Type} (run : Evaluation ν)

def value (expr : Expr) (computed : ν) : ν :=
  ((expr.value?.bind Constant.meaning?).map run.constant).getD computed

/-- A switch without a tag switches on `true`. -/
def tagValue : Option Expr → ν
  | none => run.constant (.bool true)
  | some tag => run.value tag run.tag

def accepts (tag : Option Expr) (placed : (Nat × Nat) × Expr) : Bool :=
  run.equal (run.tagValue tag) (run.value placed.2 (run.operand placed.1))

def choice (tag : Option Expr) (clauses : List CaseClause) : Choice :=
  match (placedCases clauses).find? (run.accepts tag) with
  | some ((clause, position), _) => .case clause position
  | none =>
    match clauses.findIdx? (·.cases.isNone) with
    | some clause => .default clause
    | none => .past

theorem value_constant {expr : Expr} {constant : Constant} {meaning : Constant.Meaning}
    (known : expr.value? = some constant) (stands : constant.meaning? = some meaning) (computed : ν) :
    run.value expr computed = run.constant meaning := by
  simp [value, known, stands]

theorem without_default {tag : Option Expr} {clauses : List CaseClause} (past : run.choice tag clauses = .past) :
    ∀ clause ∈ clauses, clause.cases.isNone = false := by
  unfold choice at past
  split at past
  · cases past
  · split at past
    · cases past
    next absent => exact List.findIdx?_eq_none_iff.mp absent

end Evaluation

inductive SwitchPlan.StandsFor (plan : SwitchPlan) (label : Label) : Choice → Prop where
  | case {clause position : Nat} (leads : LeadsToCase plan.entrances label (clause, position)) :
    StandsFor plan label (.case clause position)
  | default {clause : Nat} {entrance : Entrance} (found : plan.entrances[clause]? = some entrance)
    (default : entrance.clause.cases.isNone = true) (only : entrance.labels = [label]) :
    StandsFor plan label (.default clause)
  | past (behind : label = plan.brk) : StandsFor plan label .past

namespace SwitchPlan.StandsFor

variable {plan : SwitchPlan} {label : Label} {choice other : Choice}

theorem placed (stands : plan.StandsFor label choice) (chosen : choice ≠ .past) :
    ∃ index position entrance, plan.entrances[index]? = some entrance ∧ entrance.labels[position]? = some label ∧
      choice = if entrance.clause.cases.isNone then .default index else .case index position := by
  cases stands with
  | @case index position leads =>
    obtain ⟨entrance, found, case, own⟩ := leads
    refine ⟨index, position, entrance, found, own, ?_⟩
    simp [Option.isSome_iff_ne_none.mp case]
  | @default index entrance found default only => exact ⟨index, 0, entrance, found, by simp [only], by simp [default]⟩
  | past => exact absurd rfl chosen

theorem mem (stands : plan.StandsFor label choice) (chosen : choice ≠ .past) :
    label ∈ plan.entrances.flatMap (·.labels) := by
  obtain ⟨_, _, entrance, found, own, _⟩ := stands.placed chosen
  exact List.mem_flatMap.mpr ⟨entrance, List.mem_of_getElem? found, List.mem_of_getElem? own⟩

theorem past_iff (apart : plan.brk ∉ plan.entrances.flatMap (·.labels)) (stands : plan.StandsFor label choice) :
    choice = .past ↔ label = plan.brk := by
  constructor
  · rintro rfl
    cases stands with
    | past behind => exact behind
  · rintro rfl
    by_contra chosen
    exact apart (stands.mem chosen)

theorem unique (distinct : (plan.entrances.flatMap (·.labels)).Nodup)
    (apart : plan.brk ∉ plan.entrances.flatMap (·.labels)) (stands : plan.StandsFor label choice)
    (also : plan.StandsFor label other) : other = choice := by
  by_cases behind : label = plan.brk
  · rw [(stands.past_iff apart).mpr behind, (also.past_iff apart).mpr behind]
  · obtain ⟨index, position, entrance, found, own, rfl⟩ := stands.placed (mt (stands.past_iff apart).mp behind)
    obtain ⟨second, place, door, foundToo, ownToo, rfl⟩ := also.placed (mt (also.past_iff apart).mp behind)
    obtain rfl : index = second := leadsInto_unique distinct ⟨_, found, List.mem_of_getElem? own⟩
      ⟨_, foundToo, List.mem_of_getElem? ownToo⟩
    obtain rfl : entrance = door := by simpa [found] using foundToo
    have inside : position < entrance.labels.length := (List.getElem?_eq_some_iff.mp own).1
    have once : entrance.labels.Nodup :=
      (List.nodup_flatten.mp distinct).1 _ (List.mem_map_of_mem (List.mem_of_getElem? found))
    rw [(List.getElem?_inj inside once).mp (own.trans ownToo.symm)]

end SwitchPlan.StandsFor

variable {ν : Type} (run : Evaluation ν) {tag : Option Expr} {clauses : List CaseClause} {entrances : List Entrance}

theorem firstMatch_find {constant : Constant} {meaning : Constant.Meaning}
    (stands : constant.meaning? = some meaning) (worth : run.tagValue tag = run.constant meaning)
    {labeled : List (Label × Expr)} {places : List ((Nat × Nat) × Expr)}
    (same : SamePlaces entrances labeled places) (known : ∀ placed ∈ places, placed.2.value? ≠ some .unknown)
    {found : Option Label} (first : SwitchPlan.firstMatch constant labeled = some found) :
    Option.Rel (LeadsToCase entrances) found ((places.find? (run.accepts tag)).map (·.1)) := by
  induction same with
  | nil =>
    obtain rfl : none = found := by simpa [SwitchPlan.firstMatch] using first
    exact .none
  | @cons labeled placed _ places agree _ ih =>
    obtain ⟨label, case⟩ := labeled
    obtain ⟨place, other⟩ := placed
    obtain ⟨rfl, leads⟩ := agree
    have here := known (place, case) (by simp)
    have later := ih fun other member => known other (by simp [member])
    simp only [SwitchPlan.firstMatch] at first
    cases value : case.value? with
    | none => simp [value] at first
    | some right =>
      rw [value] at first here
      obtain ⟨other, means⟩ := Constant.meaning?_of_known fun unknown => here (congrArg some unknown)
      have agrees : run.accepts tag (place, case) = constant.equals right := by
        rw [Bool.eq_iff_iff, Evaluation.accepts, worth, run.value_constant value means, run.faithful,
          Constant.equals_iff]
        simp [stands, means, eq_comm]
      rw [List.find?_cons, agrees]
      by_cases equal : constant.equals right = true
      · simp only [equal, if_true, Option.some.injEq] at first
        subst first
        simpa [equal] using Option.Rel.some leads
      · simp only [equal] at first ⊢
        exact later first

def KnownConstants (tag : Option Expr) (clauses : List CaseClause) : Prop :=
  ∀ expr ∈ tag.toList ++ clauses.flatMap (·.cases.getD []), expr.value? ≠ some .unknown

theorem mem_placedCases {placed : (Nat × Nat) × Expr} (member : placed ∈ placedCases clauses) :
    placed.2 ∈ clauses.flatMap (·.cases.getD []) := by
  obtain ⟨⟨clause, index⟩, listed, inside⟩ := List.mem_flatMap.mp member
  obtain ⟨⟨case, position⟩, own, rfl⟩ := List.mem_map.mp inside
  exact List.mem_flatMap.mpr ⟨clause, List.fst_mem_of_mem_zipIdx listed, List.fst_mem_of_mem_zipIdx own⟩

/-- A known target comes from a constant tag and a search among constant cases. -/
theorem knownTarget_cases {brk label : Label} (target : SwitchPlan.knownTarget tag brk entrances = some label)
    (known : ∀ expr ∈ tag, expr.value? ≠ some .unknown) :
    ∃ constant meaning found, constant.meaning? = some meaning ∧ run.tagValue tag = run.constant meaning ∧
      SwitchPlan.firstMatch constant (SwitchPlan.caseList entrances) = some found ∧
      label = (found.or (SwitchPlan.lastDefault entrances)).getD brk := by
  cases tag with
  | none =>
    simp only [SwitchPlan.knownTarget, Option.bind_eq_bind, Option.bind_some, Option.bind_eq_some_iff,
      Option.pure_def, Option.some.injEq] at target
    obtain ⟨found, first, rfl⟩ := target
    exact ⟨.bool true, .bool true, found, rfl, rfl, first, rfl⟩
  | some expr =>
    simp only [SwitchPlan.knownTarget, Option.bind_eq_bind, Option.bind_eq_some_iff, Option.pure_def,
      Option.some.injEq] at target
    obtain ⟨constant, value, found, first, rfl⟩ := target
    have kind : constant ≠ .unknown := fun unknown => known expr rfl (unknown ▸ value)
    obtain ⟨meaning, stands⟩ := Constant.meaning?_of_known kind
    exact ⟨constant, meaning, found, stands, run.value_constant value stands _, first, rfl⟩

theorem target_standsFor (once : (clauses.filter (·.cases.isNone)).length ≤ 1)
    (known : KnownConstants tag clauses) {serial : Nat} {name : String} {label : Label}
    (target : (SwitchPlan.make serial name tag clauses).target = some label) :
    (SwitchPlan.make serial name tag clauses).StandsFor label (run.choice tag clauses) := by
  have listed : (SwitchPlan.entrancesFrom (serial + 1) clauses).map (·.clause) = clauses := entrancesFrom_listed
  obtain ⟨constant, meaning, found, stands, worth, first, rfl⟩ :=
    knownTarget_cases run target fun expr given => known expr (by simp [Option.mem_def.mp given])
  have related := firstMatch_find run stands worth (samePlaces listed switchPlan_aligned)
    (fun placed member => known placed.2 (List.mem_append_right _ (mem_placedCases member))) first
  unfold Evaluation.choice
  cases asked : (placedCases clauses).find? (run.accepts tag) with
  | some placed =>
    obtain ⟨⟨clause, position⟩, case⟩ := placed
    rw [asked] at related
    cases related with
    | some leads => exact .case leads
  | none =>
    rw [asked] at related
    cases related with
    | none =>
    have default := leads_default listed (fun entrance member => entrancesFrom_single member) once ⟨serial, .break, name⟩
    cases found : clauses.findIdx? (·.cases.isNone) with
    | none =>
      rw [found] at default
      exact .past default
    | some clause =>
      rw [found] at default
      obtain ⟨entrance, placed, own⟩ := default
      have here := entrance_default found placed
      obtain ⟨label, only⟩ := entrancesFrom_single (List.mem_of_getElem? placed) here
      rw [only, List.mem_singleton] at own
      exact .default placed here (by rw [Option.none_or, own, only])

theorem exists_standsFor (serial : Nat) (name : String) :
    ∃ label, (SwitchPlan.make serial name tag clauses).StandsFor label (run.choice tag clauses) := by
  have listed : (SwitchPlan.entrancesFrom (serial + 1) clauses).map (·.clause) = clauses := entrancesFrom_listed
  unfold Evaluation.choice
  cases asked : (placedCases clauses).find? (run.accepts tag) with
  | some placed =>
    obtain ⟨⟨clause, position⟩, case⟩ := placed
    obtain ⟨index, inside, found⟩ := List.getElem_of_mem (List.mem_of_find?_eq_some asked)
    obtain ⟨length, related⟩ := List.forall₂_iff_get.mp (samePlaces listed switchPlan_aligned)
    obtain ⟨_, leads⟩ := related index (length ▸ inside) inside
    rw [List.get_eq_getElem, List.get_eq_getElem, found] at leads
    exact ⟨_, .case leads⟩
  | none =>
    cases found : clauses.findIdx? (·.cases.isNone) with
    | none => exact ⟨_, .past rfl⟩
    | some clause =>
      obtain ⟨inside, _⟩ := List.findIdx?_eq_some_iff_getElem.mp found
      have length : (SwitchPlan.entrancesFrom (serial + 1) clauses).length = clauses.length := by
        rw [← List.length_map, listed]
      have placed := List.getElem?_eq_getElem (length.symm ▸ inside)
      have here := entrance_default found placed
      obtain ⟨label, only⟩ := entrancesFrom_single (List.mem_of_getElem? placed) here
      exact ⟨label, .default placed here only⟩

/-! A switch that does not know its target sends what comes to its head to every label, and past the clauses unless
one of them is the default. -/

section Untargeted

variable {serial : Nat} {switch : JumpSwitch Assigned Walker} {session : Session Assigned Walker}

theorem untargeted_states (untargeted : switch.target = none)
    (labels : switch.labels = ((SwitchPlan.entrancesFrom serial clauses).flatMap (·.labels)).map some) {label : Label}
    (member : label ∈ (SwitchPlan.entrancesFrom serial clauses).flatMap (·.labels)) :
    (session.pass.sendAll switch.targets).pending.states (some label) =
      session.pass.pending.states (some label) ++ [session.pass.state] := by
  have distinct : switch.labels.Nodup := by
    rw [labels]
    exact entrancesFrom_distinct.map (Option.some_injective _)
  have everything : switch.targets = switch.labels := by
    unfold JumpSwitch.targets
    rw [untargeted]
  have listed : some label ∈ switch.labels := by
    rw [labels]
    exact List.mem_map_of_mem member
  rw [states_sendAll, everything, List.count_eq_one_of_mem distinct listed]
  rfl

theorem untargeted_passing (untargeted : switch.target = none)
    (labels : switch.labels = ((SwitchPlan.entrancesFrom serial clauses).flatMap (·.labels)).map some)
    (without : ∀ clause ∈ clauses, clause.cases.isNone = false) (entry : Assigned) :
    switch.passing entry = entry := by
  have covers : switch.covers = switch.labels.any Dest.isDefault := by
    unfold JumpSwitch.covers
    rw [untargeted]
  have none_default : switch.labels.any Dest.isDefault = false := by
    rw [labels, List.any_map, List.any_eq_false]
    intro label member kind
    obtain ⟨entrance, listed, own⟩ := List.mem_flatMap.mp member
    obtain ⟨first, same⟩ := entrancesFrom_labels listed
    have among : entrance.clause ∈ clauses := by
      rw [← @entrancesFrom_listed serial clauses]
      exact List.mem_map_of_mem listed
    rw [same] at own
    simp [Dest.isDefault, clauseLabels_kind own, without _ among] at kind
  rw [JumpSwitch.passing, covers, none_default]
  rfl

theorem jumpSwitch_run (present : none ∉ switch.labels) (evaluated : switch.scrutinee session = .ok () session) :
    switch.run session = Switch.finish (switch.passing session.pass.state) switch.sections switch.brk
      ⟨(session.pass.sendAll switch.targets).withState unreachable, session.own⟩ := by
  have ran := congrFun (AnySwitch.run_eq (.jump switch : AnySwitch Assigned Walker Expr ObjectId)) session
  exact ran.trans (Analysis.bind_ok (jumpHeader_eq switch present evaluated))

end Untargeted

/-- The plan of a switch agrees with the choice that the language makes in any evaluation. A known target is the
label of this choice and of no other. Without one, control goes from the head to a label of the choice, and the
state at the head is kept as that of a break where nothing is chosen. -/
theorem switch_follows_choice (info : Info) (tag : Option Expr) (clauses : List CaseClause)
    (once : (clauses.filter (·.cases.isNone)).length ≤ 1) (known : KnownConstants tag clauses)
    (serial : Nat) (name : String) :
    let plan := SwitchPlan.make serial name tag clauses
    let switch : JumpSwitch Assigned Walker := {
      scrutinee := pure ()
      sections := sections plan.entrances (walkCases info clauses)
      brk := some plan.brk
      target := plan.target }
    let choice := run.choice tag clauses
    (∀ label, plan.target = some label →
      plan.StandsFor label choice ∧ ∀ other, plan.StandsFor label other → other = choice) ∧
    (plan.target = none → ∀ session, ∃ passing after,
      switch.run session = Switch.finish passing switch.sections switch.brk after ∧
      (choice ≠ .past → ∃ label, plan.StandsFor label choice ∧
        after.pass.pending.states (some label) =
          session.pass.pending.states (some label) ++ [session.pass.state]) ∧
      (choice = .past → passing = session.pass.state)) := by
  intro plan switch choice
  have listed : plan.entrances.map (·.clause) = clauses := entrancesFrom_listed
  constructor
  · intro label target
    have apart : plan.brk ∉ plan.entrances.flatMap (·.labels) := by
      intro member
      have above : serial + 1 ≤ serial := (entrancesFrom_reserved member).1
      omega
    have stands := target_standsFor run once known target
    exact ⟨stands, fun other also => stands.unique entrancesFrom_distinct apart also⟩
  · intro untargeted session
    have labels : switch.labels = (plan.entrances.flatMap (·.labels)).map some := by
      apply sections_labels
      rw [walkCases_length, ← listed, List.length_map]
    have present : none ∉ switch.labels := by simp [labels]
    refine ⟨_, _, jumpSwitch_run present rfl, fun chosen => ?_, fun past => ?_⟩
    · obtain ⟨label, stands⟩ := exists_standsFor run serial name
      exact ⟨label, stands, untargeted_states untargeted labels (stands.mem chosen)⟩
    · exact untargeted_passing untargeted labels (run.without_default past) _

/-- Values that are what constants stand for; the tag and the cases that are no constants all come to this one. -/
def evaluatingTo (meaning : Constant.Meaning) : Evaluation Constant.Meaning where
  constant := id
  equal left right := decide (left = right)
  faithful _ _ := decide_eq_true_iff
  tag := meaning
  operand _ := meaning

def literalOf (value : Constant) : Expr := .literal (some (.known none (some value)))

/-- The clauses of `switch { case 1: default: case 3, 2.0: }`, over a tag that is to come. -/
def defaultBetween : List CaseClause :=
  [⟨1, some [literalOf (.int 1)], none, []⟩, ⟨2, none, none, []⟩,
    ⟨3, some [literalOf (.int 3), literalOf (.float 2)], none, []⟩]

def variableBetween : SwitchPlan := .make 0 "" (some (.ident none none none)) defaultBetween

/-- Over the constant 2 the last case is the target. Over a variable of this value the target is not known, and a
branch to the last case is among those under way. -/
theorem defaultBetween_follows :
    (SwitchPlan.make 0 "" (some (literalOf (.int 2))) defaultBetween).StandsFor ⟨4, .case, ""⟩ (.case 2 1) ∧
    ∃ passing after label,
      JumpSwitch.run {
        scrutinee := pure ()
        sections := sections variableBetween.entrances (walkCases ⟨"main", ⟨#[]⟩, #[]⟩ defaultBetween)
        brk := some variableBetween.brk
        target := none } ⟨Pass.start Assigned.entry, Walker.start⟩ =
      Switch.finish passing (sections variableBetween.entrances (walkCases ⟨"main", ⟨#[]⟩, #[]⟩ defaultBetween))
        (some variableBetween.brk) after ∧
      variableBetween.StandsFor label (.case 2 1) ∧
      after.pass.pending.states (some label) = [Assigned.entry] := by
  have constant := switch_follows_choice (evaluatingTo (.bool true)) ⟨"main", ⟨#[]⟩, #[]⟩ (some (literalOf (.int 2)))
    defaultBetween (by decide) (by unfold KnownConstants; decide) 0 ""
  have unknown := switch_follows_choice (evaluatingTo (.number 2 0)) ⟨"main", ⟨#[]⟩, #[]⟩ (some (.ident none none none))
    defaultBetween (by decide) (by unfold KnownConstants; decide) 0 ""
  refine ⟨(constant.1 _ (by decide)).1, ?_⟩
  obtain ⟨passing, after, ran, sent, _⟩ := unknown.2 (by decide) ⟨Pass.start Assigned.entry, Walker.start⟩
  obtain ⟨label, stands, states⟩ := sent (by decide)
  exact ⟨passing, after, label, ran, stands, states⟩

end Checker

end ClauseReach
