import Mathlib.Data.List.Forall2
import Mathlib.Data.List.Nodup
import ClauseReach.Proofs.WellFormed

/-!
The plans of switches against their meaning: where the labels of a plan lead, and which clause each of them
stands for.
-/

namespace ClauseReach.Checker

open Source Paths

/-- The entrances of a switch, one for each clause, with labels of consecutive serial numbers. -/
structure Layout (serial count : Nat) (clauses : List CaseClause) (entrances : List Entrance) : Prop where
  listed : entrances.map (·.clause) = clauses
  serials : (entrances.flatMap (·.labels)).map (·.serial) = List.range' serial count
  kinds : ∀ entrance ∈ entrances, ∀ label ∈ entrance.labels,
    label.kind = if entrance.clause.cases.isNone then .default else .case
  filled : ∀ entrance ∈ entrances, entrance.labels ≠ []
  single : ∀ entrance ∈ entrances, entrance.clause.cases.isNone = true → ∃ label, entrance.labels = [label]

variable {serial count : Nat} {clauses : List CaseClause} {entrances : List Entrance}

namespace Layout

theorem nil : Layout serial 0 [] [] := by
  constructor <;> simp

theorem cons {clause : CaseClause} {labels : List Label}
    (serials : labels.map (·.serial) = List.range' serial labels.length)
    (kinds : ∀ label ∈ labels, label.kind = if clause.cases.isNone then .default else .case)
    (filled : labels ≠ []) (single : clause.cases.isNone = true → ∃ label, labels = [label])
    (layout : Layout (serial + labels.length) count clauses entrances) :
    Layout serial (labels.length + count) (clause :: clauses) (⟨labels, clause⟩ :: entrances) where
  listed := by rw [List.map_cons, layout.listed]
  serials := by
    rw [List.flatMap_cons, List.map_append, layout.serials, serials, List.range'_append_1]
  kinds := List.forall_mem_cons.mpr ⟨kinds, layout.kinds⟩
  filled := List.forall_mem_cons.mpr ⟨filled, layout.filled⟩
  single := List.forall_mem_cons.mpr ⟨single, layout.single⟩

theorem distinct (layout : Layout serial count clauses entrances) :
    (entrances.flatMap (·.labels)).Nodup := by
  refine List.Nodup.of_map (·.serial) ?_
  rw [layout.serials]
  exact List.nodup_range'

theorem reserved (layout : Layout serial count clauses entrances) {label : Label}
    (member : label ∈ entrances.flatMap (·.labels)) :
    label.kind ≠ .user ∧ serial ≤ label.serial ∧ label.serial < serial + count := by
  have among : label.serial ∈ List.range' serial count := by
    rw [← layout.serials]
    exact List.mem_map_of_mem member
  obtain ⟨entrance, found, own⟩ := List.mem_flatMap.mp member
  refine ⟨?_, by simpa using among⟩
  rw [layout.kinds entrance found label own]
  split <;> simp

end Layout

theorem clauseLabels_length (serial : Nat) (clause : CaseClause) :
    (SwitchPlan.clauseLabels serial clause).length = (SwitchPlan.clauseLabels 0 clause).length := by
  unfold SwitchPlan.clauseLabels
  cases clause.cases <;> simp

theorem clauseLabels_kind {serial : Nat} {clause : CaseClause} {label : Label}
    (member : label ∈ SwitchPlan.clauseLabels serial clause) :
    label.kind = if clause.cases.isNone then .default else .case := by
  unfold SwitchPlan.clauseLabels at member
  cases known : clause.cases with
  | none =>
    rw [known] at member
    simp [List.mem_singleton.mp member, labelOfDefault]
  | some cases =>
    rw [known] at member
    obtain ⟨index, _, rfl⟩ := List.mem_map.mp member
    rfl

theorem clauseLabels_filled (serial : Nat) {clause : CaseClause} (filled : clause.cases.all (!·.isEmpty) = true) :
    SwitchPlan.clauseLabels serial clause ≠ [] := by
  unfold SwitchPlan.clauseLabels
  cases known : clause.cases with
  | none => simp
  | some cases =>
    rw [known] at filled
    simpa using filled

theorem clauseLabels_serials (serial : Nat) (clause : CaseClause) :
    (SwitchPlan.clauseLabels serial clause).map (·.serial) =
      List.range' serial (SwitchPlan.clauseLabels serial clause).length := by
  unfold SwitchPlan.clauseLabels
  cases clause.cases with
  | none => simp [labelOfDefault]
  | some cases => simp [labelOfCase, List.range'_eq_map_range, Function.comp_def]

theorem clauseLabels_single (serial : Nat) {clause : CaseClause} (default : clause.cases.isNone = true) :
    ∃ label, SwitchPlan.clauseLabels serial clause = [label] := by
  unfold SwitchPlan.clauseLabels
  cases known : clause.cases with
  | none => simp
  | some cases => simp [known] at default

/-! The labels of a plan for clauses of any form. -/

theorem entrancesFrom_listed : (SwitchPlan.entrancesFrom serial clauses).map (·.clause) = clauses := by
  induction clauses generalizing serial with
  | nil => rfl
  | cons clause rest ih => exact congrArg (clause :: ·) ih

theorem entrancesFrom_labels {entrance : Entrance} (member : entrance ∈ SwitchPlan.entrancesFrom serial clauses) :
    ∃ first, entrance.labels = SwitchPlan.clauseLabels first entrance.clause := by
  induction clauses generalizing serial with
  | nil => cases member
  | cons clause rest ih =>
    rcases List.mem_cons.mp member with rfl | later
    · exact ⟨serial, rfl⟩
    · exact ih later

theorem entrancesFrom_single {entrance : Entrance} (member : entrance ∈ SwitchPlan.entrancesFrom serial clauses)
    (default : entrance.clause.cases.isNone = true) : ∃ label, entrance.labels = [label] := by
  obtain ⟨first, labels⟩ := entrancesFrom_labels member
  rw [labels]
  exact clauseLabels_single first default

theorem entrance_default {clause : Nat} (found : clauses.findIdx? (·.cases.isNone) = some clause)
    {entrance : Entrance} (placed : (SwitchPlan.entrancesFrom serial clauses)[clause]? = some entrance) :
    entrance.clause.cases.isNone = true := by
  obtain ⟨inside, default, _⟩ := List.findIdx?_eq_some_iff_getElem.mp found
  have same : clauses[clause]? = some entrance.clause := by
    rw [← @entrancesFrom_listed serial clauses, List.getElem?_map, placed]
    rfl
  rw [List.getElem?_eq_getElem inside, Option.some.injEq] at same
  rwa [← same]

theorem entrancesFrom_serials :
    ((SwitchPlan.entrancesFrom serial clauses).flatMap (·.labels)).map (·.serial) =
      List.range' serial (clauses.flatMap (SwitchPlan.clauseLabels 0)).length := by
  induction clauses generalizing serial with
  | nil => rfl
  | cons clause rest ih =>
    rw [List.flatMap_cons, List.length_append, ← clauseLabels_length serial, ← List.range'_append_1, ← ih,
      ← clauseLabels_serials, ← List.map_append]
    rfl

theorem entrancesFrom_distinct : ((SwitchPlan.entrancesFrom serial clauses).flatMap (·.labels)).Nodup := by
  refine List.Nodup.of_map (·.serial) ?_
  rw [entrancesFrom_serials]
  exact List.nodup_range'

theorem entrancesFrom_reserved {label : Label}
    (member : label ∈ (SwitchPlan.entrancesFrom serial clauses).flatMap (·.labels)) :
    serial ≤ label.serial ∧ label.serial + 1 < serial + SwitchPlan.labelCount clauses := by
  have among : label.serial ∈ List.range' serial (clauses.flatMap (SwitchPlan.clauseLabels 0)).length := by
    rw [← entrancesFrom_serials]
    exact List.mem_map_of_mem member
  simp only [List.mem_range'_1] at among
  simp only [SwitchPlan.labelCount]
  omega

theorem switchPlan_layout (proper : properClauses clauses = true) (serial : Nat) :
    Layout serial (clauses.flatMap (SwitchPlan.clauseLabels 0)).length clauses
      (SwitchPlan.entrancesFrom serial clauses) := by
  have filled : ∀ clause ∈ clauses, clause.cases.all (!·.isEmpty) = true := by
    simp only [properClauses, Bool.and_eq_true, List.all_eq_true] at proper
    exact proper.2
  clear proper
  induction clauses generalizing serial with
  | nil => exact .nil
  | cons clause rest ih =>
    rw [List.flatMap_cons, List.length_append, ← clauseLabels_length serial]
    have here := filled clause (by simp)
    refine .cons ?_ ?_ ?_ ?_ (ih _ fun other member => filled other (by simp [member]))
    · exact clauseLabels_serials serial clause
    · exact fun label => clauseLabels_kind
    · exact clauseLabels_filled serial here
    · exact clauseLabels_single serial

theorem typeSwitchPlan_layout (serial : Nat) :
    Layout serial clauses.length clauses (TypeSwitchPlan.entrancesFrom serial clauses) := by
  induction clauses generalizing serial with
  | nil => exact .nil
  | cons clause rest ih =>
    obtain ⟨label, known⟩ : ∃ label, label =
      if clause.cases.isNone then labelOfDefault serial else labelOfCase serial := ⟨_, rfl⟩
    have unfolded : TypeSwitchPlan.entrancesFrom serial (clause :: rest) =
        ⟨[label], clause⟩ :: TypeSwitchPlan.entrancesFrom (serial + 1) rest := by
      rw [known]
      rfl
    rw [unfolded, List.length_cons, Nat.add_comm]
    refine Layout.cons ?_ ?_ (List.cons_ne_nil label []) (fun _ => ⟨label, rfl⟩) (ih _)
    · rw [known]
      split <;> simp [labelOfDefault, labelOfCase]
    · rw [known]
      split <;> simp [labelOfDefault, labelOfCase]

/-! Default clauses. -/

theorem defaultLabels_length (single : ∀ entrance ∈ entrances, entrance.clause.cases.isNone = true →
      ∃ label, entrance.labels = [label]) :
    (entrances.flatMap fun entrance =>
        if entrance.clause.cases.isNone then entrance.labels else []).length =
      ((entrances.map (·.clause)).filter (·.cases.isNone)).length := by
  induction entrances with
  | nil => rfl
  | cons entrance rest ih =>
    have later := ih fun other member => single other (by simp [member])
    by_cases default : entrance.clause.cases.isNone = true
    · obtain ⟨label, labels⟩ := single entrance (by simp) default
      rw [List.flatMap_cons, if_pos default, List.length_append, later, labels, List.map_cons, List.filter_cons,
        if_pos default]
      exact Nat.add_comm ..
    · rw [List.flatMap_cons, if_neg default, List.nil_append, later, List.map_cons, List.filter_cons,
        if_neg default]

/-- The fallback of a plan is the label of its default clause. -/
theorem lastDefault_iff (listed : entrances.map (·.clause) = clauses)
    (single : ∀ entrance ∈ entrances, entrance.clause.cases.isNone = true → ∃ label, entrance.labels = [label])
    (once : (clauses.filter (·.cases.isNone)).length ≤ 1) {label : Label} :
    SwitchPlan.lastDefault entrances = some label ↔
      ∃ entrance ∈ entrances, entrance.clause.cases.isNone = true ∧ label ∈ entrance.labels := by
  rw [← listed, ← defaultLabels_length single] at once
  have among : label ∈ (entrances.flatMap fun entrance =>
        if entrance.clause.cases.isNone then entrance.labels else []) ↔
      ∃ entrance ∈ entrances, entrance.clause.cases.isNone = true ∧ label ∈ entrance.labels := by
    simp only [List.mem_flatMap]
    refine exists_congr fun entrance => and_congr_right fun _ => ?_
    split <;> simp_all
  rw [SwitchPlan.lastDefault, ← among]
  constructor
  · exact List.mem_of_getLast?
  · intro member
    generalize (entrances.flatMap fun entrance =>
      if entrance.clause.cases.isNone then entrance.labels else []) = labels at once member ⊢
    cases labels with
    | nil => cases member
    | cons first rest =>
      obtain rfl : rest = [] := List.eq_nil_of_length_eq_zero (by simpa using once)
      obtain rfl : label = first := by simpa using member
      rfl

/-! The target of a switch over an expression. -/

/-- The label leads into the clause of this index. -/
def LeadsInto (entrances : List Entrance) (label : Label) (index : Nat) : Prop :=
  ∃ entrance, entrances[index]? = some entrance ∧ label ∈ entrance.labels

theorem LeadsInto.mem {label : Label} {index : Nat} (leads : LeadsInto entrances label index) :
    label ∈ entrances.flatMap (·.labels) := by
  obtain ⟨entrance, found, own⟩ := leads
  exact List.mem_flatMap.mpr ⟨entrance, List.mem_of_getElem? found, own⟩

/-- No label leads into two clauses. -/
theorem leadsInto_unique (distinct : (entrances.flatMap (·.labels)).Nodup) {label : Label} {index other : Nat}
    (leads : LeadsInto entrances label index) (also : LeadsInto entrances label other) : index = other := by
  obtain ⟨entrance, found, own⟩ := leads
  obtain ⟨second, foundSecond, ownSecond⟩ := also
  have apart := (List.nodup_flatten.mp distinct).2
  rw [List.pairwise_iff_getElem] at apart
  obtain ⟨inside, rfl⟩ := List.getElem?_eq_some_iff.mp found
  obtain ⟨insideSecond, rfl⟩ := List.getElem?_eq_some_iff.mp foundSecond
  rcases Nat.lt_trichotomy index other with less | same | greater
  · exact (apart index other (by simpa) (by simpa) less (by simpa using own) (by simpa using ownSecond)).elim
  · exact same
  · exact (apart other index (by simpa) (by simpa) greater (by simpa using ownSecond) (by simpa using own)).elim

/-- The case expressions in the order of evaluation, each with its clause and its place among the cases there. -/
def placedCases (clauses : List CaseClause) : List ((Nat × Nat) × Expr) :=
  clauses.zipIdx.flatMap fun (clause, index) =>
    (clause.cases.getD []).zipIdx.map fun (case, position) => ((index, position), case)

/-- The label belongs to the case at this place. -/
def LeadsToCase (entrances : List Entrance) (label : Label) (place : Nat × Nat) : Prop :=
  ∃ entrance, entrances[place.1]? = some entrance ∧ entrance.clause.cases.isSome = true ∧
    entrance.labels[place.2]? = some label

/-- Two lists of cases in which the same expressions stand for labels and for the places they belong to. -/
abbrev SamePlaces (entrances : List Entrance) : List (Label × Expr) → List ((Nat × Nat) × Expr) → Prop :=
  List.Forall₂ fun labeled placed => labeled.2 = placed.2 ∧ LeadsToCase entrances labeled.1 placed.1

/-- Every case has a label of its own. -/
def Aligned (entrance : Entrance) : Prop :=
  ∀ cases, entrance.clause.cases = some cases → entrance.labels.length = cases.length

theorem samePlaces_zip {index : Nat} {entrance : Entrance} {cases : List Expr}
    (found : entrances[index]? = some entrance) (known : entrance.clause.cases = some cases)
    (length : entrance.labels.length = cases.length) :
    SamePlaces entrances (entrance.labels.zip cases)
      (cases.zipIdx.map fun (case, position) => ((index, position), case)) := by
  rw [SamePlaces, List.forall₂_iff_get]
  refine ⟨by simp [length], fun position inside _ => ?_⟩
  have inside : position < entrance.labels.length := by
    rw [List.length_zip] at inside
    omega
  have leads : LeadsToCase entrances entrance.labels[position] (index, position) :=
    ⟨entrance, found, by simp [known], by simp [inside]⟩
  simp [leads]

theorem samePlaces_from {index : Nat} {rest : List Entrance} (listed : entrances.drop index = rest)
    (aligned : ∀ entrance ∈ rest, Aligned entrance) :
    SamePlaces entrances (SwitchPlan.caseList rest)
      (((rest.map (·.clause)).zipIdx index).flatMap fun (clause, index) =>
        (clause.cases.getD []).zipIdx.map fun (case, position) => ((index, position), case)) := by
  induction rest generalizing index with
  | nil => exact .nil
  | cons entrance rest ih =>
    have found : entrances[index]? = some entrance := by
      have := congrArg (·[0]?) listed
      simpa using this
    have later : entrances.drop (index + 1) = rest := by
      rw [← List.drop_drop, listed]
      rfl
    have here : SamePlaces entrances (entrance.labels.zip (entrance.clause.cases.getD []))
        ((entrance.clause.cases.getD []).zipIdx.map fun (case, position) => ((index, position), case)) := by
      cases known : entrance.clause.cases with
      | none => simp
      | some cases => exact samePlaces_zip found known (aligned entrance (by simp) cases known)
    have beyond := ih later fun other member => aligned other (by simp [member])
    simpa [SwitchPlan.caseList, List.zipIdx_cons] using List.rel_append here beyond

theorem samePlaces (listed : entrances.map (·.clause) = clauses)
    (aligned : ∀ entrance ∈ entrances, Aligned entrance) :
    SamePlaces entrances (SwitchPlan.caseList entrances) (placedCases clauses) := by
  rw [← listed]
  exact samePlaces_from rfl aligned

/-- Two lists of cases in which the same expressions stand for labels and for the clauses they lead into. -/
abbrev SameCases (entrances : List Entrance) : List (Label × Expr) → List (Nat × Expr) → Prop :=
  List.Forall₂ fun labeled indexed => labeled.2 = indexed.2 ∧ LeadsInto entrances labeled.1 indexed.1

theorem caseExprs_eq (clauses : List CaseClause) :
    caseExprs clauses = (placedCases clauses).map fun (place, case) => (place.1, case) := by
  rw [caseExprs, placedCases, List.map_flatMap]
  refine List.flatMap_congr fun placed _ => ?_
  obtain ⟨clause, index⟩ := placed
  dsimp only
  conv_lhs => rw [← List.zipIdx_map_fst 0 (clause.cases.getD [])]
  simp only [List.map_map]
  rfl

theorem SamePlaces.sameCases {labeled : List (Label × Expr)}
    (same : SamePlaces entrances labeled (placedCases clauses)) :
    SameCases entrances labeled (caseExprs clauses) := by
  rw [caseExprs_eq, SameCases, List.forall₂_map_right_iff]
  refine same.imp fun labeled placed agree => ⟨agree.1, ?_⟩
  obtain ⟨entrance, found, _, own⟩ := agree.2
  exact ⟨entrance, found, List.mem_of_getElem? own⟩

theorem sameCases_firstMatch {labeled : List (Label × Expr)} {indexed : List (Nat × Expr)}
    (same : SameCases entrances labeled indexed) (tag : Constant) :
    Option.Rel (Option.Rel (LeadsInto entrances)) (SwitchPlan.firstMatch tag labeled) (firstEqual tag indexed) := by
  induction same with
  | nil => exact .some .none
  | @cons first second labeled indexed agree _ ih =>
    obtain ⟨label, case⟩ := first
    obtain ⟨index, other⟩ := second
    obtain ⟨rfl, leads⟩ := agree
    simp only [SwitchPlan.firstMatch, firstEqual]
    cases case.value? with
    | none => exact .none
    | some value =>
      by_cases equal : tag.equals value = true
      · simpa [equal] using Option.Rel.some (Option.Rel.some leads)
      · simpa [equal] using ih

/-- Where a label of a plan leads: into a clause, or past all of them. -/
def Leads (brk : Label) (entrances : List Entrance) (label : Label) : Option Nat → Prop
  | some index => LeadsInto entrances label index
  | none => label = brk

theorem leads_default (listed : entrances.map (·.clause) = clauses)
    (single : ∀ entrance ∈ entrances, entrance.clause.cases.isNone = true → ∃ label, entrance.labels = [label])
    (once : (clauses.filter (·.cases.isNone)).length ≤ 1) (brk : Label) :
    Leads brk entrances ((SwitchPlan.lastDefault entrances).getD brk) (clauses.findIdx? (·.cases.isNone)) := by
  have length : entrances.length = clauses.length := by rw [← listed, List.length_map]
  cases found : clauses.findIdx? (·.cases.isNone) with
  | none =>
    have without : ∀ entrance ∈ entrances, entrance.clause.cases.isNone = false := by
      intro entrance member
      refine List.findIdx?_eq_none_iff.mp found entrance.clause ?_
      rw [← listed]
      exact List.mem_map_of_mem member
    cases fallback : SwitchPlan.lastDefault entrances with
    | none => rfl
    | some label =>
      obtain ⟨entrance, member, default, _⟩ := (lastDefault_iff listed single once).mp fallback
      rw [without entrance member] at default
      cases default
  | some index =>
    obtain ⟨inside, default, _⟩ := List.findIdx?_eq_some_iff_getElem.mp found
    have inside : index < entrances.length := by omega
    have default : entrances[index].clause.cases.isNone = true := by
      simpa [← listed] using default
    obtain ⟨label, labels⟩ := single entrances[index] (by simp) default
    have own : label ∈ entrances[index].labels := by simp [labels]
    rw [(lastDefault_iff listed single once).mpr ⟨entrances[index], by simp, default, own⟩]
    exact ⟨entrances[index], by simp, own⟩

/-- A plan knows its target exactly if the switch must go one way, and then the target leads there. -/
theorem knownTarget_rel (layout : Layout serial count clauses entrances)
    (once : (clauses.filter (·.cases.isNone)).length ≤ 1)
    (aligned : ∀ entrance ∈ entrances, Aligned entrance) (tag : Option Expr) (brk : Label) :
    Option.Rel (Leads brk entrances) (SwitchPlan.knownTarget tag brk entrances) (staticChoice tag clauses) := by
  have same : SameCases entrances (SwitchPlan.caseList entrances) (caseExprs clauses) :=
    (samePlaces layout.listed aligned).sameCases
  have chosen (value : Constant) : Option.Rel (Leads brk entrances)
      ((SwitchPlan.firstMatch value (SwitchPlan.caseList entrances)).bind fun found =>
        some ((found.or (SwitchPlan.lastDefault entrances)).getD brk))
      ((firstEqual value (caseExprs clauses)).bind fun found =>
        some (found.or (clauses.findIdx? (·.cases.isNone)))) := by
    have related := sameCases_firstMatch same value
    generalize SwitchPlan.firstMatch value (SwitchPlan.caseList entrances) = labeled at related ⊢
    generalize firstEqual value (caseExprs clauses) = indexed at related ⊢
    cases related with
    | none => exact .none
    | some found =>
      cases found with
      | none => exact .some (leads_default layout.listed layout.single once brk)
      | some leads => exact .some leads
  cases tag with
  | none => exact chosen (.bool true)
  | some tag =>
    cases known : tag.value? with
    | none =>
      simp only [SwitchPlan.knownTarget, staticChoice, known]
      exact .none
    | some value =>
      simp only [SwitchPlan.knownTarget, staticChoice, known]
      exact chosen value

theorem switchPlan_aligned : ∀ entrance ∈ SwitchPlan.entrancesFrom serial clauses, Aligned entrance := by
  induction clauses generalizing serial with
  | nil => simp [SwitchPlan.entrancesFrom]
  | cons clause rest ih =>
    refine List.forall_mem_cons.mpr ⟨fun cases known => ?_, ih⟩
    simp only at known
    simp [SwitchPlan.clauseLabels, known]

/-! The leaves of a type switch. -/

namespace TypeSwitchPlan

variable {info : Info} {tests : List (Entrance × Test)}

/-- The entrance behind the first nil case. -/
def nullDoor : List (Entrance × Test) → Option Entrance
  | [] => none
  | (entrance, .null) :: _ => some entrance
  | _ :: rest => nullDoor rest

/-- The entrances behind the cases that ask for a type. -/
def typeDoors : List (Entrance × Test) → List Entrance
  | [] => []
  | (entrance, .type _) :: rest => entrance :: typeDoors rest
  | _ :: rest => typeDoors rest

/-- The entrances that a leaf of the tree leads to. -/
def leaves (tests : List (Entrance × Test)) : List Entrance := (nullDoor tests).toList ++ typeDoors tests

theorem onNull_eq : onNull tests = ((nullDoor tests).map leaf).getD .empty := by
  fun_induction onNull tests with
  | case1 => rfl
  | case2 => rfl
  | case3 test rest other ih =>
    obtain ⟨entrance, _ | _ | _⟩ := test
    · exact absurd rfl (other entrance)
    · exact ih
    · exact ih

theorem typeLeaves_eq : tests.filterMap typeLeaf? = (typeDoors tests).map leaf := by
  fun_induction typeDoors tests with
  | case1 => rfl
  | case2 entrance type rest ih => exact congrArg (leaf entrance :: ·) ih
  | case3 test rest other ih =>
    obtain ⟨entrance, _ | type | _⟩ := test
    · exact ih
    · exact absurd rfl (other entrance type)
    · exact ih

theorem mem_typeDoors {entrance : Entrance} :
    entrance ∈ typeDoors tests ↔ ∃ type, (entrance, .type type) ∈ tests := by
  fun_induction typeDoors tests with
  | case1 => simp
  | case2 found type rest ih =>
    rw [List.mem_cons, ih]
    simp only [List.mem_cons, Prod.mk.injEq, Test.type.injEq]
    grind
  | case3 test rest other ih =>
    rw [ih]
    refine exists_congr fun type => ?_
    rw [List.mem_cons]
    exact (or_iff_right fun same => other entrance type same.symm).symm

theorem nullDoor_mem {entrance : Entrance} (found : nullDoor tests = some entrance) :
    (entrance, .null) ∈ tests := by
  fun_induction nullDoor tests with
  | case1 => cases found
  | case2 first rest =>
    cases found
    simp
  | case3 test rest other ih => exact List.mem_cons_of_mem _ (ih found)

theorem nullDoor_of_mem {entrance : Entrance} (proper : (tests.filter (isNullTest ·.2)).length ≤ 1)
    (member : (entrance, .null) ∈ tests) : nullDoor tests = some entrance := by
  fun_induction nullDoor tests with
  | case1 => cases member
  | case2 first rest =>
    have others : ∀ test ∈ rest, isNullTest test.2 = false := by simpa [isNullTest] using proper
    rcases List.mem_cons.mp member with same | later
    · cases same
      rfl
    · exact absurd (others _ later) (by simp [isNullTest])
  | case3 test rest other ih =>
    have apart : isNullTest test.2 = false := by
      obtain ⟨found, _ | _ | _⟩ := test
      · exact absurd rfl (other found)
      · rfl
      · rfl
    refine ih (by simpa [apart] using proper) ?_
    exact (List.mem_cons.mp member).resolve_left fun same => other entrance same.symm

theorem mem_tests {entrance : Entrance} {found : Test} :
    (entrance, found) ∈ TypeSwitchPlan.tests info entrances ↔
      entrance ∈ entrances ∧ ∃ case ∈ entrance.clause.cases.getD [], test info case = found := by
  simp only [TypeSwitchPlan.tests, List.mem_flatMap, List.mem_map, Prod.mk.injEq]
  constructor
  · intro given
    obtain ⟨other, member, case, listed, same, asks⟩ := given
    exact same ▸ ⟨member, case, listed, asks⟩
  · intro given
    obtain ⟨member, case, listed, asks⟩ := given
    exact ⟨entrance, member, case, listed, rfl, asks⟩

theorem isNullTest_test (case : Expr) : isNullTest (test info case) = info.isNil case := by
  unfold test
  cases info.isNil case with
  | true => rfl
  | false => cases info.typeOf case <;> rfl

theorem count_nullTests :
    ((TypeSwitchPlan.tests info entrances).filter (isNullTest ·.2)).length =
      (((entrances.map (·.clause)).flatMap (·.cases.getD [])).filter info.isNil).length := by
  induction entrances with
  | nil => rfl
  | cons entrance rest ih =>
    simp only [TypeSwitchPlan.tests] at ih
    simp [TypeSwitchPlan.tests, List.filter_map, Function.comp_def, isNullTest_test, ih]

/-- At most one case is nil and every other one has a type, so each clause with cases has a leaf. -/
theorem mem_leaves (proper : properTypes info (entrances.map (·.clause)) = true) {entrance : Entrance} :
    entrance ∈ leaves (TypeSwitchPlan.tests info entrances) ↔
      entrance ∈ entrances ∧ entrance.clause.cases.getD [] ≠ [] := by
  rw [leaves, List.mem_append, Option.mem_toList]
  simp only [properTypes, Bool.and_eq_true, decide_eq_true_eq, List.all_eq_true] at proper
  obtain ⟨once, typed⟩ := proper
  constructor
  · intro found
    have tested : ∃ asks, (entrance, asks) ∈ TypeSwitchPlan.tests info entrances := by
      rcases found with null | type
      · exact ⟨_, nullDoor_mem null⟩
      · obtain ⟨type, member⟩ := mem_typeDoors.mp type
        exact ⟨_, member⟩
    obtain ⟨asks, member⟩ := tested
    obtain ⟨inside, case, listed, _⟩ := mem_tests.mp member
    exact ⟨inside, List.ne_nil_of_mem listed⟩
  · intro given
    obtain ⟨inside, filled⟩ := given
    obtain ⟨case, listed⟩ := List.exists_mem_of_ne_nil _ filled
    have member : (entrance, test info case) ∈ TypeSwitchPlan.tests info entrances :=
      mem_tests.mpr ⟨inside, case, listed, rfl⟩
    have known := typed case (List.mem_flatMap.mpr ⟨entrance.clause, List.mem_map_of_mem inside, listed⟩)
    rw [test] at member
    by_cases null : info.isNil case = true
    · rw [if_pos null] at member
      exact .inl (nullDoor_of_mem (count_nullTests ▸ once) member)
    · obtain ⟨type, found⟩ := Option.isSome_iff_exists.mp (by simpa [null] using known)
      rw [if_neg null, found] at member
      exact .inr (mem_typeDoors.mpr ⟨type, member⟩)

theorem tests_asked :
    (TypeSwitchPlan.tests info entrances).map (·.2) =
      (entrances.map (·.clause)).flatMap fun clause => (clause.cases.getD []).map (test info) := by
  simp [TypeSwitchPlan.tests, List.map_flatMap, List.flatMap_map, Function.comp_def]

theorem make_eq {guard : Stmt} (headed : (scrutinee guard).isOk = true) (proper : properClauses clauses = true)
    (serial : Nat) (label : String) :
    make info serial label guard clauses = .ok {
      brk := ⟨serial, .break, label⟩
      entrances := entrancesFrom (serial + 1) clauses
      tree := .byType (onNull (TypeSwitchPlan.tests info (entrancesFrom (serial + 1) clauses)))
        ((typeDoors (TypeSwitchPlan.tests info (entrancesFrom (serial + 1) clauses))).map leaf) .empty
      fallback := SwitchPlan.lastDefault (entrancesFrom (serial + 1) clauses)
      complete := isComplete info guard clauses } := by
  have filled : clauses.any (fun clause => clause.cases.any (·.isEmpty)) = false := by
    simp only [properClauses, Bool.and_eq_true, List.all_eq_true] at proper
    refine List.any_eq_false.mpr fun clause member => ?_
    have some_case := proper.2 clause member
    cases known : clause.cases with
    | none => simp
    | some cases => simpa [known] using some_case
  have asked : (TypeSwitchPlan.tests info (entrancesFrom (serial + 1) clauses)).map (·.2) = _ := tests_asked
  rw [(typeSwitchPlan_layout (serial + 1)).listed] at asked
  cases found : scrutinee guard with
  | error fault => simp [found, Except.isOk, Except.toBool] at headed
  | ok operand =>
    unfold make isComplete
    rw [found, ← typeLeaves_eq]
    simp [filled, ← asked, List.any_map, Function.comp_def]

end TypeSwitchPlan

end ClauseReach.Checker
