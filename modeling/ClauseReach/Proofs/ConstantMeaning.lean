import Mathlib.Data.List.Forall2
import ClauseReach.Checker.Walk

/-!
What constants stand for. Two constants are equal if they stand for the same value, whatever kinds of numbers they are
given as; nothing else about them shows in a dispatch. So a constant may be exchanged for an equal one, in the value
switched on and in the cases, and the switch goes where it went before.
-/

namespace ClauseReach

open StateAlgebra

namespace Constant

/-- What a constant stands for, in whatever kind of number it is given. -/
inductive Meaning where
  | bool (value : Bool)
  | text (bytes : List UInt8)
  | number (re im : Rat)
  deriving DecidableEq

def meaning? : Constant → Option Meaning
  | .unknown => none
  | .bool value => some (.bool value)
  | .text bytes => some (.text bytes)
  | .int value => some (.number value 0)
  | .float value => some (.number value 0)
  | .complex re im => some (.number re im)

theorem equals_iff {left right : Constant} :
    left.equals right = true ↔ ∃ meaning, left.meaning? = some meaning ∧ right.meaning? = some meaning := by
  cases left <;> cases right <;> simp [equals, meaning?] <;> grind

theorem meaning?_of_known {constant : Constant} (known : constant ≠ .unknown) :
    ∃ meaning, constant.meaning? = some meaning := by
  cases constant <;> simp_all [meaning?]

theorem equal?_iff {left right : Option Constant} : equal? left right = true ↔
    ∃ meaning, left.bind meaning? = some meaning ∧ right.bind meaning? = some meaning := by
  cases left with
  | none => simp [equal?]
  | some left =>
    cases right with
    | none => simp [equal?]
    | some right => exact equals_iff

theorem equal?_self {constant : Option Constant} :
    equal? constant constant = true ↔ constant ≠ none ∧ constant ≠ some .unknown := by
  rw [equal?_iff]
  cases constant with
  | none => simp
  | some constant => cases constant <;> simp [meaning?]

/-- Both are the same, or they are equal: nothing that compares values can tell them apart. -/
def Interchangeable (left right : Option Constant) : Prop := left = right ∨ equal? left right = true

namespace Interchangeable

variable {left right other twin : Option Constant}

theorem meaning_eq (same : Interchangeable left right) : left.bind meaning? = right.bind meaning? := by
  rcases same with equal | equal
  · rw [equal]
  · obtain ⟨meaning, first, second⟩ := equal?_iff.mp equal
    rw [first, second]

theorem both (same : Interchangeable left right) :
    (left = none ∧ right = none) ∨ ∃ first second, left = some first ∧ right = some second := by
  cases left with
  | none =>
    cases right with
    | none => exact .inl ⟨rfl, rfl⟩
    | some second => rcases same with equal | equal <;> cases equal
  | some first =>
    cases right with
    | none => rcases same with equal | equal <;> cases equal
    | some second => exact .inr ⟨first, second, rfl, rfl⟩

theorem isSome_eq (same : Interchangeable left right) : left.isSome = right.isSome := by
  rcases same.both with ⟨absent, missing⟩ | ⟨first, second, known, given⟩
  · rw [absent, missing]
  · rw [known, given]
    rfl

theorem equal?_eq (same : Interchangeable left right) (also : Interchangeable other twin) :
    equal? left other = equal? right twin := by
  rw [Bool.eq_iff_iff, equal?_iff, equal?_iff, same.meaning_eq, also.meaning_eq]

end Interchangeable

end Constant

/-! Decision trees. -/

section Trees

open Constant (Interchangeable)

variable {σ τ ε ν : Type}

mutual

/-- Trees that differ in the values of their cases alone, and only by interchangeable constants. -/
inductive Decision.Alike : Decision ε ν → Decision ε ν → Prop where
  | empty : Decision.Alike .empty .empty
  | byType {onNull onNull' otherwise otherwise' : Decision ε ν} {cases cases' : List (Decision ε ν)}
      (null : onNull.Alike onNull') (each : AlikeTypes cases cases') (last : otherwise.Alike otherwise') :
      Decision.Alike (.byType onNull cases otherwise) (.byType onNull' cases' otherwise')
  | byValue {cases cases' : List (Option Constant × Decision ε ν)} {otherwise otherwise' : Decision ε ν}
      (each : AlikeValues cases cases') (last : otherwise.Alike otherwise') :
      Decision.Alike (.byValue cases otherwise) (.byValue cases' otherwise')
  | leaf (bindings : List ν) (guard : Option ε) (label : Dest) {fallback fallback' : Decision ε ν}
      (later : fallback.Alike fallback') :
      Decision.Alike (.leaf bindings guard label fallback) (.leaf bindings guard label fallback')
  | foreign (node : String) : Decision.Alike (.foreign node) (.foreign node)

inductive AlikeTypes : List (Decision ε ν) → List (Decision ε ν) → Prop where
  | nil : AlikeTypes [] []
  | cons {tree twin : Decision ε ν} {rest others : List (Decision ε ν)} (first : tree.Alike twin)
      (later : AlikeTypes rest others) : AlikeTypes (tree :: rest) (twin :: others)

inductive AlikeValues :
    List (Option Constant × Decision ε ν) → List (Option Constant × Decision ε ν) → Prop where
  | nil : AlikeValues [] []
  | cons {value other : Option Constant} {tree twin : Decision ε ν}
      {rest others : List (Option Constant × Decision ε ν)}
      (same : Interchangeable value other) (first : tree.Alike twin) (later : AlikeValues rest others) :
      AlikeValues ((value, tree) :: rest) ((other, twin) :: others)

end

mutual

theorem Decision.alike_self (tree : Decision ε ν) : tree.Alike tree :=
  match tree with
  | .empty => .empty
  | .byType onNull cases otherwise => .byType onNull.alike_self (alikeTypes_self cases) otherwise.alike_self
  | .byValue cases otherwise => .byValue (alikeValues_self cases) otherwise.alike_self
  | .leaf bindings guard label fallback => .leaf bindings guard label fallback.alike_self
  | .foreign node => .foreign node
termination_by structural tree

theorem alikeTypes_self (trees : List (Decision ε ν)) : AlikeTypes trees trees :=
  match trees with
  | [] => .nil
  | tree :: rest => .cons tree.alike_self (alikeTypes_self rest)
termination_by structural trees

theorem alikeValues_self (cases : List (Option Constant × Decision ε ν)) : AlikeValues cases cases :=
  match cases with
  | [] => .nil
  | (_, tree) :: rest => .cons (.inl rfl) tree.alike_self (alikeValues_self rest)
termination_by structural cases

end

variable [StateAlgebra σ] {matcher : Matcher σ τ ε ν} {known other : Option Constant}

mutual

theorem Decision.Alike.walk_eq (tree : Decision ε ν) {twin : Decision ε ν} (alike : tree.Alike twin)
    (same : Interchangeable known other) : tree.walk matcher known = twin.walk matcher other := by
  cases tree with
  | empty =>
    cases alike
    rfl
  | foreign node =>
    cases alike
    rfl
  | leaf bindings guard label fallback =>
    cases alike with
    | leaf _ _ _ later => simp only [Decision.walk, Decision.Alike.walk_eq fallback later same]
  | byType onNull cases otherwise =>
    cases alike with
    | byType null each last =>
      simp only [Decision.walk, Decision.Alike.walk_eq onNull null same, AlikeTypes.walk_eq cases each same,
        Decision.Alike.walk_eq otherwise last same]
  | byValue cases otherwise =>
    cases alike with
    | byValue each last =>
      simp only [Decision.walk, AlikeValues.walk_eq cases each same, Decision.Alike.walk_eq otherwise last same,
        same.isSome_eq]
termination_by structural tree

theorem AlikeTypes.walk_eq (trees : List (Decision ε ν)) {twins : List (Decision ε ν)} (alike : AlikeTypes trees twins)
    (same : Interchangeable known other) (entry : σ) :
    Decision.walkTypes matcher known entry trees = Decision.walkTypes matcher other entry twins := by
  cases trees with
  | nil =>
    cases alike
    rfl
  | cons tree rest =>
    cases alike with
    | cons first later =>
      simp only [Decision.walkTypes, Decision.Alike.walk_eq tree first same, AlikeTypes.walk_eq rest later same]
termination_by structural trees

theorem AlikeValues.walk_eq (cases : List (Option Constant × Decision ε ν))
    {twins : List (Option Constant × Decision ε ν)} (alike : AlikeValues cases twins)
    (same : Interchangeable known other) (entry : σ) :
    Decision.walkValues matcher known entry cases = Decision.walkValues matcher other entry twins := by
  match cases with
  | [] =>
    cases alike
    rfl
  | (value, tree) :: rest =>
    cases alike with
    | cons exchanged first later =>
      simp only [Decision.walkValues, Decision.Alike.walk_eq tree first same, AlikeValues.walk_eq rest later same,
        same.isSome_eq, same.equal?_eq exchanged]
termination_by structural cases

end

end Trees

/-! Switches over expressions. -/

namespace Checker

open Source
open Constant (Interchangeable)

def AlikeExprs (cases twins : List Expr) : Prop :=
  List.Forall₂ (fun case twin => Interchangeable case.value? twin.value?) cases twins

/-- The cases of two clauses, or no cases because both are default clauses. -/
inductive AlikeCases : Option (List Expr) → Option (List Expr) → Prop where
  | default : AlikeCases none none
  | cases {cases twins : List Expr} (each : AlikeExprs cases twins) : AlikeCases (some cases) (some twins)

namespace AlikeCases

variable {cases twins : Option (List Expr)}

theorem isNone_eq (alike : AlikeCases cases twins) : cases.isNone = twins.isNone := by
  cases alike <;> rfl

theorem getD (alike : AlikeCases cases twins) : AlikeExprs (cases.getD []) (twins.getD []) := by
  cases alike with
  | default => exact .nil
  | cases each => exact each

end AlikeCases

/-- Clauses that differ in the constants of their cases alone, as far as dispatch is concerned. -/
abbrev AlikeClauses (clauses twins : List CaseClause) : Prop :=
  List.Forall₂ (fun clause twin => AlikeCases clause.cases twin.cases) clauses twins

namespace SwitchPlan

/-- The constant that is switched on, if it is one; without a tag it is `true`. -/
def tagValue? : Option Expr → Option Constant
  | none => some (.bool true)
  | some tag => tag.value?

abbrev AlikeEntrances (entrances twins : List Entrance) : Prop :=
  List.Forall₂ (fun entrance twin => entrance.labels = twin.labels ∧ AlikeCases entrance.clause.cases twin.clause.cases)
    entrances twins

abbrev AlikeLabeled (cases twins : List (Label × Expr)) : Prop :=
  List.Forall₂ (fun case twin => case.1 = twin.1 ∧ Interchangeable case.2.value? twin.2.value?) cases twins

theorem clauseLabels_alike {clause twin : CaseClause} (alike : AlikeCases clause.cases twin.cases) (serial : Nat) :
    clauseLabels serial clause = clauseLabels serial twin := by
  unfold clauseLabels
  generalize clause.cases = cases at alike ⊢
  generalize twin.cases = twins at alike ⊢
  cases alike with
  | default => rfl
  | cases each => simp only [each.length_eq]

theorem alike_entrances {clauses twins : List CaseClause} (alike : AlikeClauses clauses twins) (serial : Nat) :
    AlikeEntrances (entrancesFrom serial clauses) (entrancesFrom serial twins) := by
  induction alike generalizing serial with
  | nil => exact .nil
  | cons first later ih =>
    simp only [entrancesFrom, clauseLabels_alike first]
    exact .cons ⟨rfl, first⟩ (ih _)

theorem alike_zip {labels : List Label} {cases twins : List Expr} (alike : AlikeExprs cases twins) :
    AlikeLabeled (labels.zip cases) (labels.zip twins) := by
  induction alike generalizing labels with
  | nil => simp
  | cons same later ih =>
    cases labels with
    | nil => exact .nil
    | cons label rest => exact .cons ⟨rfl, same⟩ ih

theorem alike_caseList {entrances twins : List Entrance} (alike : AlikeEntrances entrances twins) :
    AlikeLabeled (caseList entrances) (caseList twins) := by
  induction alike with
  | nil => exact .nil
  | cons first later ih =>
    obtain ⟨labels, each⟩ := first
    simp only [caseList, List.flatMap_cons, labels]
    exact List.rel_append (alike_zip each.getD) ih

theorem lastDefault_alike {entrances twins : List Entrance} (alike : AlikeEntrances entrances twins) :
    lastDefault entrances = lastDefault twins := by
  have same : (entrances.flatMap fun entrance => if entrance.clause.cases.isNone then entrance.labels else []) =
      twins.flatMap fun entrance => if entrance.clause.cases.isNone then entrance.labels else [] := by
    induction alike with
    | nil => rfl
    | cons first later ih =>
      obtain ⟨labels, each⟩ := first
      rw [List.flatMap_cons, List.flatMap_cons, ih, labels, each.isNone_eq]
  rw [lastDefault, lastDefault, same]

theorem firstMatch_alike {tag other : Constant} (same : Interchangeable (some tag) (some other))
    {cases twins : List (Label × Expr)} (alike : AlikeLabeled cases twins) :
    firstMatch tag cases = firstMatch other twins := by
  induction alike with
  | nil => rfl
  | @cons case twin rest others first later ih =>
    obtain ⟨label, expr⟩ := case
    obtain ⟨_, otherExpr⟩ := twin
    obtain ⟨rfl, exchanged⟩ := first
    have equal := same.equal?_eq exchanged
    unfold firstMatch
    rcases exchanged.both with ⟨absent, missing⟩ | ⟨constant, twin, known, given⟩
    · simp only at absent missing
      rw [absent, missing]
    · simp only at known given
      rw [known, given] at equal
      have equal : tag.equals constant = other.equals twin := equal
      simp only [known, given, equal, ih]

theorem knownTarget_alike {tag other : Option Expr} (same : Interchangeable (tagValue? tag) (tagValue? other))
    {entrances twins : List Entrance} (alike : AlikeEntrances entrances twins) (brk : Label) :
    knownTarget tag brk entrances = knownTarget other brk twins := by
  have unfolded (tag : Option Expr) (entrances : List Entrance) : knownTarget tag brk entrances =
      (tagValue? tag).bind fun tag => (firstMatch tag (caseList entrances)).bind fun found =>
        some ((found.or (lastDefault entrances)).getD brk) := by
    cases tag <;> rfl
  rw [unfolded, unfolded, lastDefault_alike alike]
  rcases same.both with ⟨absent, missing⟩ | ⟨constant, twin, known, given⟩
  · rw [absent, missing]
    rfl
  · rw [known, given] at same ⊢
    simp only [Option.bind_some, firstMatch_alike same (alike_caseList alike)]

end SwitchPlan

end Checker

open Checker Constant

/-- Constants are equal if they stand for one value. So equality is symmetric and transitive, whatever kinds of numbers
it compares, and a constant equals itself if it is there and known. Interchangeable constants pick the same cases of a
decision, and they lead a switch to the same target. -/
theorem equal_by_meaning {σ τ ε ν : Type} [StateAlgebra σ] (matcher : Matcher σ τ ε ν) :
    (∀ left right, equal? left right = true ↔
      ∃ meaning, left.bind meaning? = some meaning ∧ right.bind meaning? = some meaning) ∧
    (∀ left right, equal? left right = equal? right left) ∧
    (∀ first second third, equal? first second = true → equal? second third = true → equal? first third = true) ∧
    (∀ constant, equal? constant constant = true ↔ constant ≠ none ∧ constant ≠ some .unknown) ∧
    ∀ left right, Interchangeable left right →
      (∀ cases : List (Option Constant × Decision ε ν),
        (cases.filter fun case => equal? left case.1) = cases.filter fun case => equal? right case.1) ∧
      (∀ tree twin : Decision ε ν, tree.Alike twin → tree.walk matcher left = twin.walk matcher right) ∧
      ∀ tag other clauses twins, SwitchPlan.tagValue? tag = left → SwitchPlan.tagValue? other = right →
        AlikeClauses clauses twins → ∀ serial name,
          (SwitchPlan.make serial name tag clauses).target = (SwitchPlan.make serial name other twins).target := by
  refine ⟨fun left right => equal?_iff, ?_, ?_, fun constant => equal?_self, ?_⟩
  · intro left right
    rw [Bool.eq_iff_iff, equal?_iff, equal?_iff]
    exact exists_congr fun meaning => and_comm
  · intro first second third near further
    have same : Interchangeable second third := .inr further
    rwa [← Interchangeable.equal?_eq (.inl rfl) same]
  · intro left right same
    refine ⟨fun cases => ?_, fun tree twin alike => alike.walk_eq tree same, ?_⟩
    · apply List.filter_congr
      intro case _
      exact same.equal?_eq (.inl rfl)
    · intro tag other clauses twins first second alike serial name
      subst first second
      exact SwitchPlan.knownTarget_alike same (SwitchPlan.alike_entrances alike _) _

/-- `switch 2 { case 2.0: default: }` -/
def wholeTwo : Constant × List Source.CaseClause :=
  (.int 2, [⟨1, some [.literal (some (.known none (some (.float 2))))], none, []⟩, ⟨2, none, none, []⟩])

/-- `switch 2 + 0i { case 2: default: }` -/
def complexTwo : Constant × List Source.CaseClause :=
  (.complex 2 0, [⟨1, some [.literal (some (.known none (some (.int 2))))], none, []⟩, ⟨2, none, none, []⟩])

/-- Two is two as an integer, as a rational and as a complex number: the numbers are equal through each other, they lead
both switches into the first clause, and they walk every tree the same way. -/
theorem twos_exchanged :
    equal? (some wholeTwo.1) (some complexTwo.1) = true ∧
    (∀ tree : Decision Source.Expr Source.ObjectId,
      tree.walk Checker.matcher (some wholeTwo.1) = tree.walk Checker.matcher (some complexTwo.1)) ∧
    (SwitchPlan.make 0 "" (some (.literal (some (.known none (some wholeTwo.1))))) wholeTwo.2).target =
      some (labelOfCase 1) ∧
    (SwitchPlan.make 0 "" (some (.literal (some (.known none (some complexTwo.1))))) complexTwo.2).target =
      some (labelOfCase 1) := by
  obtain ⟨_, _, transitive, _, exchanged⟩ := equal_by_meaning Checker.matcher
  have equal := transitive (some wholeTwo.1) (some (.float 2)) (some complexTwo.1) (by decide) (by decide)
  obtain ⟨_, walks, targets⟩ := exchanged _ _ (.inr equal)
  have target : (SwitchPlan.make 0 "" (some (.literal (some (.known none (some wholeTwo.1))))) wholeTwo.2).target =
      some (labelOfCase 1) := by decide
  refine ⟨equal, fun tree => walks tree tree tree.alike_self, target, ?_⟩
  rw [← target]
  refine (targets _ _ wholeTwo.2 complexTwo.2 rfl rfl ?_ 0 "").symm
  exact .cons (.cases (.cons (.inr (by decide)) .nil)) (.cons .default .nil)

end ClauseReach
