import ClauseReach.Decision
import ClauseReach.Source.Query

/-!
How the switches of a function dispatch: which labels lead into each clause, where a switch over a
constant goes, and which cases of a type switch a value may match. Labels are numbered upward from
a serial number, the break label first.
-/

namespace ClauseReach.Checker

open Source

structure Entrance where
  labels : List Label
  clause : CaseClause

/-- The dispatch of a switch over an expression. The target is known if the cases that can be
chosen are. -/
structure SwitchPlan where
  brk : Label
  entrances : List Entrance
  target : Dest

structure TypeSwitchPlan where
  brk : Label
  entrances : List Entrance
  tree : Decision Expr ObjectId
  fallback : Dest
  complete : Bool

def labelOfDefault (serial : Nat) : Label := ⟨serial, .default, "default"⟩

def labelOfCase (serial : Nat) : Label := ⟨serial, .case, ""⟩

namespace SwitchPlan

def clauseLabels (serial : Nat) (clause : CaseClause) : List Label :=
  match clause.cases with
  | none => [labelOfDefault serial]
  | some cases => (List.range cases.length).map fun index => labelOfCase (serial + index)

def entrancesFrom : Nat → List CaseClause → List Entrance
  | _, [] => []
  | serial, clause :: rest =>
    let labels := clauseLabels serial clause
    ⟨labels, clause⟩ :: entrancesFrom (serial + labels.length) rest

def labelCount (clauses : List CaseClause) : Nat :=
  1 + (clauses.flatMap (clauseLabels 0)).length

def caseList (entrances : List Entrance) : List (Label × Expr) :=
  entrances.flatMap fun entrance => entrance.labels.zip (entrance.clause.cases.getD [])

/-- The first case equal to the tag, if there is one; nothing is known if a case that is not
constant comes before it. -/
def firstMatch (tag : Constant) : List (Label × Expr) → Option (Option Label)
  | [] => some none
  | (label, case) :: rest =>
    match case.value? with
    | none => none
    | some value => if tag.equals value then some (some label) else firstMatch tag rest

def lastDefault (entrances : List Entrance) : Option Label :=
  (entrances.flatMap fun entrance =>
    if entrance.clause.cases.isNone then entrance.labels else []).getLast?

/-- Where a switch goes whatever happens at run time. A switch without a tag switches on `true`. -/
def knownTarget (tag : Option Expr) (brk : Label) (entrances : List Entrance) : Dest := do
  let tag ← match tag with
    | none => some (.bool true)
    | some tag => tag.value?
  let found ← firstMatch tag (caseList entrances)
  return (found.or (lastDefault entrances)).getD brk

def make (serial : Nat) (label : String) (tag : Option Expr) (clauses : List CaseClause) :
    SwitchPlan :=
  let brk : Label := ⟨serial, .break, label⟩
  let entrances := entrancesFrom (serial + 1) clauses
  { brk, entrances, target := knownTarget tag brk entrances }

end SwitchPlan

namespace TypeSwitchPlan

inductive Test where
  | null
  | type (type : TypeRef)
  | unknown

def scrutinee (guard : Stmt) : Except Fault Expr :=
  match guard with
  | .expr expr => asserted expr
  | .assign _ (value :: _) => asserted value
  | .assign _ [] => throw .emptyGuard
  | _ => throw .noGuard
where
  asserted : Expr → Except Fault Expr
    | .assertion _ operand _ => pure operand
    | expr => throw (.guardForm expr.form)

def test (info : Info) (case : Expr) : Test :=
  if info.isNil case then .null
  else
    match info.typeOf case with
    | some type => .type type
    | none => .unknown

def entrancesFrom : Nat → List CaseClause → List Entrance
  | _, [] => []
  | serial, clause :: rest =>
    let label := if clause.cases.isNone then labelOfDefault serial else labelOfCase serial
    ⟨[label], clause⟩ :: entrancesFrom (serial + 1) rest

def leaf (entrance : Entrance) : Decision Expr ObjectId :=
  .leaf entrance.clause.binding.toList none entrance.labels.head? .empty

def tests (info : Info) (entrances : List Entrance) : List (Entrance × Test) :=
  entrances.flatMap fun entrance =>
    (entrance.clause.cases.getD []).map fun case => (entrance, test info case)

def onNull : List (Entrance × Test) → Decision Expr ObjectId
  | [] => .empty
  | (entrance, .null) :: _ => leaf entrance
  | _ :: rest => onNull rest

def typeLeaf? : Entrance × Test → Option (Decision Expr ObjectId)
  | (entrance, .type _) => some (leaf entrance)
  | _ => none

def isNullTest : Test → Bool
  | .null => true
  | _ => false

/-- Whether a case takes every value of the scrutinee's type other than nil. -/
def catchesAll (info : Info) (scrutinee : Option TypeRef) : Test → Bool
  | .type (.entry id) =>
    info.types.isInterface id && scrutinee.any fun type => info.types.assignable info.package type id
  | _ => false

/-- Each case is a test of its own; with a nil case and a case for all other values no value passes
by. -/
def make (info : Info) (serial : Nat) (label : String) (guard : Stmt) (clauses : List CaseClause) :
    Except Fault TypeSwitchPlan := do
  let operand ← scrutinee guard
  if clauses.any fun clause => clause.cases.any (·.isEmpty) then throw .emptyCase
  let entrances := entrancesFrom (serial + 1) clauses
  let tests := tests info entrances
  return {
    brk := ⟨serial, .break, label⟩
    entrances
    tree := .byType (onNull tests) (tests.filterMap typeLeaf?) .empty
    fallback := SwitchPlan.lastDefault entrances
    complete :=
      tests.any (isNullTest ·.2) && tests.any (catchesAll info (info.typeOf operand) ·.2) }

end TypeSwitchPlan

end ClauseReach.Checker
