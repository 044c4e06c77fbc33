import Mathlib.Data.Set.Basic
import Mathlib.Logic.Relation
import ClauseReach.Checker.Walk

/-!
Paths through a function body, apart from any analysis. A path is a finite run of the statements in
the order in which they are executed. It follows conditions and switches whose outcome is a constant
and takes any turn elsewhere, and it may stop at the head or at the entry of a switch clause. What a
path carries is the set of variables assigned on its way.
-/

namespace ClauseReach.Paths

open Source Checker

abbrev Store := Set ObjectId

/-- A place inside a body where a path can stop. Clauses are numbered from 0 in source order; the head
of a clause is the head of its switch, behind the init statement. -/
inductive Place where
  | head (clause : Nat)
  | entry (clause : Nat)

def Place.clause : Place → Nat
  | .head clause => clause
  | .entry clause => clause

/-- Where a path stands after a piece of code: it goes on with what follows, it is on its way to the
target of a jump, or it has stopped at a place inside. -/
inductive Cursor where
  | onward
  | leaving (jump : Jump)
  | stopped (place : Place)

abbrev Way := Store → Cursor → Store → Prop

/-- What a path can make of a piece of code that it meets at any cursor: a `goto` may enter in the
middle, and a path that has other business passes by. -/
abbrev Crossing := Cursor → Store → Cursor → Store → Prop

end Paths

namespace Source

/-- A break refers to the innermost statement that it can leave, or to the one with its name. A
statement without a label has the empty name. -/
def Jump.breaks (name : String) : Jump → Bool
  | .break none => true
  | .break (some label) => label = name
  | _ => false

def Jump.continues (name : String) : Jump → Bool
  | .continue none => true
  | .continue (some label) => label = name
  | _ => false

/-- Whether a jump leaves an enclosing statement of this name behind. Only a switch answers to
`fallthrough`, and only a loop to a `continue` without a label. -/
def Jump.escapes (name : String) (loop : Bool) : Jump → Bool
  | .goto _ => true
  | .break none => false
  | .break (some label) => label ≠ name
  | .continue none => !loop
  | .continue (some label) => label ≠ name
  | .fallthrough => false
  | .other => false

def Stmt.labels : Stmt → List String
  | .labeled label stmt => label :: stmt.labels
  | _ => []

def ownLabels (stmts : List Stmt) : List String := stmts.flatMap Stmt.labels

/-- Whether a condition can turn out this way. Constants have one outcome, and the operands of `&&`
and `||` are asked from left to right as far as needed. -/
def Expr.mayBe (outcome : Bool) (expr : Expr) : Bool :=
  match expr.value? with
  | some (.bool value) => value == outcome
  | _ =>
    match expr with
    | .paren _ inner => inner.mayBe outcome
    | .unary _ .not operand => operand.mayBe !outcome
    | .binary _ .and left right =>
      if outcome then left.mayBe true && right.mayBe true
      else left.mayBe false || (left.mayBe true && right.mayBe false)
    | .binary _ .or left right =>
      if outcome then left.mayBe true || (left.mayBe false && right.mayBe true)
      else left.mayBe false && right.mayBe false
    | _ => true
termination_by structural expr

namespace Traversal

mutual

/-- The clauses of the switches in a statement, in source order. Function literals do not count, and
init, post and communication statements have none. -/
def clausesOfStmt : Stmt → List CaseClause
  | .block body => clausesOfStmts body
  | .labeled _ stmt => clausesOfStmt stmt
  | .cond _ _ body otherwise => clausesOfStmts body ++ clausesOfStmt otherwise
  | .loop _ _ _ body => clausesOfStmts body
  | .range _ _ _ _ body => clausesOfStmts body
  | .select clauses => clausesOfComms clauses
  | .switch _ _ clauses => clausesOfCases clauses
  | .typeSwitch _ _ clauses => clausesOfCases clauses
  | _ => []
termination_by structural stmt => stmt

def clausesOfStmts : List Stmt → List CaseClause
  | [] => []
  | stmt :: rest => clausesOfStmt stmt ++ clausesOfStmts rest
termination_by structural stmts => stmts

def clausesOfCases : List CaseClause → List CaseClause
  | [] => []
  | ⟨pos, cases, binding, body⟩ :: rest =>
    ⟨pos, cases, binding, body⟩ :: (clausesOfStmts body ++ clausesOfCases rest)
termination_by structural clauses => clauses

def clausesOfComms : List CommClause → List CaseClause
  | [] => []
  | ⟨_, body⟩ :: rest => clausesOfStmts body ++ clausesOfComms rest
termination_by structural clauses => clauses

end

end Traversal

end Source

namespace Paths

open Source Checker

namespace Cursor

def seeks (labels : List String) : Cursor → Bool
  | .leaving (.goto (some label)) => labels.contains label
  | _ => false

def enters (labels : List String) : Cursor → Bool
  | .onward => true
  | cursor => cursor.seeks labels

def resumes (name : String) : Cursor → Bool
  | .onward => true
  | .leaving jump => jump.continues name
  | .stopped _ => false

/-- Where a path stands behind a statement of this name, by where it stands behind its body. The end of
a clause is a way out; the end of a loop body is not. -/
def out (name : String) (loop : Bool) : Cursor → Option Cursor
  | .onward => if loop then none else some .onward
  | .leaving jump =>
    if jump.breaks name then some .onward
    else if jump.escapes name loop then some (.leaving jump)
    else none
  | .stopped place => some (.stopped place)

end Cursor

/-! The forms of statements, as operations on the ways through their parts. -/

def stay : Way := fun before cursor after => cursor = .onward ∧ after = before

def stuck : Way := fun _ _ _ => False

def assigning (objects : Store) : Way := fun before cursor after =>
  cursor = .onward ∧ after = before ∪ objects

def andThen (first second : Way) : Way := fun before cursor after =>
  (first before cursor after ∧ cursor ≠ .onward) ∨
    ∃ middle, first before .onward middle ∧ second middle cursor after

def either (condition : Expr) (whenTrue whenFalse : Way) : Way := fun before cursor after =>
  (condition.mayBe true = true ∧ whenTrue before cursor after) ∨
    (condition.mayBe false = true ∧ whenFalse before cursor after)

def leaving (name : String) (loop : Bool) (inner : Way) : Way := fun before cursor after =>
  ∃ stand, inner before stand after ∧ stand.out name loop = some cursor

def Round (name : String) (body post : Way) (head next : Store) : Prop :=
  ∃ stand middle, body head stand middle ∧ stand.resumes name = true ∧ post middle .onward next

/-- Any number of rounds, then out by the head or from inside the body. -/
def looping (name : String) (mayEnter mayLeave : Bool) (body post : Way) : Way :=
  fun before cursor after =>
    ∃ head,
      Relation.ReflTransGen (fun head next => mayEnter = true ∧ Round name body post head next)
        before head ∧
      ((mayLeave = true ∧ cursor = .onward ∧ after = head) ∨
        (mayEnter = true ∧ leaving name true body head cursor after))

def crossing (labels : List String) (way : Way) : Crossing := fun cursor before stand after =>
  if cursor.enters labels then way before stand after else stand = cursor ∧ after = before

/-- Crosses a statement list with these labels, again and again as long as a `goto` names one of them
that has been passed. Unless paths may go back, such a jump stays on its way. -/
inductive Rounds (back : Bool) (labels : List String) (pass : Crossing) : Crossing where
  | last {cursor before stand after} (passed : pass cursor before stand after)
      (gone : back = true → stand.seeks labels = false) :
      Rounds back labels pass cursor before stand after
  | again {cursor before middle store stand after} (allowed : back = true)
      (passed : pass cursor before middle store) (returns : middle.seeks labels = true)
      (rest : Rounds back labels pass middle store stand after) :
      Rounds back labels pass cursor before stand after

def block (back : Bool) (labels : List String) (pass : Crossing) : Way := fun before cursor after =>
  Rounds back labels pass .onward before cursor after

/-- A switch with clauses of these numbers. Dispatch picks the clause to enter and the store to enter it
with, or passes by all clauses. -/
def switching (name : String) (heads : List Nat) (dispatch : Store → Option Nat → Store → Prop)
    (inside : Nat → Way) : Way := fun before cursor after =>
  (∃ clause ∈ heads, cursor = .stopped (.head clause) ∧ after = before) ∨
    (dispatch before none after ∧ cursor = .onward) ∨
    ∃ index entered, dispatch before (some index) entered ∧
      leaving name false (inside index) entered cursor after

def clause (number : Nat) (body next : Way) : Way := fun before cursor after =>
  (cursor = .stopped (.entry number) ∧ after = before) ∨
    (body before cursor after ∧ cursor ≠ .leaving .fallthrough) ∨
    ∃ middle, body before (.leaving .fallthrough) middle ∧ next middle cursor after

/-! How switches dispatch. -/

def caseExprs (clauses : List CaseClause) : List (Nat × Expr) :=
  clauses.zipIdx.flatMap fun (clause, index) => (clause.cases.getD []).map (index, ·)

def firstEqual (tag : Constant) : List (Nat × Expr) → Option (Option Nat)
  | [] => some none
  | (index, case) :: rest =>
    match case.value? with
    | none => none
    | some value => if tag.equals value then some (some index) else firstEqual tag rest

def staticChoice (tag : Option Expr) (clauses : List CaseClause) : Option (Option Nat) := do
  let tag ← match tag with
    | none => some (.bool true)
    | some tag => tag.value?
  let found ← firstEqual tag (caseExprs clauses)
  return found.or (clauses.findIdx? (·.cases.isNone))

/-- A switch over an expression goes where it must, else anywhere; past a default clause it cannot go. -/
def Chooses (tag : Option Expr) (clauses : List CaseClause) (choice : Option Nat) : Prop :=
  match staticChoice tag clauses, choice with
  | some known, _ => choice = known
  | none, some index => index < clauses.length
  | none, none => ∀ clause ∈ clauses, clause.cases.isSome = true

/-- What entering a clause of a type switch by one of its cases assigns. The default clause is entered by
no case. -/
def bound (clause : CaseClause) : Store :=
  {object | clause.cases.isSome = true ∧ clause.binding = some object}

def isComplete (info : Info) (guard : Stmt) (clauses : List CaseClause) : Bool :=
  match TypeSwitchPlan.scrutinee guard with
  | .error _ => false
  | .ok operand =>
    let tests := clauses.flatMap fun clause =>
      (clause.cases.getD []).map (TypeSwitchPlan.test info)
    tests.any TypeSwitchPlan.isNullTest &&
      tests.any (TypeSwitchPlan.catchesAll info (info.typeOf operand))

/-- A type switch goes into any clause and, unless it is complete, past all of them. -/
def Matches (info : Info) (guard : Stmt) (clauses : List CaseClause) (before : Store)
    (choice : Option Nat) (after : Store) : Prop :=
  match choice with
  | some index => ∃ clause, clauses[index]? = some clause ∧ after = before ∪ bound clause
  | none => isComplete info guard clauses = false ∧ after = before

def headNumbers (first : Nat) : List CaseClause → List Nat
  | [] => []
  | clause :: rest =>
    first :: headNumbers (first + 1 + (Traversal.clausesOfStmts clause.body).length) rest

/-! What simple statements assign. -/

def assignedBy (info : Info) (targets : List Expr) : Store :=
  {object | ∃ target ∈ targets, info.assigned? target = some object}

def declaredBy (info : Info) (specs : List Spec) : Store :=
  {object | ∃ names values, Spec.values names values ∈ specs ∧ values ≠ [] ∧
    object ∈ assignedBy info names}

/-! The ways through statements. Clauses are numbered from `first`; `back` tells whether a `goto` may go
back to a label that has been passed. -/

variable (info : Info) (back : Bool)

mutual

def wayOf (name : String) (first : Nat) : Stmt → Way
  | .empty => stay
  | .block body => block back (ownLabels body) (crossAll first body)
  | .expr expr => if info.neverReturns expr then stuck else stay
  | .assign targets _ => assigning (assignedBy info targets)
  | .eval _ => stay
  | .declare .variables specs => assigning (declaredBy info specs)
  | .declare .other _ => stay
  | .return _ => stuck
  | .jump jump => fun before cursor after => cursor = .leaving jump ∧ after = before
  | .labeled label stmt => wayOf label first stmt
  | .cond init condition body otherwise =>
    andThen (wayOf "" first init)
      (either condition (block back (ownLabels body) (crossAll first body))
        (wayOf "" (first + (Traversal.clausesOfStmts body).length) otherwise))
  | .loop init condition post body =>
    andThen (wayOf "" first init)
      (looping name (condition.all (·.mayBe true)) (condition.any (·.mayBe false))
        (block back (ownLabels body) (crossAll first body)) (wayOf "" first post))
  | .range assigns key value _ body =>
    looping name true true
      (andThen (assigning (if assigns then assignedBy info (key.toList ++ value.toList) else ∅))
        (block back (ownLabels body) (crossAll first body)))
      stay
  | .select clauses => leaving name false (wayOfComms first clauses)
  | .switch init tag clauses =>
    andThen (wayOf "" first init)
      (switching name (headNumbers first clauses)
        (fun before choice after => Chooses tag clauses choice ∧ after = before)
        (wayOfCases first clauses))
  | .typeSwitch init guard clauses =>
    andThen (wayOf "" first init)
      (switching name (headNumbers first clauses) (Matches info guard clauses)
        (wayOfCases first clauses))
termination_by structural stmt => stmt

/-- The crossings of a statement list. A `goto` that finds its label further on enters there. -/
def crossAll (first : Nat) : List Stmt → Crossing
  | [] => fun cursor before stand after => stand = cursor ∧ after = before
  | stmt :: rest => fun cursor before stand after =>
    ∃ middle store, crossing stmt.labels (wayOf "" first stmt) cursor before middle store ∧
      crossAll (first + (Traversal.clausesOfStmt stmt).length) rest middle store stand after
termination_by structural stmts => stmts

def wayOfCases (first : Nat) : List CaseClause → Nat → Way
  | [], _ => stuck
  | ⟨_, _, _, body⟩ :: rest, 0 =>
    clause first (block back (ownLabels body) (crossAll (first + 1) body))
      (wayOfCases (first + 1 + (Traversal.clausesOfStmts body).length) rest 0)
  | ⟨_, _, _, body⟩ :: rest, index + 1 =>
    wayOfCases (first + 1 + (Traversal.clausesOfStmts body).length) rest index
termination_by structural clauses => clauses

def wayOfComms (first : Nat) : List CommClause → Way
  | [] => stuck
  | ⟨comm, body⟩ :: rest => fun before cursor after =>
    andThen (wayOf "" first comm) (block back (ownLabels body) (crossAll first body))
        before cursor after ∨
      wayOfComms (first + (Traversal.clausesOfStmts body).length) rest before cursor after
termination_by structural clauses => clauses

end

end Paths

open Paths Source

def Path (info : Info) (body : List Stmt) : Cursor → Store → Prop :=
  block true (ownLabels body) (crossAll info true 0 body) ∅

/-- A path on which no `goto` goes back to a label that it has passed. One that wants to is as far as
the path goes. -/
def ForwardPath (info : Info) (body : List Stmt) : Cursor → Store → Prop :=
  block false (ownLabels body) (crossAll info false 0 body) ∅

end ClauseReach
