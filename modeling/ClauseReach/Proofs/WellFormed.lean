import ClauseReach.Proofs.Path

/-!
Well-formed function bodies: the shape that the grammar gives to statements, and the rules for labels.
A `break`, `continue` or `fallthrough` that refers to nothing needs no rule: a path ends there.
-/

namespace ClauseReach.Source

open Checker

mutual

def innerLabels : Stmt → List String
  | .block body => allLabels body
  | .labeled _ stmt => innerLabels stmt
  | .cond _ _ body otherwise => allLabels body ++ innerLabels otherwise
  | .loop _ _ _ body => allLabels body
  | .range _ _ _ _ body => allLabels body
  | .select clauses => labelsOfComms clauses
  | .switch _ _ clauses => labelsOfCases clauses
  | .typeSwitch _ _ clauses => labelsOfCases clauses
  | _ => []
termination_by structural stmt => stmt

def allLabels : List Stmt → List String
  | [] => []
  | stmt :: rest => stmt.labels ++ (innerLabels stmt ++ allLabels rest)
termination_by structural stmts => stmts

def labelsOfCases : List CaseClause → List String
  | [] => []
  | ⟨_, _, _, body⟩ :: rest => allLabels body ++ labelsOfCases rest
termination_by structural clauses => clauses

def labelsOfComms : List CommClause → List String
  | [] => []
  | ⟨_, body⟩ :: rest => allLabels body ++ labelsOfComms rest
termination_by structural clauses => clauses

end

def Stmt.isSimple : Stmt → Bool
  | .empty | .expr _ | .assign .. | .eval _ => true
  | _ => false

/-- What may stand behind `else`; nothing is the empty statement. -/
def Stmt.isElse : Stmt → Bool
  | .empty | .block _ | .cond .. => true
  | _ => false

theorem Stmt.labels_of_isElse {stmt : Stmt} (isElse : stmt.isElse = true) : stmt.labels = [] := by
  cases stmt with
  | labeled label stmt => cases isElse
  | _ => rfl

def Spec.isValues : Spec → Bool
  | .values .. => true
  | .type => false

/-- At most one default clause, and at least one expression in every other one. -/
def properClauses (clauses : List CaseClause) : Bool :=
  (clauses.filter (·.cases.isNone)).length ≤ 1 &&
    clauses.all fun clause => clause.cases.all (!·.isEmpty)

/-- The cases of a type switch are types or nil, and at most one is nil. -/
def properTypes (info : Info) (clauses : List CaseClause) : Bool :=
  let cases := clauses.flatMap (·.cases.getD [])
  (cases.filter info.isNil).length ≤ 1 &&
    cases.all fun case => info.isNil case || (info.typeOf case).isSome

variable (info : Info)

mutual

/-- A statement has the shape that the grammar gives to it, and every `goto` in it names a label that is
visible to it: one of a list around the `goto`. So no `goto` leads into a block. -/
def legal (visible : List String) : Stmt → Bool
  | .empty => true
  | .block body => legalAll (ownLabels body ++ visible) body
  | .expr _ => true
  | .assign _ _ => true
  | .eval _ => true
  | .declare .variables specs => specs.all Spec.isValues
  | .declare .other _ => true
  | .return _ => true
  | .jump (.goto target) => target.any visible.contains
  | .jump _ => true
  | .labeled _ stmt => legal visible stmt
  | .cond init _ body otherwise =>
    init.isSimple && legalAll (ownLabels body ++ visible) body && otherwise.isElse &&
      legal visible otherwise
  | .loop init _ post body =>
    init.isSimple && post.isSimple && legalAll (ownLabels body ++ visible) body
  | .range _ _ _ _ body => legalAll (ownLabels body ++ visible) body
  | .select clauses => legalComms visible clauses
  | .switch init _ clauses => init.isSimple && properClauses clauses && legalCases visible clauses
  | .typeSwitch init guard clauses =>
    init.isSimple && (TypeSwitchPlan.scrutinee guard).isOk && properClauses clauses &&
      properTypes info clauses && legalCases visible clauses
termination_by structural stmt => stmt

def legalAll (visible : List String) : List Stmt → Bool
  | [] => true
  | stmt :: rest => legal visible stmt && legalAll visible rest
termination_by structural stmts => stmts

def legalCases (visible : List String) : List CaseClause → Bool
  | [] => true
  | ⟨_, _, _, body⟩ :: rest => legalAll (ownLabels body ++ visible) body && legalCases visible rest
termination_by structural clauses => clauses

def legalComms (visible : List String) : List CommClause → Bool
  | [] => true
  | ⟨comm, body⟩ :: rest =>
    comm.isSimple && legalAll (ownLabels body ++ visible) body && legalComms visible rest
termination_by structural clauses => clauses

end

/-- A function body that is accepted, as far as control flow is concerned. -/
structure WellFormed (body : List Stmt) : Prop where
  labels : (allLabels body).Nodup
  legal : legalAll info (ownLabels body) body = true

instance (body : List Stmt) : Decidable (WellFormed info body) :=
  decidable_of_iff ((allLabels body).Nodup ∧ legalAll info (ownLabels body) body = true)
    ⟨fun ⟨labels, legal⟩ => ⟨labels, legal⟩, fun ⟨labels, legal⟩ => ⟨labels, legal⟩⟩

end ClauseReach.Source
