import ClauseReach.Proofs.WellFormed

/-!
A function body as it looks to someone who passes through all of it once: its labels, its `goto`s and the clauses of
its switches, in the order in which they come. Two questions about a body are asked apart from that, neither of
them about types or values: whether it has the shape that the grammar gives to it, and whether a `continue` in it
names something else than a loop.
-/

namespace ClauseReach.Source

inductive Mark where
  | goto (label : String)
  | label (name : String)
  | clause (clause : CaseClause)

namespace Mark

def label? : Mark → Option String
  | .label name => some name
  | _ => none

def clause? : Mark → Option CaseClause
  | .clause found => some found
  | _ => none

/-- The labels that a `goto` is under way to, behind a mark. A new one is put at the end, and a label takes up
whatever is under way to it. -/
def follow (sought : List String) : Mark → List String
  | .goto name => if name ∈ sought then sought else sought ++ [name]
  | .label name => sought.filter (· ≠ name)
  | .clause _ => sought

end Mark

def Jump.marks : Jump → List Mark
  | .goto (some label) => [.goto label]
  | _ => []

mutual

/-- The marks of a statement in source order, those of function literals apart. A post statement comes behind the
body, where it is executed; by the grammar it has no marks. -/
def marksOf : Stmt → List Mark
  | .block body => marksOfAll body
  | .jump jump => jump.marks
  | .labeled label stmt => .label label :: marksOf stmt
  | .cond init _ body otherwise => marksOf init ++ (marksOfAll body ++ marksOf otherwise)
  | .loop init _ post body => marksOf init ++ (marksOfAll body ++ marksOf post)
  | .range _ _ _ _ body => marksOfAll body
  | .select clauses => marksOfComms clauses
  | .switch init _ clauses => marksOf init ++ marksOfCases clauses
  | .typeSwitch init guard clauses => marksOf init ++ (marksOf guard ++ marksOfCases clauses)
  | _ => []
termination_by structural stmt => stmt

def marksOfAll : List Stmt → List Mark
  | [] => []
  | stmt :: rest => marksOf stmt ++ marksOfAll rest
termination_by structural stmts => stmts

def marksOfCases : List CaseClause → List Mark
  | [] => []
  | ⟨pos, cases, binding, body⟩ :: rest =>
    .clause ⟨pos, cases, binding, body⟩ :: (marksOfAll body ++ marksOfCases rest)
termination_by structural clauses => clauses

def marksOfComms : List CommClause → List Mark
  | [] => []
  | ⟨comm, body⟩ :: rest => (marksOf comm ++ marksOfAll body) ++ marksOfComms rest
termination_by structural clauses => clauses

end

theorem marksOfCases_cons (clause : CaseClause) (rest : List CaseClause) :
    marksOfCases (clause :: rest) = .clause clause :: (marksOfAll clause.body ++ marksOfCases rest) := by
  cases clause
  rfl

theorem marksOfComms_cons (clause : CommClause) (rest : List CommClause) :
    marksOfComms (clause :: rest) = (marksOf clause.comm ++ marksOfAll clause.body) ++ marksOfComms rest := by
  cases clause
  rfl

/-- The clauses of a body, those in function literals apart. -/
def ownClauses (body : List Stmt) : List CaseClause := (marksOfAll body).filterMap Mark.clause?

/-- The head of a type switch: an assertion, or the assignment of one. -/
def Stmt.isTypeGuard : Stmt → Bool
  | .expr (.assertion ..) => true
  | .assign _ [.assertion ..] => true
  | _ => false

/-- Every clause but a default clause has an expression. -/
def filled (clauses : List CaseClause) : Bool := clauses.all fun clause => clause.cases.all (!·.isEmpty)

mutual

/-- A statement has the shape that the grammar gives to it, as far as the parts are not given by their types: a
`goto` names a label, variables are declared by value lists, cases have expressions, and the head of a type switch
is an assertion. Nothing is asked of other jumps, and nothing of types and values. -/
def shaped : Stmt → Bool
  | .block body => shapedAll body
  | .declare .variables specs => specs.all Spec.isValues
  | .jump (.goto label) => label.isSome
  | .labeled _ stmt => shaped stmt
  | .cond init _ body otherwise => shaped init && (shapedAll body && shaped otherwise)
  | .loop init _ post body => shaped init && (shapedAll body && shaped post)
  | .range _ _ _ _ body => shapedAll body
  | .select clauses => shapedComms clauses
  | .switch init _ clauses => shaped init && (filled clauses && shapedCases clauses)
  | .typeSwitch init guard clauses => shaped init && (guard.isTypeGuard && (filled clauses && shapedCases clauses))
  | _ => true
termination_by structural stmt => stmt

def shapedAll : List Stmt → Bool
  | [] => true
  | stmt :: rest => shaped stmt && shapedAll rest
termination_by structural stmts => stmts

def shapedCases : List CaseClause → Bool
  | [] => true
  | ⟨_, _, _, body⟩ :: rest => shapedAll body && shapedCases rest
termination_by structural clauses => clauses

def shapedComms : List CommClause → Bool
  | [] => true
  | ⟨comm, body⟩ :: rest => (shaped comm && shapedAll body) && shapedComms rest
termination_by structural clauses => clauses

end

/-- Whether the innermost statement that a `continue` can mean by its label is no loop. The statements around it are
given from the inside out, by name and by whether they are loops. -/
def Jump.misnames (around : List (String × Bool)) : Jump → Bool
  | .continue (some label) => (around.find? (·.1 = label)).any (!·.2)
  | _ => false

mutual

/-- Whether some `continue` in a statement names a select or a switch that it stands in. The name of the statement
itself is the label in front of it, or empty. -/
def misnames (around : List (String × Bool)) (name : String) : Stmt → Bool
  | .block body => misnamesAll around body
  | .jump jump => jump.misnames around
  | .labeled label stmt => misnames around label stmt
  | .cond init _ body otherwise =>
    misnames around "" init || (misnamesAll around body || misnames around "" otherwise)
  | .loop init _ post body =>
    misnames around "" init || (misnamesAll ((name, true) :: around) body || misnames around "" post)
  | .range _ _ _ _ body => misnamesAll ((name, true) :: around) body
  | .select clauses => misnamesComms ((name, false) :: around) clauses
  | .switch init _ clauses => misnames around "" init || misnamesCases ((name, false) :: around) clauses
  | .typeSwitch init _ clauses => misnames around "" init || misnamesCases ((name, false) :: around) clauses
  | _ => false
termination_by structural stmt => stmt

def misnamesAll (around : List (String × Bool)) : List Stmt → Bool
  | [] => false
  | stmt :: rest => misnames around "" stmt || misnamesAll around rest
termination_by structural stmts => stmts

def misnamesCases (around : List (String × Bool)) : List CaseClause → Bool
  | [] => false
  | ⟨_, _, _, body⟩ :: rest => misnamesAll around body || misnamesCases around rest
termination_by structural clauses => clauses

def misnamesComms (around : List (String × Bool)) : List CommClause → Bool
  | [] => false
  | ⟨comm, body⟩ :: rest => (misnames around "" comm || misnamesAll around body) || misnamesComms around rest
termination_by structural clauses => clauses

end

end ClauseReach.Source
