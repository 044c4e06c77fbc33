import Mathlib.Algebra.Order.Group.Multiset
import Mathlib.Tactic.Abel
import ClauseReach.Proofs.Marks
import ClauseReach.Source.Traversal

/-!
The homes of clauses. Every clause in a file has a home, the innermost function around it, literals included. The nodes
of a file give each function once, and so the clauses of the functions, each function apart from the literals in
it, are the clauses of the file.
-/

namespace ClauseReach.Source

/-- The body of a function; one without a body has no statements. -/
def Node.body? : Node → Option (List Stmt)
  | .function body => some (body.getD [])
  | .other => none

namespace Tree

def functionsOfAll (trees : List Tree) : List (List Stmt) := (nodesOfAll trees).filterMap Node.body?

def functions (tree : Tree) : List (List Stmt) := tree.nodes.filterMap Node.body?

variable {tree : Tree} {inner trees others : List Tree} {body : List Stmt}

theorem functions_mk {root : Node} : (mk root inner).functions = root.body?.toList ++ functionsOfAll inner := by
  cases root <;> rfl

theorem functions_function : (mk (.function (some body)) inner).functions = body :: functionsOfAll inner := rfl

theorem functionsOfAll_nil : functionsOfAll [] = [] := rfl

theorem functionsOfAll_cons : functionsOfAll (tree :: trees) = tree.functions ++ functionsOfAll trees :=
  List.filterMap_append

theorem functionsOfAll_append : functionsOfAll (trees ++ others) = functionsOfAll trees ++ functionsOfAll others := by
  induction trees with
  | nil => rfl
  | cons tree rest ih => rw [List.cons_append, functionsOfAll_cons, functionsOfAll_cons, ih, List.append_assoc]

theorem functionsOfAll_eq_flatMap (trees : List Tree) : functionsOfAll trees = trees.flatMap functions := by
  induction trees with
  | nil => rfl
  | cons tree rest ih => rw [functionsOfAll_cons, ih, List.flatMap_cons]

end Tree

def File.functions (file : File) : List (List Stmt) := file.tree.functions

/-- A clause and the body of the innermost function around it. -/
structure Placed where
  home : List Stmt
  clause : CaseClause

mutual

/-- All clauses inside an expression, where only function literals have clauses, in source order. -/
def placedInExpr : Expr → List Placed
  | .ident .. => []
  | .literal _ => []
  | .paren _ inner => placedInExpr inner
  | .unary _ _ operand => placedInExpr operand
  | .binary _ _ left right => placedInExpr left ++ placedInExpr right
  | .call _ callee arguments => placedInExpr callee ++ placedInExprs arguments
  | .selector _ base member => placedInExpr base ++ placedInExpr member
  | .index _ base position => placedInExpr base ++ placedInExpr position
  | .star _ operand => placedInExpr operand
  | .assertion _ operand type => placedInExpr operand ++ placedInOption type
  | .composite _ elements => placedInExprs elements
  | .function _ body => placedInStmts body body
termination_by structural expr => expr

def placedInExprs : List Expr → List Placed
  | [] => []
  | expr :: rest => placedInExpr expr ++ placedInExprs rest
termination_by structural exprs => exprs

def placedInOption : Option Expr → List Placed
  | none => []
  | some expr => placedInExpr expr
termination_by structural expr => expr

def placedInCases : Option (List Expr) → List Placed
  | none => []
  | some exprs => placedInExprs exprs
termination_by structural cases => cases

/-- All clauses inside a statement of a function, at any depth of literals. -/
def placedInStmt (home : List Stmt) : Stmt → List Placed
  | .empty => []
  | .block body => placedInStmts home body
  | .expr expr => placedInExpr expr
  | .assign targets values => placedInExprs targets ++ placedInExprs values
  | .eval operands => placedInExprs operands
  | .declare _ specs => placedInSpecs specs
  | .return results => placedInExprs results
  | .jump _ => []
  | .labeled _ stmt => placedInStmt home stmt
  | .cond init condition body otherwise =>
    placedInStmt home init ++ placedInExpr condition ++ placedInStmts home body ++ placedInStmt home otherwise
  | .loop init condition post body =>
    placedInStmt home init ++ placedInOption condition ++ placedInStmt home post ++ placedInStmts home body
  | .range _ key value subject body =>
    placedInOption key ++ placedInOption value ++ placedInExpr subject ++ placedInStmts home body
  | .select clauses => placedInComms home clauses
  | .switch init tag clauses => placedInStmt home init ++ placedInOption tag ++ placedInClauses home clauses
  | .typeSwitch init guard clauses =>
    placedInStmt home init ++ placedInStmt home guard ++ placedInClauses home clauses
termination_by structural stmt => stmt

def placedInStmts (home : List Stmt) : List Stmt → List Placed
  | [] => []
  | stmt :: rest => placedInStmt home stmt ++ placedInStmts home rest
termination_by structural stmts => stmts

def placedInClauses (home : List Stmt) : List CaseClause → List Placed
  | [] => []
  | ⟨pos, cases, binding, body⟩ :: rest =>
    ⟨home, ⟨pos, cases, binding, body⟩⟩ :: (placedInCases cases ++ placedInStmts home body ++ placedInClauses home rest)
termination_by structural clauses => clauses

def placedInComms (home : List Stmt) : List CommClause → List Placed
  | [] => []
  | ⟨comm, body⟩ :: rest => placedInStmt home comm ++ placedInStmts home body ++ placedInComms home rest
termination_by structural clauses => clauses

def placedInSpecs : List Spec → List Placed
  | [] => []
  | .values names values :: rest => placedInExprs names ++ placedInExprs values ++ placedInSpecs rest
  | .type :: rest => placedInSpecs rest
termination_by structural specs => specs

end

def Decl.placed : Decl → List Placed
  | .function none => []
  | .function (some body) => placedInStmts body body
  | .general specs => placedInSpecs specs
  | .bad => []

def File.placed (file : File) : List Placed := file.decls.flatMap Decl.placed

/-- The clauses among the marks, placed in a function. -/
def homed (home : List Stmt) (marks : List Mark) : List Placed := (marks.filterMap Mark.clause?).map (⟨home, ·⟩)

/-- The clauses of functions, each function apart from the literals in it. -/
def gathered (functions : List (List Stmt)) : List Placed := functions.flatMap fun body => homed body (marksOfAll body)

theorem homed_append (home : List Stmt) (first second : List Mark) :
    homed home (first ++ second) = homed home first ++ homed home second := by
  simp [homed]

theorem homed_clause (home : List Stmt) (clause : CaseClause) (rest : List Mark) :
    homed home (.clause clause :: rest) = ⟨home, clause⟩ :: homed home rest := rfl

theorem homed_jump (home : List Stmt) (jump : Jump) : homed home jump.marks = [] := by
  cases jump with
  | goto label => cases label <;> rfl
  | _ => rfl

theorem gathered_append (first second : List (List Stmt)) :
    gathered (first ++ second) = gathered first ++ gathered second := by
  simp [gathered]

theorem gathered_cons (body : List Stmt) (rest : List (List Stmt)) :
    gathered (body :: rest) = homed body (marksOfAll body) ++ gathered rest := by
  simp [gathered]

/-- The clauses of the functions among these nodes. -/
def Tree.clauses (tree : Tree) : Multiset Placed := gathered tree.functions

def Tree.clausesOfAll (trees : List Tree) : Multiset Placed := gathered (functionsOfAll trees)

namespace Tree

variable {tree : Tree} {inner trees others : List Tree} {body : List Stmt}

theorem clauses_other : (other inner).clauses = clausesOfAll inner := rfl

theorem clauses_function :
    (mk (.function (some body)) inner).clauses = homed body (marksOfAll body) + clausesOfAll inner := by
  rw [clauses, functions_function, gathered_cons, ← Multiset.coe_add]
  rfl

theorem clausesOfAll_nil : clausesOfAll [] = 0 := rfl

theorem clausesOfAll_cons : clausesOfAll (tree :: trees) = tree.clauses + clausesOfAll trees := by
  rw [clausesOfAll, functionsOfAll_cons, gathered_append, ← Multiset.coe_add]
  rfl

theorem clausesOfAll_append : clausesOfAll (trees ++ others) = clausesOfAll trees + clausesOfAll others := by
  rw [clausesOfAll, functionsOfAll_append, gathered_append, ← Multiset.coe_add]
  rfl

end Tree

open ClauseReach.Source.Tree

mutual

theorem placedInExpr_eq (expr : Expr) : (placedInExpr expr : Multiset Placed) = (ofExpr expr).clauses := by
  match expr with
  | .ident .. | .literal _ => rfl
  | .paren _ inner | .unary _ _ inner | .star _ inner =>
    simp only [placedInExpr, ofExpr, clauses_other, clausesOfAll_cons, clausesOfAll_nil, placedInExpr_eq inner, add_zero]
  | .binary _ _ left right | .selector _ left right | .index _ left right =>
    simp only [placedInExpr, ofExpr, clauses_other, clausesOfAll_cons, clausesOfAll_nil, ← Multiset.coe_add,
      placedInExpr_eq left, placedInExpr_eq right, add_zero]
  | .call _ callee arguments =>
    simp only [placedInExpr, ofExpr, clauses_other, clausesOfAll_cons, ← Multiset.coe_add, placedInExpr_eq callee,
      placedInExprs_eq arguments]
  | .assertion _ operand type =>
    simp only [placedInExpr, ofExpr, clauses_other, clausesOfAll_cons, ← Multiset.coe_add, placedInExpr_eq operand,
      placedInOption_eq type]
  | .composite _ elements => exact placedInExprs_eq elements
  | .function _ body =>
    simp only [placedInExpr, ofExpr, clauses_function, clauses_other, clausesOfAll_cons, clausesOfAll_nil,
      placedInStmts_eq body body, add_zero]
termination_by structural expr

theorem placedInExprs_eq (exprs : List Expr) :
    (placedInExprs exprs : Multiset Placed) = clausesOfAll (ofExprs exprs) := by
  match exprs with
  | [] => rfl
  | expr :: rest =>
    simp only [placedInExprs, ofExprs, clausesOfAll_cons, ← Multiset.coe_add, placedInExpr_eq expr,
      placedInExprs_eq rest]
termination_by structural exprs

theorem placedInOption_eq (expr : Option Expr) :
    (placedInOption expr : Multiset Placed) = clausesOfAll (ofOption expr) := by
  match expr with
  | none => rfl
  | some expr =>
    simp only [placedInOption, ofOption, clausesOfAll_cons, clausesOfAll_nil, placedInExpr_eq expr, add_zero]
termination_by structural expr

theorem placedInCases_eq (cases : Option (List Expr)) :
    (placedInCases cases : Multiset Placed) = clausesOfAll (ofCases cases) := by
  match cases with
  | none => rfl
  | some exprs => exact placedInExprs_eq exprs
termination_by structural cases

/-- The clauses inside a statement are those of the function itself and those of the literals in it. -/
theorem placedInStmt_eq (home : List Stmt) (stmt : Stmt) :
    (placedInStmt home stmt : Multiset Placed) = homed home (marksOf stmt) + (ofStmt stmt).clauses := by
  match stmt with
  | .empty => rfl
  | .block body => exact placedInStmts_eq home body
  | .expr expr =>
    simp only [placedInStmt, ofStmt, marksOf, clauses_other, clausesOfAll_cons, clausesOfAll_nil, placedInExpr_eq expr,
      add_zero]
    exact (zero_add _).symm
  | .assign targets values =>
    simp only [placedInStmt, ofStmt, marksOf, clauses_other, clausesOfAll_append, ← Multiset.coe_add,
      placedInExprs_eq targets, placedInExprs_eq values]
    exact (zero_add _).symm
  | .eval operands => exact (placedInExprs_eq operands).trans (zero_add _).symm
  | .declare _ specs =>
    simp only [placedInStmt, ofStmt, marksOf, clauses_other, clausesOfAll_cons, clausesOfAll_nil, placedInSpecs_eq specs,
      add_zero]
    exact (zero_add _).symm
  | .return results => exact (placedInExprs_eq results).trans (zero_add _).symm
  | .jump jump =>
    simp only [placedInStmt, ofStmt, marksOf, homed_jump]
    rfl
  | .labeled _ stmt =>
    simp only [placedInStmt, ofStmt, marksOf, clauses_other, clausesOfAll_cons, clausesOfAll_nil,
      placedInStmt_eq home stmt, add_zero]
    rfl
  | .cond init condition body otherwise =>
    simp only [placedInStmt, ofStmt, marksOf, clauses_other, clausesOfAll_cons, clausesOfAll_nil, homed_append,
      ← Multiset.coe_add, placedInStmt_eq home init, placedInExpr_eq condition, placedInStmts_eq home body,
      placedInStmt_eq home otherwise]
    abel
  | .loop init condition post body =>
    simp only [placedInStmt, ofStmt, marksOf, clauses_other, clausesOfAll_cons, clausesOfAll_append, clausesOfAll_nil,
      homed_append, ← Multiset.coe_add, placedInStmt_eq home init, placedInOption_eq condition,
      placedInStmt_eq home post, placedInStmts_eq home body]
    abel
  | .range _ key value subject body =>
    simp only [placedInStmt, ofStmt, marksOf, clauses_other, clausesOfAll_cons, clausesOfAll_append, clausesOfAll_nil,
      ← Multiset.coe_add, placedInOption_eq key, placedInOption_eq value, placedInExpr_eq subject,
      placedInStmts_eq home body]
    abel
  | .select clauses =>
    simp only [placedInStmt, ofStmt, marksOf, clauses_other, clausesOfAll_cons, clausesOfAll_nil,
      placedInComms_eq home clauses, add_zero]
  | .switch init tag clauses =>
    simp only [placedInStmt, ofStmt, marksOf, clauses_other, clausesOfAll_cons, clausesOfAll_append, clausesOfAll_nil,
      homed_append, ← Multiset.coe_add, placedInStmt_eq home init, placedInOption_eq tag,
      placedInClauses_eq home clauses]
    abel
  | .typeSwitch init guard clauses =>
    simp only [placedInStmt, ofStmt, marksOf, clauses_other, clausesOfAll_cons, clausesOfAll_nil, homed_append,
      ← Multiset.coe_add, placedInStmt_eq home init, placedInStmt_eq home guard, placedInClauses_eq home clauses]
    abel
termination_by structural stmt

theorem placedInStmts_eq (home stmts : List Stmt) :
    (placedInStmts home stmts : Multiset Placed) =
      homed home (marksOfAll stmts) + clausesOfAll (ofStmts stmts) := by
  match stmts with
  | [] => rfl
  | stmt :: rest =>
    simp only [placedInStmts, ofStmts, marksOfAll, clausesOfAll_cons, homed_append, ← Multiset.coe_add,
      placedInStmt_eq home stmt, placedInStmts_eq home rest]
    abel
termination_by structural stmts

theorem placedInClauses_eq (home : List Stmt) (clauses : List CaseClause) :
    (placedInClauses home clauses : Multiset Placed) =
      homed home (marksOfCases clauses) + clausesOfAll (ofClauses clauses) := by
  match clauses with
  | [] => rfl
  | ⟨pos, cases, binding, body⟩ :: rest =>
    simp only [placedInClauses, ofClauses, marksOfCases, clauses_other, clausesOfAll_cons, clausesOfAll_append,
      homed_append, homed_clause, ← Multiset.coe_add, ← Multiset.cons_coe, placedInCases_eq cases,
      placedInStmts_eq home body, placedInClauses_eq home rest, ← Multiset.singleton_add]
    abel
termination_by structural clauses

theorem placedInComms_eq (home : List Stmt) (clauses : List CommClause) :
    (placedInComms home clauses : Multiset Placed) =
      homed home (marksOfComms clauses) + clausesOfAll (ofComms clauses) := by
  match clauses with
  | [] => rfl
  | ⟨comm, body⟩ :: rest =>
    simp only [placedInComms, ofComms, marksOfComms, clauses_other, clausesOfAll_cons, homed_append, ← Multiset.coe_add,
      placedInStmt_eq home comm, placedInStmts_eq home body, placedInComms_eq home rest]
    abel
termination_by structural clauses

theorem placedInSpecs_eq (specs : List Spec) :
    (placedInSpecs specs : Multiset Placed) = clausesOfAll (ofSpecs specs) := by
  match specs with
  | [] => rfl
  | .values names values :: rest =>
    simp only [placedInSpecs, ofSpecs, clauses_other, clausesOfAll_cons, clausesOfAll_append, ← Multiset.coe_add,
      placedInExprs_eq names, placedInExprs_eq values, placedInSpecs_eq rest]
  | .type :: rest =>
    simp only [placedInSpecs, ofSpecs, clauses_other, clausesOfAll_cons, clausesOfAll_nil, placedInSpecs_eq rest,
      zero_add]
termination_by structural specs

end

theorem Decl.placed_eq (decl : Decl) : (decl.placed : Multiset Placed) = decl.tree.clauses := by
  cases decl with
  | function body =>
    cases body with
    | none => rfl
    | some body =>
      simp only [Decl.placed, Decl.tree, clauses_function, clauses_other, clausesOfAll_cons, clausesOfAll_nil,
        placedInStmts_eq body body, add_zero]
  | general specs => exact placedInSpecs_eq specs
  | bad => rfl

theorem File.placed_eq (file : File) : (file.placed : Multiset Placed) = file.tree.clauses := by
  obtain ⟨decls⟩ := file
  rw [File.placed, File.tree, clauses_other]
  induction decls with
  | nil => rfl
  | cons decl rest ih => rw [List.flatMap_cons, ← Multiset.coe_add, decl.placed_eq, ih, List.map_cons, clausesOfAll_cons]

/-- Every clause of the files is a clause of one function, and of no other. -/
theorem files_placed_perm (files : List File) :
    (files.flatMap File.placed).Perm (gathered (files.flatMap File.functions)) := by
  rw [gathered, List.flatMap_assoc]
  refine List.Perm.flatMap_left files fun file _ => ?_
  rw [← Multiset.coe_eq_coe]
  exact file.placed_eq

end ClauseReach.Source
