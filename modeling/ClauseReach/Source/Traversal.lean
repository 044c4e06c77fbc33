import ClauseReach.Fault
import ClauseReach.Source.Syntax

/-!
Files as trees of nodes, and two ways to go through them: one asks at every node whether to go on inside, the other
picks nodes from the list of all. Both come to a node before those inside it, and to these in source order.
-/

namespace ClauseReach.Source

inductive Decl where
  | function (body : Option (List Stmt))
  | general (specs : List Spec)
  | bad

structure File where
  decls : List Decl

/-- Functions, declared or literal, are told apart from all other nodes. -/
inductive Node where
  | function (body : Option (List Stmt))
  | other

def Node.isFunction : Node → Bool
  | .function _ => true
  | .other => false

inductive Tree where
  | mk (root : Node) (inner : List Tree)

namespace Tree

abbrev other (inner : List Tree) : Tree := .mk .other inner

section Order

variable {m : Type → Type} [Monad m]

mutual

/-- Visits a node and then, if the visit says so, what is inside; in this case another visit tells the end of it. -/
def inspect (visit : Option Node → m Bool) : Tree → m Unit
  | .mk root inner => do
    if ← visit (some root) then
      inspectAll visit inner
      let _ ← visit none
termination_by structural tree => tree

def inspectAll (visit : Option Node → m Bool) : List Tree → m Unit
  | [] => pure ()
  | tree :: rest => do
    tree.inspect visit
    inspectAll visit rest
termination_by structural trees => trees

end

mutual

def nodes : Tree → List Node
  | .mk root inner => root :: nodesOfAll inner
termination_by structural tree => tree

def nodesOfAll : List Tree → List Node
  | [] => []
  | tree :: rest => tree.nodes ++ nodesOfAll rest
termination_by structural trees => trees

end

def preorder (wanted : Node → Bool) (visit : Node → m Unit) (trees : List Tree) : m Unit :=
  ((nodesOfAll trees).filter wanted).forM visit

end Order

/-! Trees of syntax -/

mutual

def ofExpr : Expr → Tree
  | .ident .. => other []
  | .literal _ => other []
  | .paren _ inner => other [ofExpr inner]
  | .unary _ _ operand => other [ofExpr operand]
  | .binary _ _ left right => other [ofExpr left, ofExpr right]
  | .call _ callee arguments => other (ofExpr callee :: ofExprs arguments)
  | .selector _ base member => other [ofExpr base, ofExpr member]
  | .index _ base position => other [ofExpr base, ofExpr position]
  | .star _ operand => other [ofExpr operand]
  | .assertion _ operand type => other (ofExpr operand :: ofOption type)
  | .composite _ elements => other (ofExprs elements)
  | .function _ body => .mk (.function (some body)) [other (ofStmts body)]
termination_by structural expr => expr

def ofExprs : List Expr → List Tree
  | [] => []
  | expr :: rest => ofExpr expr :: ofExprs rest
termination_by structural exprs => exprs

def ofOption : Option Expr → List Tree
  | none => []
  | some expr => [ofExpr expr]
termination_by structural expr => expr

def ofCases : Option (List Expr) → List Tree
  | none => []
  | some exprs => ofExprs exprs
termination_by structural cases => cases

def ofStmt : Stmt → Tree
  | .empty => other []
  | .block body => other (ofStmts body)
  | .expr expr => other [ofExpr expr]
  | .assign targets values => other (ofExprs targets ++ ofExprs values)
  | .eval operands => other (ofExprs operands)
  | .declare _ specs => other [other (ofSpecs specs)]
  | .return results => other (ofExprs results)
  | .jump _ => other []
  | .labeled _ stmt => other [ofStmt stmt]
  | .cond init condition body otherwise =>
    other [ofStmt init, ofExpr condition, other (ofStmts body), ofStmt otherwise]
  | .loop init condition post body =>
    other (ofStmt init :: (ofOption condition ++ [ofStmt post, other (ofStmts body)]))
  | .range _ key value subject body =>
    other (ofOption key ++ ofOption value ++ [ofExpr subject, other (ofStmts body)])
  | .select clauses => other [other (ofComms clauses)]
  | .switch init tag clauses => other (ofStmt init :: (ofOption tag ++ [other (ofClauses clauses)]))
  | .typeSwitch init guard clauses => other [ofStmt init, ofStmt guard, other (ofClauses clauses)]
termination_by structural stmt => stmt

def ofStmts : List Stmt → List Tree
  | [] => []
  | stmt :: rest => ofStmt stmt :: ofStmts rest
termination_by structural stmts => stmts

def ofClauses : List CaseClause → List Tree
  | [] => []
  | ⟨_, cases, _, body⟩ :: rest => other (ofCases cases ++ ofStmts body) :: ofClauses rest
termination_by structural clauses => clauses

def ofComms : List CommClause → List Tree
  | [] => []
  | ⟨comm, body⟩ :: rest => other (ofStmt comm :: ofStmts body) :: ofComms rest
termination_by structural clauses => clauses

def ofSpecs : List Spec → List Tree
  | [] => []
  | .values names values :: rest => other (ofExprs names ++ ofExprs values) :: ofSpecs rest
  | .type :: rest => other [] :: ofSpecs rest
termination_by structural specs => specs

end

end Tree

def Decl.tree : Decl → Tree
  | .function none => .mk (.function none) []
  | .function (some body) => .mk (.function (some body)) [.other (Tree.ofStmts body)]
  | .general specs => .other (Tree.ofSpecs specs)
  | .bad => .other []

def File.tree (file : File) : Tree := .other (file.decls.map Decl.tree)

/-- The extent of a file is read off its last declaration. Where trees were put together without the signatures of
functions and without parentheses, a function without a body has no end, nor has a declaration of nothing. -/
def File.measure (file : File) : Except Fault Unit :=
  match file.decls.getLast? with
  | some (.function none) => throw .openFunction
  | some (.general []) => throw .emptyDeclaration
  | _ => pure ()

end ClauseReach.Source
