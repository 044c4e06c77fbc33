import ClauseReach.Constant
import ClauseReach.Source.Form
import ClauseReach.Source.Object

/-!
Syntax trees of Go functions. Expressions carry what the type checker found out about them. An
optional statement that is not there is the empty statement.
-/

namespace ClauseReach.Source

/-- What is recorded about an expression: it is the predeclared nil, or it has a type or a constant
value or both. -/
inductive Fact where
  | untypedNil
  | known (type : Option TypeId) (value : Option Constant)
  deriving DecidableEq

inductive UnaryOp where
  | not
  | other
  deriving DecidableEq, Repr

inductive BinaryOp where
  | and
  | or
  | other
  deriving DecidableEq, Repr

inductive DeclKind where
  | variables
  | other
  deriving DecidableEq, Repr

inductive Jump where
  | break (label : Option String)
  | continue (label : Option String)
  | goto (label : Option String)
  | fallthrough
  | other
  deriving DecidableEq, Repr

mutual

inductive Expr where
  | ident (fact : Option Fact) (defines uses : Option ObjectId)
  | literal (fact : Option Fact)
  | paren (fact : Option Fact) (inner : Expr)
  | unary (fact : Option Fact) (op : UnaryOp) (operand : Expr)
  | binary (fact : Option Fact) (op : BinaryOp) (left right : Expr)
  | call (fact : Option Fact) (callee : Expr) (arguments : List Expr)
  | selector (fact : Option Fact) (base member : Expr)
  | index (fact : Option Fact) (base position : Expr)
  | star (fact : Option Fact) (operand : Expr)
  | assertion (fact : Option Fact) (operand : Expr) (type : Option Expr)
  | composite (fact : Option Fact) (elements : List Expr)
  | function (fact : Option Fact) (body : List Stmt)

inductive Stmt where
  | empty
  | block (body : List Stmt)
  | expr (expr : Expr)
  | assign (targets values : List Expr)
  | eval (operands : List Expr)
  | declare (kind : DeclKind) (specs : List Spec)
  | return (results : List Expr)
  | jump (jump : Jump)
  | labeled (label : String) (stmt : Stmt)
  | cond (init : Stmt) (condition : Expr) (body : List Stmt) (otherwise : Stmt)
  | loop (init : Stmt) (condition : Option Expr) (post : Stmt) (body : List Stmt)
  | range (assigns : Bool) (key value : Option Expr) (subject : Expr) (body : List Stmt)
  | select (clauses : List CommClause)
  | switch (init : Stmt) (tag : Option Expr) (clauses : List CaseClause)
  | typeSwitch (init guard : Stmt) (clauses : List CaseClause)

inductive Spec where
  | values (names values : List Expr)
  | type

/-- A clause of a switch. A default clause has no case list; `binding` is the variable that a type
switch declares in the clause. -/
structure CaseClause where
  pos : Int
  cases : Option (List Expr)
  binding : Option ObjectId
  body : List Stmt

structure CommClause where
  comm : Stmt
  body : List Stmt

end

namespace Expr

def fact : Expr → Option Fact
  | .ident fact .. | .literal fact | .paren fact _ | .unary fact .. | .binary fact ..
  | .call fact .. | .selector fact .. | .index fact .. | .star fact _ | .assertion fact ..
  | .composite fact _ | .function fact _ => fact

def form : Expr → Form
  | .ident .. => .ident
  | .literal _ => .literal
  | .paren .. => .paren
  | .unary .. => .unary
  | .binary .. => .binary
  | .call .. => .call
  | .selector .. => .selector
  | .index .. => .index
  | .star .. => .star
  | .assertion .. => .assertion
  | .composite .. => .composite
  | .function .. => .function

def value? (expr : Expr) : Option Constant :=
  match expr.fact with
  | some (.known _ value) => value
  | _ => none

def bare : Expr → Expr
  | .paren _ inner => inner.bare
  | expr => expr

end Expr

end ClauseReach.Source
