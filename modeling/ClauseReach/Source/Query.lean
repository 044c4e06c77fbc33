import ClauseReach.Source.Syntax
import ClauseReach.State.Algebra

/-!
Questions about expressions: their types, what they assign or call, and how a condition splits the
states that reach it.
-/

namespace ClauseReach.Source

open StateAlgebra

namespace Info

variable (info : Info)

def object? (id : Option ObjectId) : Option Object := id.bind (info.objects[·]?)

/-- The recorded type, or else the type of the object that an identifier stands for. -/
def typeOf (expr : Expr) : Option TypeRef :=
  match expr.fact, expr with
  | some .untypedNil, _ => some .untypedNil
  | some (.known type _), _ => type.map .entry
  | none, .ident _ defines uses => (info.object? (defines.or uses)).bind Object.typeRef
  | none, _ => none

def isNil (expr : Expr) : Bool :=
  expr.fact = some .untypedNil ||
    match expr.bare with
    | .ident _ _ uses => (info.object? uses).any (·.kind = .nil)
    | _ => false

def assigned? (expr : Expr) : Option ObjectId :=
  match expr.bare with
  | .ident _ defines uses =>
    let id := defines.or uses
    if (info.object? id).any (·.kind = .var) then id else none
  | _ => none

def neverReturns (expr : Expr) : Bool :=
  match expr.bare with
  | .call _ callee _ =>
    match callee.bare with
    | .ident _ _ uses | .selector _ _ (.ident _ _ uses) =>
      (info.object? uses).any Object.neverReturns
    | _ => false
  | _ => false

end Info

namespace Expr

variable {σ : Type} [StateAlgebra σ]

/-- The states in which a condition holds and in which it fails, from the state before it. A
condition of known value never takes the other way. -/
def split (state : σ) (expr : Expr) : σ × σ :=
  match expr.value? with
  | some (.bool true) => (state, unreachable)
  | some (.bool false) => (unreachable, state)
  | _ =>
    match expr with
    | .paren _ inner => inner.split state
    | .unary _ .not operand => (operand.split state).swap
    | .binary _ .and left right =>
      let first := left.split state
      let second := right.split first.1
      (second.1, merge first.2 second.2)
    | .binary _ .or left right =>
      let first := left.split state
      let second := right.split first.2
      (merge first.1 second.1, second.2)
    | _ => (state, state)
termination_by structural expr

end Expr

end ClauseReach.Source
