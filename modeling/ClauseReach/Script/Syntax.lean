import ClauseReach.Decision

/-!
Scripts: a small statement language that drives a pass operation by operation. A script names its
destinations and, in some statements, the states directly.
-/

namespace ClauseReach.Script

inductive Effect where
  | pure
  | fact
  | kill
  deriving DecidableEq, Repr

structure Expr where
  name : String
  effect : Effect
  deriving DecidableEq, Repr

abbrev Tree := Decision Expr String

inductive Stmt (σ : Type) where
  | fact (name : String)
  | leave
  | jump (dest : Dest)
  | branch (dest : Dest)
  | record (dest : Dest) (state : σ)
  | resolve (dest : Dest)
  | set (state : σ)
  | join (state : σ)
  | eval (expr : Expr)
  | choose (condition : Expr) (whenTrue whenFalse : List (Stmt σ))
  | jumpSwitch (scrutinee : Option Expr) (sections : List (List Dest × List (Stmt σ)))
      (brk target : Dest)
  | treeSwitch (scrutinee : Option Expr) (known : Option Constant) (tree : Tree)
      (fallback : Dest) (complete : Bool) (sections : List (List Dest × List (Stmt σ)))
      (brk : Dest)

inductive Event (σ : Type) where
  | expr (name : String)
  | cond (name : String)
  | resolve (dest : Dest) (count : Nat)
  | bind (names : List String) (dest : Dest)
  | enter (labels : List Dest) (state : σ)

def Event.text {σ : Type} (render : σ → String) : Event σ → String
  | .expr name => s!"expr {name}"
  | .cond name => s!"cond {name}"
  | .resolve dest count => s!"resolve {dest.text} = {count}"
  | .bind names dest => s!"bind [" ++ ",".intercalate names ++ s!"] {dest.text}"
  | .enter labels state => s!"enter [" ++ ",".intercalate (labels.map Dest.text) ++ s!"] {render state}"

/-- Which events of a pattern switch are observed: bindings at leaves and entries of sections. -/
structure Hooks where
  binds : Bool
  enters : Bool
  deriving DecidableEq, Repr

end ClauseReach.Script
