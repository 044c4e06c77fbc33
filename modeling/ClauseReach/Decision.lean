import ClauseReach.Constant
import ClauseReach.Pass

/-!
Decision trees: how a pattern switch finds the section for a value. Walking a tree sends one branch
to every leaf that the value may reach, from the state that the leaf's bindings and guard leave.
-/

namespace ClauseReach

open StateAlgebra

inductive Decision (ε ν : Type) where
  | empty
  | byType (onNull : Decision ε ν) (cases : List (Decision ε ν)) (otherwise : Decision ε ν)
  | byValue (cases : List (Option Constant × Decision ε ν)) (otherwise : Decision ε ν)
  | leaf (bindings : List ν) (guard : Option ε) (label : Dest) (fallback : Decision ε ν)
  | foreign (node : String)

/-- What an analysis does at a leaf: it binds variables, and it splits the current state by a guard
into the state where the guard holds and the one where it fails. -/
structure Matcher (σ τ ε ν : Type) where
  bind : List ν → Dest → Analysis σ τ Unit
  split : ε → Analysis σ τ (σ × σ)

namespace Matcher

variable {σ τ ε ν : Type}

def enter (matcher : Matcher σ τ ε ν) (bindings : List ν) (guard : Option ε) (label : Dest) :
    Analysis σ τ Unit := do
  matcher.bind bindings label
  match guard with
  | none => pure ()
  | some guard => do
    let (holds, _) ← matcher.split guard
    Analysis.setCurrent holds

end Matcher

namespace Decision

variable {σ τ ε ν : Type} [StateAlgebra σ]

mutual

/-- Sends the branches of a tree. A value switched on that is known as `known` takes the cases of
equal value, and the default only if there are none. -/
def walk (matcher : Matcher σ τ ε ν) (known : Option Constant) : Decision ε ν → Analysis σ τ Unit
  | .empty => pure ()
  | .byType onNull cases otherwise => do
    let entry ← Analysis.current
    Analysis.setCurrent (clone entry)
    onNull.walk matcher known
    walkTypes matcher known entry cases
    Analysis.setCurrent entry
    otherwise.walk matcher known
  | .byValue cases otherwise => do
    let entry ← Analysis.current
    let matched ← walkValues matcher known entry cases
    if known.isSome && matched then pure ()
    else
      Analysis.setCurrent entry
      otherwise.walk matcher known
  | .leaf bindings guard label fallback => do
    let entry := clone (← Analysis.current)
    matcher.enter bindings guard label
    Analysis.record label (← Analysis.current)
    Analysis.setCurrent entry
    fallback.walk matcher known
  | .foreign node => throw (.unknownDecision node)
termination_by structural tree => tree

def walkTypes (matcher : Matcher σ τ ε ν) (known : Option Constant) (entry : σ) :
    List (Decision ε ν) → Analysis σ τ Unit
  | [] => pure ()
  | tree :: rest => do
    Analysis.setCurrent (clone entry)
    tree.walk matcher known
    walkTypes matcher known entry rest
termination_by structural trees => trees

def walkValues (matcher : Matcher σ τ ε ν) (known : Option Constant) (entry : σ) :
    List (Option Constant × Decision ε ν) → Analysis σ τ Bool
  | [] => pure false
  | (value, tree) :: rest =>
    if known.isSome && !Constant.equal? known value then walkValues matcher known entry rest
    else do
      Analysis.setCurrent (clone entry)
      tree.walk matcher known
      let _ ← walkValues matcher known entry rest
      pure true
termination_by structural cases => cases

end

end Decision

end ClauseReach
