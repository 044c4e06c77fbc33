import ClauseReach.Decision

/-!
Switches. Dispatch sends branches to section labels, each section resolves its labels and runs its
body, and the ends of the sections, the dispatch that chose none and the breaks meet behind.
-/

namespace ClauseReach

open StateAlgebra

structure Section (σ τ : Type) where
  labels : List Dest
  body : Analysis σ τ Unit

/-- A switch that dispatches on labels: to `target` if it is known, else to any of them. -/
structure JumpSwitch (σ τ : Type) where
  scrutinee : Analysis σ τ Unit
  sections : List (Section σ τ)
  brk : Dest
  target : Dest

/-- A switch that dispatches by a decision tree. A complete one never passes by all sections. -/
structure TreeSwitch (σ τ ε ν : Type) where
  scrutinee : Analysis σ τ Unit
  known : Option Constant
  tree : Decision ε ν
  fallback : Dest
  complete : Bool
  sections : List (Section σ τ)
  brk : Dest

namespace Switch

variable {σ τ ε ν : Type} [StateAlgebra σ]

/-- Runs the sections, each entered by its branches alone, and merges their ends into `exits`. -/
def runSections (exits : σ) : List (Section σ τ) → Analysis σ τ σ
  | [] => pure exits
  | entered :: rest => do
    Analysis.setUnreachable
    Analysis.resolveAll entered.labels
    entered.body
    runSections (merge exits (← Analysis.current)) rest

def finish (passing : σ) (sections : List (Section σ τ)) (brk : Dest) : Analysis σ τ Unit := do
  let exits ← runSections unreachable sections
  Analysis.setCurrent (merge passing exits)
  let _ ← Analysis.resolve brk

/-- Branches to every label; the result tells whether a default label is among them. Labels behind
a default label are not looked at. -/
def branchAll (seen : Bool) : List Dest → Analysis σ τ Bool
  | [] => pure seen
  | dest :: rest => do
    Analysis.branch dest
    if seen then branchAll true rest
    else
      match dest with
      | none => throw .absentLabel
      | some label => branchAll (label.kind = .default) rest

end Switch

variable {σ τ ε ν : Type} [StateAlgebra σ]

def JumpSwitch.run (switch : JumpSwitch σ τ) : Analysis σ τ Unit := do
  switch.scrutinee
  let passing := clone (← Analysis.current)
  match switch.target with
  | none => do
    let hasDefault ← Switch.branchAll false (switch.sections.flatMap (·.labels))
    Analysis.setUnreachable
    Switch.finish (if hasDefault then unreachable else passing) switch.sections switch.brk
  | some target =>
    if some target = switch.brk then do
      Analysis.setUnreachable
      Switch.finish passing switch.sections switch.brk
    else do
      Analysis.branch (some target)
      Analysis.setUnreachable
      Switch.finish unreachable switch.sections switch.brk

def TreeSwitch.run (matcher : Matcher σ τ ε ν) (switch : TreeSwitch σ τ ε ν) :
    Analysis σ τ Unit := do
  switch.scrutinee
  let entry ← Analysis.current
  switch.tree.walk matcher switch.known
  if switch.fallback.isSome then Analysis.record switch.fallback (← Analysis.current)
  Switch.finish (if switch.complete then unreachable else clone entry) switch.sections switch.brk

end ClauseReach
