import ClauseReach.Checker.Dispatch
import ClauseReach.Checker.Scope

/-!
The walk over the statements of a function. Each kind of statement is an operation on the walks of
its parts; the walk itself follows the syntax tree and visits every statement once.
-/

namespace ClauseReach.Checker

open Source StateAlgebra

def assign (info : Info) (target : Expr) : CheckM Unit :=
  match info.assigned? target with
  | some object => do Analysis.setCurrent ((← Analysis.current).assign [some object])
  | none => pure ()

def assignAll (info : Info) : List Expr → CheckM Unit
  | [] => pure ()
  | target :: rest => do
    assign info target
    assignAll info rest

def declareAll (info : Info) : List Spec → CheckM Unit
  | [] => pure ()
  | .type :: _ => throw .typeInVariables
  | .values names values :: rest => do
    if values.isEmpty then pure () else assignAll info names
    declareAll info rest

def evaluate (info : Info) (expr : Expr) : CheckM Unit :=
  if info.neverReturns expr then Analysis.setUnreachable else pure ()

def choose (condition : Expr) (whenTrue whenFalse : CheckM Unit) : CheckM Unit := do
  let (holds, fails) := condition.split (← Analysis.current)
  Analysis.setCurrent holds
  whenTrue
  let kept ← Analysis.current
  Analysis.setCurrent fails
  whenFalse
  Analysis.join kept

def loopFrame (label : String) : CheckM Frame := do
  let serial ← reserve 2
  return { label, brk := ⟨serial, .break, label⟩, cont := some ⟨serial + 1, .continue, label⟩ }

/-- One round of a loop: the result is the state that flows back to the head. -/
def backEdge (frame : Frame) (body post : CheckM Unit) : CheckM Assigned := do
  within frame body
  let _ ← Analysis.resolve frame.cont
  post
  Analysis.current

/-- Assignments only add facts, so no later round reaches the head, or leaves the loop there, with
fewer of them than the first: one round is enough. A loop without a condition is left by jumps
only. -/
def loop (init : CheckM Unit) (condition : Option Expr) (body post : CheckM Unit) :
    CheckM Unit := do
  let label ← detachLabel
  init
  let frame ← loopFrame label
  let entry ← Analysis.current
  let (holds, fails) :=
    match condition with
    | some condition => condition.split entry
    | none => (entry, unreachable)
  Analysis.setCurrent holds
  let _ ← backEdge frame body post
  Analysis.setCurrent fails
  let _ ← Analysis.resolve (some frame.brk)

def range (targets body : CheckM Unit) : CheckM Unit := do
  let label ← detachLabel
  let entry ← Analysis.current
  let frame ← loopFrame label
  targets
  let _ ← backEdge frame body (pure ())
  Analysis.setCurrent entry
  let _ ← Analysis.resolve (some frame.brk)

def alternatives (entry exits : Assigned) : List (CheckM Unit) → CheckM Assigned
  | [] => pure exits
  | clause :: rest => do
    Analysis.setCurrent entry
    clause
    alternatives entry (merge exits (← Analysis.current)) rest

def select (clauses : List (CheckM Unit)) : CheckM Unit := do
  let label ← detachLabel
  let serial ← reserve 1
  let frame : Frame := { label, brk := ⟨serial, .break, label⟩ }
  let entry ← Analysis.current
  push frame
  let exits ← alternatives entry unreachable clauses
  pop
  Analysis.setCurrent exits
  let _ ← Analysis.resolve (some frame.brk)

def sections (entrances : List Entrance) (bodies : List (CheckM Unit)) :
    List (Section Assigned Walker) :=
  (entrances.zip bodies).zipIdx.map fun ((entrance, body), index) =>
    { labels := entrance.labels.map some
      body := do
        arrive index entrance.clause
        body }

def switchFrame (label : String) (brk : Label) (entrances : List Entrance) : CheckM Frame := do
  let live := (← Analysis.current).isReachable
  return { label, brk, sections := entrances.map (·.labels), live }

def switch (init : CheckM Unit) (tag : Option Expr) (clauses : List CaseClause)
    (bodies : List (CheckM Unit)) : CheckM Unit := do
  let label ← detachLabel
  init
  let serial ← reserve (SwitchPlan.labelCount clauses)
  let plan := SwitchPlan.make serial label tag clauses
  let frame ← switchFrame label plan.brk plan.entrances
  within frame <| JumpSwitch.run {
    scrutinee := pure ()
    sections := sections plan.entrances bodies
    brk := some plan.brk
    target := plan.target }

def matcher : Matcher Assigned Walker Expr ObjectId where
  bind objects _ := do Analysis.setCurrent ((← Analysis.current).assign (objects.map some))
  split condition := return condition.split (← Analysis.current)

def typeSwitch (info : Info) (init : CheckM Unit) (guard : Stmt) (clauses : List CaseClause)
    (bodies : List (CheckM Unit)) : CheckM Unit := do
  let label ← detachLabel
  init
  let serial ← reserve (1 + clauses.length)
  match TypeSwitchPlan.make info serial label guard clauses with
  | .error fault => throw fault
  | .ok plan =>
    let frame ← switchFrame label plan.brk plan.entrances
    within frame <| TreeSwitch.run matcher {
      scrutinee := pure ()
      known := none
      tree := plan.tree
      fallback := plan.fallback
      complete := plan.complete
      sections := sections plan.entrances bodies
      brk := some plan.brk }

/-- Whether a label in front of the statement names it for `break` and `continue`. -/
def takesLabel : Stmt → Bool
  | .loop .. | .range .. | .select .. | .switch .. | .typeSwitch .. => true
  | _ => false

def labeled (label : String) (named : Bool) (stmt : CheckM Unit) : CheckM Unit := do
  let _ ← Analysis.resolve (some (namedLabel label))
  if named then attach label
  stmt

mutual

def walk (info : Info) : Stmt → CheckM Unit
  | .empty => pure ()
  | .block body => walkAll info body
  | .expr expr => evaluate info expr
  | .assign targets _ => assignAll info targets
  | .eval _ => pure ()
  | .declare .variables specs => declareAll info specs
  | .declare .other _ => pure ()
  | .return _ => Analysis.setUnreachable
  | .jump target => jump target
  | .labeled label stmt => labeled label (takesLabel stmt) (walk info stmt)
  | .cond init condition body otherwise => do
    walk info init
    choose condition (walkAll info body) (walk info otherwise)
  | .loop init condition post body =>
    loop (walk info init) condition (walkAll info body) (walk info post)
  | .range assigns key value _ body =>
    range (if assigns then assignAll info (key.toList ++ value.toList) else pure ())
      (walkAll info body)
  | .select clauses => select (walkComms info clauses)
  | .switch init tag clauses => switch (walk info init) tag clauses (walkCases info clauses)
  | .typeSwitch init guard clauses =>
    typeSwitch info (walk info init) guard clauses (walkCases info clauses)
termination_by structural stmt => stmt

def walkAll (info : Info) : List Stmt → CheckM Unit
  | [] => pure ()
  | stmt :: rest => do
    walk info stmt
    walkAll info rest
termination_by structural stmts => stmts

def walkCases (info : Info) : List CaseClause → List (CheckM Unit)
  | [] => []
  | ⟨_, _, _, body⟩ :: rest => walkAll info body :: walkCases info rest
termination_by structural clauses => clauses

def walkComms (info : Info) : List CommClause → List (CheckM Unit)
  | [] => []
  | ⟨comm, body⟩ :: rest =>
    (do
      walk info comm
      walkAll info body) :: walkComms info rest
termination_by structural clauses => clauses

end

end ClauseReach.Checker
