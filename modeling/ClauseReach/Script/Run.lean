import ClauseReach.Script.Domain
import ClauseReach.Script.Syntax
import ClauseReach.Switch

/-!
Running scripts. A script is run step by step on one pass; each step answers with the pass behind
it and the events in it, and a fault ends the run.
-/

namespace ClauseReach.Script

open StateAlgebra Domain

variable {σ : Type} [Domain σ]

/-- A script's own data are the events so far, oldest first. -/
abbrev ScriptM (σ : Type) := Analysis σ (List (Event σ))

def opening : Session (May String) (List (Event (May String))) := ⟨.start ⟨some .empty⟩, []⟩

def log (event : Event σ) : ScriptM σ Unit := Analysis.modifyOwn (· ++ [event])

def addFact (name : String) : ScriptM σ Unit := do
  Analysis.setCurrent (add (← Analysis.current) name)

def Expr.act (expr : Expr) : ScriptM σ Unit :=
  match expr.effect with
  | .pure => pure ()
  | .fact => addFact s!"expr:{expr.name}"
  | .kill => Analysis.setUnreachable

def Expr.eval (expr : Expr) : ScriptM σ Unit := do
  log (.expr expr.name)
  expr.act

/-- A condition named `true` or `false` is decided; any other holds with a fact of its own. -/
def Expr.split (expr : Expr) : ScriptM σ (σ × σ) := do
  log (.cond expr.name)
  expr.act
  let state ← Analysis.current
  if expr.name = "true" then return (state, unreachable)
  else if expr.name = "false" then return (unreachable, state)
  else return (add state s!"guard:{expr.name}", state)

def evalScrutinee : Option Expr → ScriptM σ Unit
  | some expr => expr.eval
  | none => pure ()

def bindNames (hooks : Hooks) (names : List String) (dest : Dest) : ScriptM σ Unit :=
  if hooks.binds then do
    names.forM fun name => addFact s!"bind:{name}"
    log (.bind names dest)
  else pure ()

def matcher (hooks : Hooks) : Matcher σ (List (Event σ)) Expr String :=
  ⟨bindNames hooks, Expr.split⟩

def observeEntry (hooks : Hooks) (labels : List Dest) : ScriptM σ Unit :=
  if hooks.enters then do log (.enter labels (← Analysis.current)) else pure ()

mutual

def Stmt.run (hooks : Hooks) : Stmt σ → ScriptM σ Unit
  | .fact name => addFact name
  | .leave => Analysis.setUnreachable
  | .jump dest => do
    Analysis.branch dest
    Analysis.setUnreachable
  | .branch dest => Analysis.branch dest
  | .record dest state => Analysis.record dest state
  | .resolve dest => do log (.resolve dest (← Analysis.resolve dest))
  | .set state => Analysis.setCurrent state
  | .join state => Analysis.join state
  | .eval expr => expr.eval
  | .choose condition whenTrue whenFalse => do
    let (holds, fails) ← condition.split
    Analysis.setCurrent holds
    runAll hooks whenTrue
    let kept ← Analysis.current
    Analysis.setCurrent fails
    runAll hooks whenFalse
    Analysis.join kept
  | .jumpSwitch scrutinee sections brk target =>
    JumpSwitch.run
      { scrutinee := evalScrutinee scrutinee, sections := prepare hooks sections, brk, target }
  | .treeSwitch scrutinee known tree fallback complete sections brk =>
    TreeSwitch.run (matcher hooks)
      { scrutinee := evalScrutinee scrutinee, known, tree, fallback, complete,
        sections := prepare hooks sections, brk }
termination_by structural stmt => stmt

def runAll (hooks : Hooks) : List (Stmt σ) → ScriptM σ Unit
  | [] => pure ()
  | stmt :: rest => do
    stmt.run hooks
    runAll hooks rest
termination_by structural stmts => stmts

def prepare (hooks : Hooks) :
    List (List Dest × List (Stmt σ)) → List (Section σ (List (Event σ)))
  | [] => []
  | (labels, body) :: rest =>
    { labels, body := do observeEntry hooks labels; runAll hooks body } :: prepare hooks rest
termination_by structural sections => sections

end

structure Step (σ : Type) where
  outcome : Except Fault (Pass σ)
  events : List (Event σ)

/-- The steps of a script, up to the first fault. -/
def steps (hooks : Hooks) (pass : Pass σ) : List (Stmt σ) → List (Step σ)
  | [] => []
  | stmt :: rest =>
    match stmt.run hooks ⟨pass, []⟩ with
    | .ok _ session => ⟨.ok session.pass, session.own⟩ :: steps hooks session.pass rest
    | .error fault session => [⟨.error fault, session.own⟩]

end ClauseReach.Script
