import ClauseReach.Checker.Walk
import ClauseReach.Source.Traversal

/-!
Checking functions and files. A clause is reported if its switch can be reached and the clause
cannot.
-/

namespace ClauseReach.Checker

open Source

structure Diagnostic where
  pos : Int
  message : String
  deriving DecidableEq, Repr

def Arrival.isDead (arrival : Arrival) : Bool := arrival.live && !arrival.state.isReachable

def Arrival.diagnostic (arrival : Arrival) : Diagnostic :=
  ⟨arrival.clause.pos, "case clause is unreachable"⟩

/-- The outcome for one function: the state at its end, the clauses as the walk met them, and the
destinations of branches that never arrived, such as those of a `goto` that goes back. -/
structure Result where
  exit : Assigned
  arrivals : List Arrival
  unresolved : List Dest

def Result.diagnostics (result : Result) : List Diagnostic :=
  (result.arrivals.filter Arrival.isDead).map Arrival.diagnostic

/-- Checks the body of one function. Function literals in it are not entered. -/
def checkFunction (info : Info) (body : List Stmt) : Except Fault Result :=
  match walkAll info body ⟨Pass.start Assigned.entry, Walker.start⟩ with
  | .ok _ session =>
    .ok ⟨session.pass.state, session.own.arrivals, session.pass.pending.dests⟩
  | .error fault _ => .error fault

/-- The check of a function as its callers see it. A decision tree with a node of an unknown kind is an error of the
analysis, which is returned; any other fault stops the callers as well. -/
def checkBody (info : Info) (body : Option (List Stmt)) : Except Fault (Except Fault Result) :=
  match checkFunction info (body.getD []) with
  | .ok result => .ok (.ok result)
  | .error (.unknownDecision node) => .ok (.error (.unknownDecision node))
  | .error fault => .error fault

structure Progress where
  diagnostics : List Diagnostic := []
  error : Option Fault := none

abbrev Driver := StateT Progress (Except Fault)

namespace Driver

def add (diagnostics : List Diagnostic) : Driver Unit :=
  modify fun progress => { progress with diagnostics := progress.diagnostics ++ diagnostics }

def fail (fault : Fault) : Driver Unit := modify fun progress => { progress with error := some fault }

/-- Checks the functions that an inspection comes to. After an error nothing more is gone into. -/
def inspectNode (info : Info) (visited : Option Node) : Driver Bool := do
  if (← get).error.isSome then return false
  match visited with
  | some (.function body) =>
    match ← checkBody info body with
    | .ok result => add result.diagnostics
    | .error fault => fail fault
    return true
  | _ => return true

def reportNode (info : Info) (visited : Node) : Driver Unit := do
  if (← get).error.isSome then return
  let body := match visited with
    | .function body => body
    | .other => none
  match ← checkBody info body with
  | .ok result => result.diagnostics.forM fun diagnostic => add [diagnostic]
  | .error fault => fail fault

end Driver

/-- The diagnostics of the files by position, those of one position in the order in which they were found; and the
error, if one was returned. -/
def checkFiles (info : Info) (files : List File) : Except Fault (List Diagnostic × Option Fault) := do
  let (_, progress) ← (files.forM fun file => file.tree.inspect (Driver.inspectNode info)).run {}
  return (progress.diagnostics.mergeSort fun left right => decide (left.pos ≤ right.pos), progress.error)

def analyze (info : Info) (files : List File) : Except Fault (List Diagnostic × Option Fault) := do
  let (_, progress) ← (Tree.preorder Node.isFunction (Driver.reportNode info) (files.map File.tree)).run {}
  return (progress.diagnostics, progress.error)

/-- The list of all nodes is made once for many analyses, and every file is measured for it. -/
def measureAndAnalyze (info : Info) (files : List File) : Except Fault (List Diagnostic × Option Fault) := do
  files.forM File.measure
  analyze info files

end ClauseReach.Checker
