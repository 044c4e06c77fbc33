import ClauseReach.Checker.Assigned
import ClauseReach.Source.Syntax
import ClauseReach.Switch

/-!
Enclosing statements. While a function is walked, a stack of frames tells what `break`, `continue`
and `fallthrough` refer to, innermost first.
-/

namespace ClauseReach.Checker

open Source

/-- An enclosing loop, select or switch. A loop has a label for `continue`; a switch has the labels
of its sections, the section being walked, and whether its head can be reached. A statement without
a label of its own has the empty name. -/
structure Frame where
  label : String
  brk : Label
  cont : Option Label := none
  sections : List (List Label) := []
  current : Nat := 0
  live : Bool := false

/-- A clause as the walk came to it: whether its switch could be reached, and the state in which
the clause is entered. -/
structure Arrival where
  clause : CaseClause
  live : Bool
  state : Assigned

/-- The checker's own data: the enclosing statements, the name of a label waiting for the statement
it is attached to, the next unused serial number, and the clauses met so far. -/
structure Walker where
  frames : List Frame
  attached : String
  serial : Nat
  arrivals : List Arrival

def Walker.start : Walker := ⟨[], "", 0, []⟩

abbrev CheckM := Analysis Assigned Walker

def frames : CheckM (List Frame) := return (← Analysis.getOwn).frames

def push (frame : Frame) : CheckM Unit :=
  Analysis.modifyOwn fun walker => { walker with frames := frame :: walker.frames }

def pop : CheckM Unit := do
  match ← frames with
  | [] => throw .nothingToLeave
  | _ :: outer => Analysis.modifyOwn fun walker => { walker with frames := outer }

def within (frame : Frame) (body : CheckM Unit) : CheckM Unit := do
  push frame
  body
  pop

def attach (label : String) : CheckM Unit :=
  Analysis.modifyOwn fun walker => { walker with attached := label }

def detachLabel : CheckM String := do
  let label := (← Analysis.getOwn).attached
  attach ""
  return label

/-- Reserves serial numbers; the result is the first of them. -/
def reserve (count : Nat) : CheckM Nat := do
  let first := (← Analysis.getOwn).serial
  Analysis.modifyOwn fun walker => { walker with serial := walker.serial + count }
  return first

def namedLabel (name : String) : Label := ⟨0, .user, name⟩

def breakFrame? (label : Option String) (frames : List Frame) : Option Frame :=
  match label with
  | some name => frames.find? (·.label = name)
  | none => frames.head?

/-- The statement that a continue refers to; a labeled one need not be a loop. -/
def continueFrame? (label : Option String) (frames : List Frame) : Option Frame :=
  match label with
  | some name => frames.find? (·.label = name)
  | none => frames.find? (·.cont.isSome)

def nextSection? (frames : List Frame) : Option (List Label) :=
  frames.head?.bind fun frame => frame.sections[frame.current + 1]?

/-- The jump's branch goes to the statement it refers to, if there is one, and control does not
pass the jump. -/
def jump (target : Jump) : CheckM Unit := do
  match target with
  | .break label =>
    match breakFrame? label (← frames) with
    | some frame => Analysis.branch (some frame.brk)
    | none => pure ()
  | .continue label =>
    match continueFrame? label (← frames) with
    | some frame => Analysis.branch frame.cont
    | none => pure ()
  | .goto (some name) => Analysis.branch (some (namedLabel name))
  | .goto none => throw .gotoNowhere
  | .fallthrough =>
    match nextSection? (← frames) with
    | some (label :: _) => Analysis.branch (some label)
    | some [] => throw .emptyCase
    | none => pure ()
  | .other => pure ()
  Analysis.setUnreachable

def arrive (index : Nat) (clause : CaseClause) : CheckM Unit := do
  let state ← Analysis.current
  match ← frames with
  | [] => throw .clauseAlone
  | frame :: outer =>
    Analysis.modifyOwn fun walker => {
      walker with
      frames := { frame with current := index } :: outer
      arrivals := walker.arrivals ++ [⟨clause, frame.live, state⟩] }

section Enclosed

variable {session : Session Assigned Walker} {frame : Frame} {outer : List Frame}

theorem pop_eq (inside : session.own.frames = frame :: outer) :
    pop session = .ok () { session with own := { session.own with frames := outer } } := by
  have looked : frames session = .ok (frame :: outer) session := inside ▸ rfl
  exact Analysis.bind_ok looked

theorem arrive_eq (index : Nat) (clause : CaseClause) (inside : session.own.frames = frame :: outer) :
    arrive index clause session =
      .ok () { session with
        own := { session.own with
          frames := { frame with current := index } :: outer
          arrivals := session.own.arrivals ++ [⟨clause, frame.live, session.pass.state⟩] } } := by
  have looked : frames session = .ok (frame :: outer) session := inside ▸ rfl
  have state : Analysis.current session = .ok session.pass.state session := rfl
  exact (Analysis.bind_ok state).trans (Analysis.bind_ok looked)

end Enclosed

end ClauseReach.Checker
