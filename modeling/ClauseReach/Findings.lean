import ClauseReach.Report
import ClauseReach.Settings

/-!
Findings of many packages: which of them are shown. Test variants of a package repeat its files, so
a position is shown once.
-/

namespace ClauseReach

structure Finding where
  package : String
  position : String
  message : String
  deriving DecidableEq, Repr

namespace Finding

/-- A finding is written as package, position and message with tabs between them. -/
def ofLine? (line : String) : Option Finding :=
  match line.splitOn "\t" with
  | [package, position, message] => some ⟨package, position, message⟩
  | _ => none

def firsts (seen : List String) : List Finding → List Finding
  | [] => []
  | finding :: rest =>
    if seen.contains finding.position then firsts seen rest
    else finding :: firsts (finding.position :: seen) rest

def shown (settings : Settings) (findings : List Finding) : List Finding :=
  firsts [] (findings.filter fun finding => !settings.excluded (Text.Utf8.encode finding.package))

def report (color : Bool) (findings : List Finding) : String :=
  String.join (findings.map fun finding => Report.line color finding.position finding.message)

end Finding

/-- Whether output is colored; left to itself, on a terminal only. -/
def Settings.usesColor (settings : Settings) (terminal : Bool) : Bool :=
  if settings.color = Text.Utf8.encode "always" then true
  else if settings.color = Text.Utf8.encode "never" then false
  else terminal

end ClauseReach
