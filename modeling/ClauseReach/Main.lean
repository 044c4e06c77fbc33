import ClauseReach.Findings
import ClauseReach.SettingsFile

/-!
The command line: findings come on standard input, one to a line, and those that the settings let
through are reported. The exit status tells whether there were any.
-/

namespace ClauseReach.CommandLine

def readSettings (file : String) : IO (Except String Settings) := do
  let content ← try
    let content ← IO.FS.readFile file
    pure (some content)
  catch _ => pure none
  return (Settings.load Settings.ofText? content).mapError fun error =>
    (error.message file).getD s!"{file}: cannot be read"

partial def readFindings (input : IO.FS.Stream) (found : Array Finding) : IO (Array Finding) := do
  let line ← input.getLine
  if line.isEmpty then return found
  match Finding.ofLine? (String.ofList (line.toList.filter (· ≠ '\n'))) with
  | some finding => readFindings input (found.push finding)
  | none => readFindings input found

def run (args : List String) : IO UInt32 := do
  let settings ← match args with
    | [] => pure (.ok {})
    | ["-config", file] => readSettings file
    | _ => pure (.error "usage: clausereach [-config file]")
  match settings with
  | .error message =>
    IO.eprintln s!"Loading configuration failed: {message}"
    return 1
  | .ok settings =>
    let output ← IO.getStdout
    let findings ← readFindings (← IO.getStdin) #[]
    let shown := Finding.shown settings findings.toList
    output.putStr (Finding.report (settings.usesColor (← output.isTty)) shown)
    return if shown.isEmpty then 0 else 1

end ClauseReach.CommandLine

def main (args : List String) : IO UInt32 := ClauseReach.CommandLine.run args
