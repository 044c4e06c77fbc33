/-!
The line that reports one finding. On a terminal the position is bold and the message yellow.
-/

namespace ClauseReach.Report

def plain (position message : String) : String := s!"{position}: {message}\n"

def colored (position message : String) : String :=
  "\x1b[1m" ++ position ++ ":\x1b[22m \x1b[33m" ++ message ++ "\x1b[0m\n"

def line (color : Bool) (position message : String) : String :=
  if color then colored position message else plain position message

end ClauseReach.Report
