import ClauseReach.Source.Form

/-!
What stops an analysis: a tree that the grammar of the analysed language does not produce.
-/

namespace ClauseReach

inductive Fault where
  /-- The header of a label switch looks at the kind of a label that is not there. -/
  | absentLabel
  | gotoNowhere
  | noGuard
  | emptyGuard
  | guardForm (found : Source.Form)
  | emptyCase
  | typeInVariables
  | clauseAlone
  | nothingToLeave
  /-- A file to be measured ends in a function without a body. -/
  | openFunction
  | emptyDeclaration
  | unknownDecision (node : String)
  deriving DecidableEq, Repr

def Fault.message : Fault → String
  | .absentLabel | .gotoNowhere | .noGuard | .openFunction =>
    "runtime error: invalid memory address or nil pointer dereference"
  | .emptyGuard | .emptyCase | .emptyDeclaration =>
    "runtime error: index out of range [0] with length 0"
  | .guardForm found =>
    s!"interface conversion: ast.Expr is {found.nodeType}, not *ast.TypeAssertExpr"
  | .typeInVariables => "interface conversion: ast.Spec is *ast.TypeSpec, not *ast.ValueSpec"
  | .clauseAlone => "runtime error: index out of range [-1]"
  | .nothingToLeave => "runtime error: slice bounds out of range [:-1]"
  | .unknownDecision node => s!"unknown decision tree node: {node}"

end ClauseReach
