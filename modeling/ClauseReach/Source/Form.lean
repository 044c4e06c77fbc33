/-!
The syntactic forms of expressions, by which a fault names what it found.
-/

namespace ClauseReach.Source

inductive Form where
  | ident
  | literal
  | paren
  | unary
  | binary
  | call
  | selector
  | index
  | star
  | assertion
  | composite
  | function
  deriving DecidableEq, Repr

def Form.nodeType : Form → String
  | .ident => "*ast.Ident"
  | .literal => "*ast.BasicLit"
  | .paren => "*ast.ParenExpr"
  | .unary => "*ast.UnaryExpr"
  | .binary => "*ast.BinaryExpr"
  | .call => "*ast.CallExpr"
  | .selector => "*ast.SelectorExpr"
  | .index => "*ast.IndexExpr"
  | .star => "*ast.StarExpr"
  | .assertion => "*ast.TypeAssertExpr"
  | .composite => "*ast.CompositeLit"
  | .function => "*ast.FuncLit"

end ClauseReach.Source
