/-!
The tokens of a YAML text. Indentation appears as tokens too: the start and the end of a block.
-/

namespace ClauseReach.Yaml

inductive Token where
  | streamStart
  | streamEnd
  | version (major minor : Nat)
  | handle (name meaning : String)
  | documentStart
  | documentEnd
  | blockSequence
  | blockMapping
  | blockEnd
  | bracketOpen
  | bracketClose
  | braceOpen
  | braceClose
  | dash
  | comma
  | key
  | value
  | reference (name : String)
  | anchor (name : String)
  | tag (handle suffix : String)
  | scalar (plain : Bool) (text : String)
  deriving DecidableEq, Repr

end ClauseReach.Yaml
