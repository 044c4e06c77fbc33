/-!
Why a text is no YAML document.
-/

namespace ClauseReach.Yaml

inductive Error where
  | controlCharacter
  | strayCharacter
  | strayTab
  | lonelyKey
  | misplacedKey
  | misplacedValue
  | misplacedEntry
  | openQuote
  | documentInQuote
  | badEscape
  | badBlockHeader
  | badName
  | badTag
  | badDirective
  | tooDeep
  | unexpectedToken
  | unknownHandle
  | unknownAnchor
  /-- The structure is larger than its text allows. -/
  | exhausted
  deriving DecidableEq, Repr

end ClauseReach.Yaml
