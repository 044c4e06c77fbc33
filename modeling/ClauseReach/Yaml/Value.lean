import ClauseReach.Text.Base64
import ClauseReach.Yaml.Value.Instant
import ClauseReach.Yaml.Value.Number

/-!
What scalars stand for, by their tags. A tag of the language takes only texts of its kind; any other
tag takes any text.
-/

namespace ClauseReach.Yaml

/-- A number or a date counts by its text; it is told from a text only where a tag asks for it. -/
inductive Value where
  | null
  | bool (value : Bool)
  | number
  | text (bytes : Text.Utf8.Bytes)
  deriving DecidableEq, Repr

namespace Value

def nullWords : List String := ["", "~", "null", "Null", "NULL"]

def boolWord? (text : String) : Option Bool :=
  if ["true", "True", "TRUE"].contains text then some true
  else if ["false", "False", "FALSE"].contains text then some false
  else none

def ofPlain (text : String) : Value :=
  if nullWords.contains text then .null
  else
    match boolWord? text with
    | some value => .bool value
    | none => .text (Text.Utf8.encode text)

/-- The value of a scalar, unless its text does not suit its tag. -/
def ofScalar? (tag : Option String) (plain : Bool) (text : String) : Option Value :=
  match tag with
  | none => some (if plain then ofPlain text else .text (Text.Utf8.encode text))
  | some "!!null" => if nullWords.contains text then some .null else none
  | some "!!bool" => (boolWord? text).map .bool
  | some "!!int" => if Number.isWhole text then some .number else none
  | some "!!float" => if Number.isNumber text then some .number else none
  | some "!!timestamp" => if Instant.isInstant text then some .number else none
  | some "!!binary" => (Text.Base64.decode? text).map .text
  | some _ => some (.text (Text.Utf8.encode text))

/-- The older words for truth values, which are texts. -/
def olderWord? (bytes : Text.Utf8.Bytes) : Option Bool :=
  if ["y", "Y", "yes", "Yes", "YES", "on", "On", "ON"].any (Text.Utf8.encode · = bytes) then some true
  else if ["n", "N", "no", "No", "NO", "off", "Off", "OFF"].any (Text.Utf8.encode · = bytes) then some false
  else none

end Value

end ClauseReach.Yaml
