import ClauseReach.Glob.Match
import ClauseReach.Text.Quoted

/-!
Settings: whether test code is checked too, when output is colored, and which packages are left
out. They come from a file, through a decoder that changes what the file mentions; all else keeps
its default. Texts are bytes, which need not be the encoding of characters.
-/

namespace ClauseReach

open Text
open Utf8 (Bytes)

structure Settings where
  tests : Bool := false
  color : Bytes := Utf8.encode "auto"
  exclude : List Bytes := []
  deriving DecidableEq, Repr

namespace Settings

/-- Why settings could not be loaded. Once the file has been read, what it says is kept. -/
inductive LoadError where
  | missing
  | unreadable
  | badColor (settings : Settings)
  | badPattern (settings : Settings) (pattern : Bytes)

def LoadError.message (file : String) : LoadError → Option String
  | .missing | .unreadable => none
  | .badColor settings => some s!"{file}: invalid color setting {Quoted.quote settings.color}"
  | .badPattern _ pattern =>
    some s!"{file}: exclude pattern {Quoted.quote pattern}: syntax error in pattern"

def colors : List Bytes := ["auto", "always", "never"].map Utf8.encode

def isMalformed (pattern : Bytes) : Bool :=
  match Glob.run pattern [] with
  | .ok _ => false
  | .error _ => true

/-- Loads settings from what a file holds, if there is one. The color is checked before the
patterns. -/
def load {γ : Type} (decode : Settings → γ → Option Settings) (content : Option γ) :
    Except LoadError Settings := do
  let some content := content | throw .missing
  let some settings := decode {} content | throw .unreadable
  if !colors.contains settings.color then throw (.badColor settings)
  match settings.exclude.find? isMalformed with
  | some pattern => throw (.badPattern settings pattern)
  | none => return settings

/-- Whether a package is left out; a malformed pattern leaves out none. -/
def excluded (settings : Settings) (package : Bytes) : Bool :=
  settings.exclude.any fun pattern =>
    match Glob.run pattern package with
    | .ok found => found
    | .error _ => false

end Settings

end ClauseReach
