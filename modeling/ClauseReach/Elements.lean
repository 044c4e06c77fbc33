/-!
Lists read as sets of their elements. The inclusion test first compares lengths, so on lists with
repetitions it is finer than inclusion of the sets. Lists without repetitions come from maps: the
keys of a map, in whatever order they are gone through.
-/

namespace ClauseReach.Elements

variable {α : Type} [DecidableEq α]

def included (smaller bigger : List α) : Bool :=
  if bigger.length < smaller.length then false
  else smaller.all fun element => bigger.contains element

def agree (left right : List α) : Bool :=
  left.length == right.length && included left right

def addKey (keys : List α) (element : α) : List α :=
  if keys.contains element then keys else element :: keys

/-- The keys of a map that was filled with the elements one after the other. -/
def keysOf (elements : List α) : List α := elements.foldl addKey []

end ClauseReach.Elements
