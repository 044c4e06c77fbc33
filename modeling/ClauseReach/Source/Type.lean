import ClauseReach.Text.Upper

/-!
Types, as far as a type switch asks of them. Types stand in a table and name each other by index; a
walk along such names that is longer than the table goes in circles and stops.
-/

namespace ClauseReach.Source

abbrev TypeId := Nat

structure Method where
  name : String
  signature : String
  package : String
  onPointer : Bool
  deriving DecidableEq, Repr

inductive TypeDecl where
  | basic (name : String)
  | interface (methods : List Method) (embedded : List TypeId)
  | defined (base : TypeId) (methods : List Method)
  | pointer (base : TypeId)
  | alias (meaning : TypeId)
  | parameter (bound : TypeId)
  | other (name : String)
  deriving DecidableEq, Repr

inductive TypeRef where
  | untypedNil
  | invalid
  | signature
  | entry (id : TypeId)
  deriving DecidableEq, Repr

def isExported (name : String) : Bool :=
  match name.toList with
  | [] => false
  | first :: _ => Text.isUpper first

/-- Whether two methods have one identity: visible names are common to all packages. -/
def Method.sameAs (left right : Method) : Bool :=
  left.name = right.name && (isExported left.name || left.package = right.package)

def Method.isBlank (method : Method) : Bool := method.name = "_"

structure TypeTable where
  decls : Array TypeDecl

namespace TypeTable

variable (table : TypeTable)

def depth : Nat := 2 * table.decls.size + 2

def resolveWithin : Nat → TypeId → TypeId
  | 0, id => id
  | depth + 1, id =>
    match table.decls[id]? with
    | some (.alias meaning) => resolveWithin depth meaning
    | _ => id

def resolve (id : TypeId) : TypeId := table.resolveWithin table.depth id

def declOf (id : TypeId) : Option TypeDecl := table.decls[table.resolve id]?

/-- What a type is made of: the first type below its names that is neither an alias nor a defined
type. -/
def underlyingWithin : Nat → TypeId → TypeId
  | 0, id => id
  | depth + 1, id =>
    match table.decls[id]? with
    | some (.alias next) | some (.defined next _) => underlyingWithin depth next
    | _ => id

def underlying (id : TypeId) : TypeId := table.underlyingWithin table.depth id

def underlyingDecl (id : TypeId) : Option TypeDecl := table.decls[table.underlying id]?

def isParameter (id : TypeId) : Bool :=
  match table.declOf id with
  | some (.parameter _) => true
  | _ => false

def hasName (id : TypeId) : Bool :=
  match table.declOf id with
  | some (.basic _) | some (.defined ..) | some (.parameter _) => true
  | _ => false

def isInvalid (id : TypeId) : Bool := table.underlyingDecl id = some (.basic "invalid type")

/-- A type parameter counts as an interface. -/
def isInterface (id : TypeId) : Bool :=
  match table.underlyingDecl id with
  | some (.interface ..) | some (.parameter _) => true
  | _ => false

end TypeTable

end ClauseReach.Source
