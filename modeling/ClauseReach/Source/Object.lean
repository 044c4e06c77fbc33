import ClauseReach.Source.TypeSet

/-!
Objects: what an identifier stands for. Objects are known by their place in a table.
-/

namespace ClauseReach.Source

abbrev ObjectId := Nat

inductive ObjectKind where
  | var
  | const
  | type
  | func
  | builtin
  | nil
  deriving DecidableEq, Repr

structure Object where
  kind : ObjectKind
  name : String
  type : Option TypeId
  package : String
  isMethod : Bool
  deriving DecidableEq, Repr

namespace Object

/-- The type of an object. The predeclared nil and functions need no entry in the type table, and
a builtin function has no valid type. -/
def typeRef (object : Object) : Option TypeRef :=
  match object.kind with
  | .nil => some .untypedNil
  | .builtin => some .invalid
  | .func => some .signature
  | .var | .const | .type => object.type.map .entry

def fullName? (object : Object) : Option String :=
  if object.isMethod then none
  else if object.package = "" then some object.name
  else some s!"{object.package}.{object.name}"

def nonReturning : List String :=
  ["os.Exit", "runtime.Goexit", "log.Fatal", "log.Fatalf", "log.Fatalln", "log.Panic",
    "log.Panicf", "log.Panicln"]

def neverReturns (object : Object) : Bool :=
  match object.kind with
  | .builtin => object.name = "panic"
  | .func => object.fullName?.any nonReturning.contains
  | _ => false

end Object

/-- The package under analysis, to which all defined types belong, and the tables that syntax trees refer to. -/
structure Info where
  package : String
  types : TypeTable
  objects : Array Object

end ClauseReach.Source
