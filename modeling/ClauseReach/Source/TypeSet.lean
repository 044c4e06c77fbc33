import ClauseReach.Source.Type

/-!
What an interface asks of a type: methods and, if it embeds a type that is no interface, to be that
type. The types that do so are its type set. A type can be assigned to an interface if its values
are in the type set.
-/

namespace ClauseReach.Source

inductive Terms where
  | all
  | only (type : TypeId)
  | none
  deriving DecidableEq, Repr

/-- The methods have different identities. -/
structure TypeSet where
  methods : List Method
  terms : Terms

namespace TypeSet

def everything : TypeSet := ⟨[], .all⟩

/-- Of methods with one identity the first counts. -/
def addMethods (methods : List Method) : List Method → List Method
  | [] => methods
  | method :: rest =>
    if methods.any (·.sameAs method) then addMethods methods rest
    else addMethods (methods ++ [method]) rest

def isEverything (set : TypeSet) : Bool := set.methods.isEmpty && set.terms = .all

def find? (set : TypeSet) (wanted : Method) : Option Method :=
  if wanted.isBlank then none else set.methods.find? (·.sameAs wanted)

def sameMethods (left right : TypeSet) : Bool :=
  left.methods.length = right.methods.length &&
    left.methods.all fun method =>
      right.methods.any fun other => method.sameAs other && method.signature = other.signature

end TypeSet

namespace TypeTable

variable (table : TypeTable)

mutual

/-- The type set of an interface. A type parameter has that of its bound, which may be written
without an interface around it. -/
def typeSetWithin : Nat → TypeId → TypeSet
  | 0, _ => .everything
  | depth + 1, id =>
    match table.underlyingDecl id with
    | some (.interface methods embedded) =>
      embedWithin depth embedded ⟨TypeSet.addMethods [] methods, .all⟩
    | some (.parameter bound) =>
      if table.isParameter bound then .everything else embedWithin depth [bound] .everything
    | _ => .everything

def embedWithin : Nat → List TypeId → TypeSet → TypeSet
  | 0, _, set => set
  | _ + 1, [], set => set
  | depth + 1, id :: rest, set =>
    if table.isInvalid id then embedWithin depth rest set
    else if table.isInterface id then
      let inner := typeSetWithin depth id
      embedWithin depth rest
        ⟨TypeSet.addMethods set.methods inner.methods, meetWithin depth set.terms inner.terms⟩
    else embedWithin depth rest ⟨set.methods, meetWithin depth set.terms (.only id)⟩

def meetWithin : Nat → Terms → Terms → Terms
  | 0, left, _ => left
  | _ + 1, .all, right => right
  | _ + 1, left, .all => left
  | depth + 1, .only left, .only right =>
    if identicalWithin depth left right then .only left else .none
  | _ + 1, _, _ => .none

/-- Whether two names of types mean the same type. Interfaces are the same if their type sets are,
and what has a name is the same as itself alone. -/
def identicalWithin : Nat → TypeId → TypeId → Bool
  | 0, left, right => left = right
  | depth + 1, left, right =>
    let left := table.resolve left
    let right := table.resolve right
    left = right ||
      match table.decls[left]?, table.decls[right]? with
      | some (.basic left), some (.basic right) => left = right
      | some (.other left), some (.other right) => left = right
      | some (.pointer left), some (.pointer right) => identicalWithin depth left right
      | some (.interface ..), some (.interface ..) =>
        let left := typeSetWithin depth left
        let right := typeSetWithin depth right
        TypeSet.sameMethods left right &&
          match left.terms, right.terms with
          | .only left, .only right => identicalWithin depth left right
          | left, right => left = right
      | _, _ => false

end

/-- Deep enough for every walk through the table and along the lists in it. -/
def breadth : Nat :=
  table.decls.toList.foldl (fun sum decl =>
    match decl with
    | .interface _ embedded => sum + embedded.length + 1
    | _ => sum + 1) table.depth

def typeSet (id : TypeId) : TypeSet := table.typeSetWithin (4 * table.breadth) id

def identical (left right : TypeId) : Bool := table.identicalWithin (4 * table.breadth) left right

/-- The method of a value that is called by the name of another. On a defined type a method that is
not visible everywhere is looked up from its own package, the first one of that name counts, and
one that works on pointers can be called on a pointer only. -/
def findMethod? (home : String) (id : TypeId) (wanted : Method) : Option Method :=
  if table.isInterface id then (table.typeSet id).find? wanted
  else
    match table.declOf id with
    | some (.defined _ methods) => attached methods false
    | some (.pointer base) =>
      if table.isInterface base then none
      else
        match table.declOf base with
        | some (.defined _ methods) => attached methods true
        | _ => none
    | _ => none
where
  attached (methods : List Method) (throughPointer : Bool) : Option Method :=
    if wanted.isBlank || !(isExported wanted.name || wanted.package = home) then none
    else (methods.find? (·.name = wanted.name)).filter (throughPointer || !·.onPointer)

/-- Whether a type, or what it points to, could not be determined; such types fit everywhere. -/
def isBroken (id : TypeId) : Bool :=
  table.isInvalid id ||
    match table.underlyingDecl id with
    | some (.pointer base) => table.isInvalid base
    | _ => false

def termsWithin : Terms → Terms → Bool
  | _, .all => true
  | .none, _ => true
  | .only left, .only right => table.identical left right
  | _, _ => false

def implements (home : String) (id wanted : TypeId) : Bool :=
  let set := table.typeSet wanted
  let own := table.typeSet id
  table.isBroken id || set.isEverything || (table.isInterface id && own.terms = .none) ||
    (set.terms ≠ .none &&
      set.methods.all (fun method =>
        (table.findMethod? home id method).any (·.signature = method.signature)) &&
      table.termsWithin (if table.isInterface id then own.terms else .only id) set.terms)

def standsFor (id wanted : TypeId) : Bool :=
  table.identical id wanted ||
    (!(table.hasName id && table.hasName wanted) &&
      table.identical (table.underlying id) (table.underlying wanted))

/-- Whether every value of the type can be assigned to a variable of interface type `wanted`. To a
type parameter only what each of its types takes can be assigned. -/
def assignableEntry (home : String) (id wanted : TypeId) : Bool :=
  table.identical id wanted ||
    if table.underlyingDecl id = some (.basic "untyped nil") then !table.isParameter wanted
    else if table.isParameter wanted then
      !table.hasName id &&
        match (table.typeSet wanted).terms with
        | .only type => table.standsFor id type
        | _ => false
    else
      (!table.isParameter id && table.standsFor id wanted) || table.implements home id wanted ||
        (table.isParameter id && !table.hasName wanted &&
          match (table.typeSet id).terms with
          | .only type => table.implements home type wanted
          | _ => false)

def assignable (home : String) (type : TypeRef) (wanted : TypeId) : Bool :=
  match type with
  | .untypedNil | .invalid => !table.isParameter wanted
  | .signature => !table.isParameter wanted && (table.typeSet wanted).isEverything
  | .entry id => table.assignableEntry home id wanted

end TypeTable

end ClauseReach.Source
