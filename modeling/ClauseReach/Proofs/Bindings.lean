import ClauseReach.Proofs.FunctionWalk

/-!
The variables of type switches. A clause with cases is entered by one of them, and its leaf assigns the variable
of the clause; the default clause is entered as control comes to the head, and nothing is assigned there. So the
paths into a clause of a type switch are those to its head, with what the clause binds.
-/

namespace ClauseReach

namespace Source.Traversal

mutual

/-- The clauses of the switches in a statement, in source order; those of type switches are told, the others are
only counted. -/
def typeClausesOfStmt : Stmt → List (Option CaseClause)
  | .block body => typeClausesOfStmts body
  | .labeled _ stmt => typeClausesOfStmt stmt
  | .cond _ _ body otherwise => typeClausesOfStmts body ++ typeClausesOfStmt otherwise
  | .loop _ _ _ body => typeClausesOfStmts body
  | .range _ _ _ _ body => typeClausesOfStmts body
  | .select clauses => typeClausesOfComms clauses
  | .switch _ _ clauses => typeClausesOfCases false clauses
  | .typeSwitch _ _ clauses => typeClausesOfCases true clauses
  | _ => []
termination_by structural stmt => stmt

def typeClausesOfStmts : List Stmt → List (Option CaseClause)
  | [] => []
  | stmt :: rest => typeClausesOfStmt stmt ++ typeClausesOfStmts rest
termination_by structural stmts => stmts

def typeClausesOfCases (typed : Bool) : List CaseClause → List (Option CaseClause)
  | [] => []
  | ⟨pos, cases, binding, body⟩ :: rest =>
    (if typed then some ⟨pos, cases, binding, body⟩ else none) ::
      (typeClausesOfStmts body ++ typeClausesOfCases typed rest)
termination_by structural clauses => clauses

def typeClausesOfComms : List CommClause → List (Option CaseClause)
  | [] => []
  | ⟨_, body⟩ :: rest => typeClausesOfStmts body ++ typeClausesOfComms rest
termination_by structural clauses => clauses

end

/-- A mark for each clause. -/
abbrev Marks : List (Option CaseClause) → List CaseClause → Prop :=
  List.Forall₂ fun mark clause => mark = none ∨ mark = some clause

theorem Marks.clause {marks : List (Option CaseClause)} {clauses : List CaseClause} (marked : Marks marks clauses)
    {index : Nat} {clause : CaseClause} (found : marks[index]? = some (some clause)) :
    clauses[index]? = some clause := by
  induction marked generalizing index with
  | nil => cases found
  | @cons mark other _ _ agrees _ ih =>
    cases index with
    | zero =>
      obtain rfl : mark = some clause := Option.some.inj found
      exact congrArg some (Option.some.inj (agrees.resolve_left nofun)).symm
    | succ index => exact ih found

mutual

theorem marks_stmt : ∀ stmt : Stmt, Marks (typeClausesOfStmt stmt) (clausesOfStmt stmt)
  | .block body => marks_stmts body
  | .labeled _ stmt => marks_stmt stmt
  | .cond _ _ body otherwise => List.rel_append (marks_stmts body) (marks_stmt otherwise)
  | .loop _ _ _ body => marks_stmts body
  | .range _ _ _ _ body => marks_stmts body
  | .select clauses => marks_comms clauses
  | .switch _ _ clauses => marks_cases false clauses
  | .typeSwitch _ _ clauses => marks_cases true clauses
  | .empty | .expr _ | .assign _ _ | .eval _ | .declare _ _ | .return _ | .jump _ => .nil
termination_by structural stmt => stmt

theorem marks_stmts : ∀ stmts : List Stmt, Marks (typeClausesOfStmts stmts) (clausesOfStmts stmts)
  | [] => .nil
  | stmt :: rest => List.rel_append (marks_stmt stmt) (marks_stmts rest)
termination_by structural stmts => stmts

theorem marks_cases (typed : Bool) : ∀ clauses : List CaseClause,
    Marks (typeClausesOfCases typed clauses) (clausesOfCases clauses)
  | [] => .nil
  | ⟨_, _, _, body⟩ :: rest => by
    refine .cons ?_ (List.rel_append (marks_stmts body) (marks_cases typed rest))
    cases typed
    · exact .inl rfl
    · exact .inr rfl
termination_by structural clauses => clauses

theorem marks_comms : ∀ clauses : List CommClause, Marks (typeClausesOfComms clauses) (clausesOfComms clauses)
  | [] => .nil
  | ⟨_, body⟩ :: rest => List.rel_append (marks_stmts body) (marks_comms rest)
termination_by structural clauses => clauses

end

end Source.Traversal

namespace Paths

open Source Checker

/-- Seen from these clauses, numbered from `first`, the clause of this number is one of a type switch, or it is
none of them. No clause of a type switch ends with `fallthrough`. -/
structure Marked (number : Nat) (clause : CaseClause) (first : Nat) (marks : List (Option CaseClause)) : Prop where
  here : ∀ index {mark}, marks[index]? = some mark → first + index = number → mark = some clause
  ends : ∀ other, some other ∈ marks → .fallthrough ∉ exitJumpsAll other.body

variable {number first : Nat} {clause : CaseClause} {objects : Store}

namespace Marked

variable {marks more : List (Option CaseClause)}

theorem left (marked : Marked number clause first (marks ++ more)) : Marked number clause first marks where
  here index mark found same := by
    refine marked.here index ?_ same
    rw [List.getElem?_append_left (List.getElem?_eq_some_iff.mp found).1]
    exact found
  ends other member := marked.ends other (List.mem_append_left _ member)

theorem right (marked : Marked number clause first (marks ++ more)) {count : Nat} (length : marks.length = count) :
    Marked number clause (first + count) more where
  here index mark found same := by
    refine marked.here (count + index) ?_ (by omega)
    rw [List.getElem?_append_right (by omega), length, Nat.add_sub_cancel_left]
    exact found
  ends other member := marked.ends other (List.mem_append_right _ member)

/-- The part of a clause and what comes behind it. -/
theorem tail {mark : Option CaseClause} (marked : Marked number clause first (mark :: marks)) :
    Marked number clause (first + 1) marks := by
  have split : Marked number clause first ([mark] ++ marks) := marked
  exact split.right rfl

/-- A clause of this number at the head of a switch is the clause. -/
theorem of_head {typed : Bool} {clauses : List CaseClause} {index : Nat}
    (marked : Marked number clause first (Traversal.typeClausesOfCases typed clauses))
    (found : (headNumbers first clauses)[index]? = some number) : typed = true ∧ clauses[index]? = some clause := by
  induction clauses generalizing first index with
  | nil => simp [headNumbers] at found
  | cons head rest ih =>
    obtain ⟨pos, cases, binding, body⟩ := head
    cases index with
    | zero =>
      obtain rfl : first = number := by simpa [headNumbers] using found
      have same := marked.here 0 rfl rfl
      cases typed
      · cases same
      · exact ⟨rfl, same⟩
    | succ index =>
      exact ih (marked.tail.right (Traversal.marks_stmts body).length_eq) (by simpa [headNumbers] using found)

end Marked

/-- The paths that enter the clause of this number are those that stop at its head, with these objects bound. -/
def Binds (number : Nat) (objects : Store) (way : Way) : Prop :=
  ∀ before after, way before (.stopped (.entry number)) after ↔
    ∃ middle, way before (.stopped (.head number)) middle ∧ after = middle ∪ objects

def BindsCrossing (number : Nat) (objects : Store) (pass : Crossing) : Prop :=
  ∀ cursor before after, (∀ place, cursor ≠ .stopped place) →
    (pass cursor before (.stopped (.entry number)) after ↔
      ∃ middle, pass cursor before (.stopped (.head number)) middle ∧ after = middle ∪ objects)

section Forms

variable {way second body : Way}

theorem binds_straight (straight : Straight way) : Binds number objects way := by
  intro before after
  constructor
  · intro stops
    cases straight _ _ _ stops
  · rintro ⟨middle, stops, _⟩
    cases straight _ _ _ stops

theorem Binds.andThen (binds : Binds number objects way) (later : Binds number objects second) :
    Binds number objects (andThen way second) := by
  intro before after
  constructor
  · rintro (⟨stops, _⟩ | ⟨store, begins, stops⟩)
    · obtain ⟨middle, stops, same⟩ := (binds _ _).mp stops
      exact ⟨middle, .inl ⟨stops, nofun⟩, same⟩
    · obtain ⟨middle, stops, same⟩ := (later _ _).mp stops
      exact ⟨middle, .inr ⟨store, begins, stops⟩, same⟩
  · rintro ⟨middle, ⟨stops, _⟩ | ⟨store, begins, stops⟩, same⟩
    · exact .inl ⟨(binds _ _).mpr ⟨middle, stops, same⟩, nofun⟩
    · exact .inr ⟨store, begins, (later _ _).mpr ⟨middle, stops, same⟩⟩

theorem Binds.or (binds : Binds number objects way) (other : Binds number objects second) :
    Binds number objects fun before cursor after => way before cursor after ∨ second before cursor after := by
  intro before after
  constructor
  · rintro (stops | stops)
    · obtain ⟨middle, stops, same⟩ := (binds _ _).mp stops
      exact ⟨middle, .inl stops, same⟩
    · obtain ⟨middle, stops, same⟩ := (other _ _).mp stops
      exact ⟨middle, .inr stops, same⟩
  · rintro ⟨middle, stops | stops, same⟩
    · exact .inl ((binds _ _).mpr ⟨middle, stops, same⟩)
    · exact .inr ((other _ _).mpr ⟨middle, stops, same⟩)

theorem Binds.when (binds : Binds number objects way) (possible : Prop) :
    Binds number objects fun before cursor after => possible ∧ way before cursor after := by
  intro before after
  constructor
  · rintro ⟨may, stops⟩
    obtain ⟨middle, stops, same⟩ := (binds _ _).mp stops
    exact ⟨middle, ⟨may, stops⟩, same⟩
  · rintro ⟨middle, ⟨may, stops⟩, same⟩
    exact ⟨may, (binds _ _).mpr ⟨middle, stops, same⟩⟩

theorem leaving_stopped {name : String} {loop : Bool} {before after : Store} {place : Place} :
    leaving name loop way before (.stopped place) after ↔ way before (.stopped place) after := by
  constructor
  · rintro ⟨stand, passed, out⟩
    rwa [Cursor.out_eq_stopped out] at passed
  · exact fun passed => ⟨_, passed, rfl⟩

theorem Binds.leaving (name : String) (loop : Bool) (binds : Binds number objects way) :
    Binds number objects (leaving name loop way) := by
  intro before after
  simp only [leaving_stopped]
  exact binds before after

theorem Binds.looping (name : String) (mayEnter mayLeave : Bool) (binds : Binds number objects body) (post : Way) :
    Binds number objects (looping name mayEnter mayLeave body post) := by
  intro before after
  have inside := binds.leaving name true
  constructor
  · rintro ⟨head, rounds, ⟨_, impossible, _⟩ | ⟨may, stops⟩⟩
    · cases impossible
    · obtain ⟨middle, stops, same⟩ := (inside _ _).mp stops
      exact ⟨middle, ⟨head, rounds, .inr ⟨may, stops⟩⟩, same⟩
  · rintro ⟨middle, ⟨head, rounds, ⟨_, impossible, _⟩ | ⟨may, stops⟩⟩, same⟩
    · cases impossible
    · exact ⟨head, rounds, .inr ⟨may, (inside _ _).mpr ⟨middle, stops, same⟩⟩⟩

theorem Binds.crossing (labels : List String) (binds : Binds number objects way) :
    BindsCrossing number objects (crossing labels way) := by
  intro cursor before after moving
  unfold Paths.crossing
  split
  · exact binds before after
  · constructor
    · exact fun passes => (moving _ passes.1.symm).elim
    · rintro ⟨_, passes, _⟩
      exact (moving _ passes.1.symm).elim

/-- A path on its way to a label that it has passed has not stopped. -/
theorem moving_of_seeks {labels : List String} {cursor : Cursor} (seeks : cursor.seeks labels = true) :
    ∀ place, cursor ≠ .stopped place := by
  rintro place rfl
  cases seeks

theorem BindsCrossing.block {pass : Crossing} (back : Bool) (labels : List String)
    (binds : BindsCrossing number objects pass) : Binds number objects (block back labels pass) := by
  have entered {cursor before stand after} (rounds : Rounds back labels pass cursor before stand after)
      (moving : ∀ place, cursor ≠ .stopped place) (stops : stand = .stopped (.entry number)) :
      ∃ middle, Rounds back labels pass cursor before (.stopped (.head number)) middle ∧ after = middle ∪ objects := by
    induction rounds with
    | last passed gone =>
      subst stops
      obtain ⟨middle, passed, same⟩ := (binds _ _ _ moving).mp passed
      exact ⟨middle, .last passed fun _ => rfl, same⟩
    | again allowed passed returns _ ih =>
      obtain ⟨middle, rest, same⟩ := ih (moving_of_seeks returns) stops
      exact ⟨middle, .again allowed passed returns rest, same⟩
  have headed {cursor before stand middle} (rounds : Rounds back labels pass cursor before stand middle)
      (moving : ∀ place, cursor ≠ .stopped place) (stops : stand = .stopped (.head number)) :
      Rounds back labels pass cursor before (.stopped (.entry number)) (middle ∪ objects) := by
    induction rounds with
    | last passed gone =>
      subst stops
      exact .last ((binds _ _ _ moving).mpr ⟨_, passed, rfl⟩) fun _ => rfl
    | again allowed passed returns _ ih => exact .again allowed passed returns (ih (moving_of_seeks returns) stops)
  intro before after
  constructor
  · exact fun rounds => entered rounds nofun rfl
  · rintro ⟨middle, rounds, rfl⟩
    exact headed rounds nofun rfl

theorem Binds.switching (name : String) {heads : List Nat} {dispatch : Store → Option Nat → Store → Prop}
    {inside : Nat → Way}
    (inner : ∀ index before after, inside index before (.stopped (.entry number)) after ↔
      (heads[index]? = some number ∧ after = before) ∨
        ∃ middle, inside index before (.stopped (.head number)) middle ∧ after = middle ∪ objects)
    (dispatched : ∀ index, heads[index]? = some number → ∀ before entered,
      dispatch before (some index) entered ↔ entered = before ∪ objects) :
    Binds number objects (switching name heads dispatch inside) := by
  intro before after
  constructor
  · rintro (⟨_, _, impossible, _⟩ | ⟨_, impossible⟩ | ⟨index, entered, chosen, stops⟩)
    · cases impossible
    · cases impossible
    · rcases (inner _ _ _).mp (leaving_stopped.mp stops) with ⟨head, rfl⟩ | ⟨middle, stops, same⟩
      · exact ⟨before, .inl ⟨number, List.mem_of_getElem? head, rfl, rfl⟩, (dispatched _ head _ _).mp chosen⟩
      · exact ⟨middle, .inr (.inr ⟨index, entered, chosen, leaving_stopped.mpr stops⟩), same⟩
  · rintro ⟨middle, ⟨head, member, stops, rfl⟩ | ⟨_, impossible⟩ | ⟨index, entered, chosen, stops⟩, rfl⟩
    · cases stops
      obtain ⟨index, found⟩ := List.getElem?_of_mem member
      refine .inr (.inr ⟨index, _, (dispatched _ found _ _).mpr rfl, leaving_stopped.mpr ?_⟩)
      exact (inner _ _ _).mpr (.inl ⟨found, rfl⟩)
    · cases impossible
    · refine .inr (.inr ⟨index, entered, chosen, leaving_stopped.mpr ?_⟩)
      exact (inner _ _ _).mpr (.inr ⟨middle, leaving_stopped.mp stops, rfl⟩)

end Forms

variable {info : Info}

theorem crossAll_stopped {first : Nat} {stmts : List Stmt} {place : Place} {before after : Store} {stand : Cursor} :
    crossAll info false first stmts (.stopped place) before stand after ↔ stand = .stopped place ∧ after = before := by
  induction stmts generalizing first before with
  | nil => rfl
  | cons stmt rest ih =>
    constructor
    · rintro ⟨middle, store, ⟨rfl, rfl⟩, further⟩
      exact ih.mp further
    · intro passes
      exact ⟨_, _, ⟨rfl, rfl⟩, ih.mpr passes⟩

theorem BindsCrossing.cons {stmt : Stmt} {rest : List Stmt}
    (binds : BindsCrossing number objects (crossing stmt.labels (wayOf info false "" first stmt)))
    (later : BindsCrossing number objects
      (crossAll info false (first + (Traversal.clausesOfStmt stmt).length) rest)) :
    BindsCrossing number objects (crossAll info false first (stmt :: rest)) := by
  intro cursor before after moving
  constructor
  · rintro ⟨stand, store, passed, further⟩
    by_cases stopped : ∃ place, stand = .stopped place
    · obtain ⟨place, rfl⟩ := stopped
      obtain ⟨same, rfl⟩ := crossAll_stopped.mp further
      cases same
      obtain ⟨middle, passed, same⟩ := (binds _ _ _ moving).mp passed
      exact ⟨middle, ⟨_, _, passed, crossAll_stopped.mpr ⟨rfl, rfl⟩⟩, same⟩
    · obtain ⟨middle, further, same⟩ := (later _ _ _ (not_exists.mp stopped)).mp further
      exact ⟨middle, ⟨stand, store, passed, further⟩, same⟩
  · rintro ⟨middle, ⟨stand, store, passed, further⟩, rfl⟩
    by_cases stopped : ∃ place, stand = .stopped place
    · obtain ⟨place, rfl⟩ := stopped
      obtain ⟨same, rfl⟩ := crossAll_stopped.mp further
      cases same
      exact ⟨_, _, (binds _ _ _ moving).mpr ⟨_, passed, rfl⟩, crossAll_stopped.mpr ⟨rfl, rfl⟩⟩
    · exact ⟨stand, store, passed, (later _ _ _ (not_exists.mp stopped)).mpr ⟨_, further, rfl⟩⟩

/-- A clause is entered directly or, behind an expression switch, by the end of the clause before it. -/
theorem binds_clause {body next : Way} {heads : List Nat} {index : Nat} (binds : Binds number objects body)
    (later : ∀ before after, next before (.stopped (.entry number)) after ↔
      (heads[index]? = some number ∧ after = before) ∨
        ∃ middle, next before (.stopped (.head number)) middle ∧ after = middle ∪ objects)
    (ends : heads[index]? = some number → ∀ before after, ¬body before (.leaving .fallthrough) after)
    (before after : Store) :
    Paths.clause first body next before (.stopped (.entry number)) after ↔
      (first = number ∧ after = before) ∨
        ∃ middle, Paths.clause first body next before (.stopped (.head number)) middle ∧ after = middle ∪ objects := by
  constructor
  · rintro (⟨same, rfl⟩ | ⟨stops, _⟩ | ⟨store, falls, stops⟩)
    · cases same
      exact .inl ⟨rfl, rfl⟩
    · obtain ⟨middle, stops, same⟩ := (binds _ _).mp stops
      exact .inr ⟨middle, .inr (.inl ⟨stops, nofun⟩), same⟩
    · rcases (later _ _).mp stops with ⟨head, _⟩ | ⟨middle, stops, same⟩
      · exact (ends head _ _ falls).elim
      · exact .inr ⟨middle, .inr (.inr ⟨store, falls, stops⟩), same⟩
  · rintro (⟨rfl, rfl⟩ | ⟨middle, ⟨impossible, _⟩ | ⟨stops, _⟩ | ⟨store, falls, stops⟩, rfl⟩)
    · exact .inl ⟨rfl, rfl⟩
    · cases impossible
    · exact .inr (.inl ⟨(binds _ _).mpr ⟨middle, stops, rfl⟩, nofun⟩)
    · exact .inr (.inr ⟨store, falls, (later _ _).mpr (.inr ⟨middle, stops, rfl⟩)⟩)

mutual

theorem wayOf_binds {visible : List String} (name : String) (first : Nat) : ∀ stmt : Stmt,
    legal info visible stmt = true → Marked number clause first (Traversal.typeClausesOfStmt stmt) →
      Binds number (bound clause) (wayOf info false name first stmt)
  | .empty, _, _ => binds_straight (straight_simple rfl)
  | .expr _, _, _ => binds_straight (straight_simple rfl)
  | .assign _ _, _, _ => binds_straight (straight_simple rfl)
  | .eval _, _, _ => binds_straight (straight_simple rfl)
  | .declare .variables _, _, _ => binds_straight fun _ _ _ passed => passed.1
  | .declare .other _, _, _ => binds_straight fun _ _ _ passed => passed.1
  | .return _, _, _ => binds_straight fun _ _ _ => False.elim
  | .jump jump, _, _ => by
    intro before after
    constructor
    · rintro ⟨impossible, _⟩
      cases impossible
    · rintro ⟨_, ⟨impossible, _⟩, _⟩
      cases impossible
  | .labeled label stmt, legality, marked => wayOf_binds label first stmt (by simpa [legal] using legality) marked
  | .block body, legality, marked => (crossAll_binds first body (by simpa [legal] using legality) marked).block _ _
  | .cond init condition body otherwise, legality, marked => by
    simp only [legal, Bool.and_eq_true] at legality
    have inBody := (crossAll_binds first body legality.1.1.2 marked.left).block false (ownLabels body)
    have inElse := wayOf_binds "" _ otherwise legality.2 (marked.right (Traversal.marks_stmts body).length_eq)
    exact (binds_straight (straight_simple legality.1.1.1)).andThen ((inBody.when _).or (inElse.when _))
  | .loop init condition post body, legality, marked => by
    simp only [legal, Bool.and_eq_true] at legality
    have inBody := (crossAll_binds first body legality.2 marked).block false (ownLabels body)
    exact (binds_straight (straight_simple legality.1.1)).andThen (inBody.looping name _ _ _)
  | .range assigns key value subject body, legality, marked => by
    have inBody := (crossAll_binds first body (by simpa [legal] using legality) marked).block false (ownLabels body)
    exact (Binds.andThen (binds_straight fun _ _ _ passed => passed.1) inBody).looping name _ _ _
  | .select clauses, legality, marked =>
    (wayOfComms_binds first clauses (by simpa [legal] using legality) marked).leaving name false
  | .switch init tag clauses, legality, marked => by
    simp only [legal, Bool.and_eq_true] at legality
    refine (binds_straight (straight_simple legality.1.1)).andThen ?_
    refine .switching name (wayOfCases_binds false first clauses legality.2 marked) fun index found => ?_
    cases (marked.of_head found).1
  | .typeSwitch init guard clauses, legality, marked => by
    simp only [legal, Bool.and_eq_true] at legality
    refine (binds_straight (straight_simple legality.1.1.1.1)).andThen ?_
    refine .switching name (wayOfCases_binds true first clauses legality.2 marked) fun index found => ?_
    intro before entered
    simp [Matches, (marked.of_head found).2]
termination_by structural stmt => stmt

theorem crossAll_binds {visible : List String} (first : Nat) : ∀ stmts : List Stmt,
    legalAll info visible stmts = true → Marked number clause first (Traversal.typeClausesOfStmts stmts) →
      BindsCrossing number (bound clause) (crossAll info false first stmts)
  | [], _, _ => by
    intro cursor before after moving
    constructor
    · exact fun passes => (moving _ passes.1.symm).elim
    · rintro ⟨_, passes, _⟩
      exact (moving _ passes.1.symm).elim
  | stmt :: rest, legality, marked => by
    simp only [legalAll, Bool.and_eq_true] at legality
    have here := (wayOf_binds "" first stmt legality.1 marked.left).crossing stmt.labels
    exact here.cons (crossAll_binds _ rest legality.2 (marked.right (Traversal.marks_stmt stmt).length_eq))
termination_by structural stmts => stmts

theorem wayOfCases_binds {visible : List String} (typed : Bool) (first : Nat) : ∀ clauses : List CaseClause,
    legalCases info visible clauses = true →
      Marked number clause first (Traversal.typeClausesOfCases typed clauses) →
        ∀ index before after, wayOfCases info false first clauses index before (.stopped (.entry number)) after ↔
          ((headNumbers first clauses)[index]? = some number ∧ after = before) ∨
            ∃ middle, wayOfCases info false first clauses index before (.stopped (.head number)) middle ∧
              after = middle ∪ bound clause
  | [], _, _ => by
    intro index before after
    simp [headNumbers, wayOfCases, stuck]
  | ⟨pos, cases, binding, body⟩ :: rest, legality, marked => by
    simp only [legalCases, Bool.and_eq_true] at legality
    have order := (crossAll_orderly false (first + 1) body legality.1).block false (ownLabels body)
    have here := (crossAll_binds (first + 1) body legality.1 marked.tail.left).block false (ownLabels body)
    have beyond := marked.tail.right (Traversal.marks_stmts body).length_eq
    have later := wayOfCases_binds typed _ rest legality.2 beyond
    intro index before after
    cases index with
    | zero =>
      have direct : (headNumbers first (⟨pos, cases, binding, body⟩ :: rest))[0]? = some number ↔ first = number := by
        simp [headNumbers]
      rw [direct]
      refine binds_clause here (later 0) (fun found before after falls => ?_) before after
      obtain ⟨rfl, _⟩ := beyond.of_head found
      exact marked.ends ⟨pos, cases, binding, body⟩ (by simp [Traversal.typeClausesOfCases]) (order.leaves falls)
    | succ index => exact later index before after
termination_by structural clauses => clauses

theorem wayOfComms_binds {visible : List String} (first : Nat) : ∀ clauses : List CommClause,
    legalComms info visible clauses = true → Marked number clause first (Traversal.typeClausesOfComms clauses) →
      Binds number (bound clause) (wayOfComms info false first clauses)
  | [], _, _ => binds_straight fun _ _ _ => False.elim
  | ⟨comm, body⟩ :: rest, legality, marked => by
    simp only [legalComms, Bool.and_eq_true] at legality
    have inBody := (crossAll_binds first body legality.1.2 marked.left).block false (ownLabels body)
    have later := wayOfComms_binds _ rest legality.2 (marked.right (Traversal.marks_stmts body).length_eq)
    exact (Binds.andThen (binds_straight (straight_simple legality.1.1)) inBody).or later
termination_by structural clauses => clauses

end

/-- The forward paths into a clause of a type switch are those to its head, with the variable of the clause. -/
theorem forwardPath_entry {body : List Stmt} (formed : WellFormed info body) {index : Nat}
    (marked : Marked index clause 0 (Traversal.typeClausesOfStmts body)) (store : Store) :
    ForwardPath info body (.stopped (.entry index)) store ↔
      ∃ before, ForwardPath info body (.stopped (.head index)) before ∧ store = before ∪ bound clause :=
  (crossAll_binds 0 body formed.legal marked).block false (ownLabels body) ∅ store

end Paths

namespace Checker

open Source Paths

variable {info : Info} {body : List Stmt}

/-- In a type switch `fallthrough` is not allowed. -/
def NoTypeFallthrough (body : List Stmt) : Prop :=
  ∀ clause, some clause ∈ Traversal.typeClausesOfStmts body → .fallthrough ∉ exitJumpsAll clause.body

theorem NoTypeFallthrough.marked (ends : NoTypeFallthrough body) {index : Nat} {clause : CaseClause}
    (found : (Traversal.typeClausesOfStmts body)[index]? = some (some clause)) :
    Marked index clause 0 (Traversal.typeClausesOfStmts body) where
  here other mark placed same := by
    rw [Nat.zero_add] at same
    subst same
    simpa [found] using placed.symm
  ends := ends

/-- A clause of a type switch is entered with its variable assigned if it has cases. The default clause has in its
entry state what is assigned on every path to the head of the switch, and no more. -/
theorem typeSwitch_binds_cases (formed : WellFormed info body) (ends : NoTypeFallthrough body) :
    ∃ result, checkFunction info body = .ok result ∧
      ∀ index clause, (Traversal.typeClausesOfStmts body)[index]? = some (some clause) →
        ∃ arrival, result.arrivals[index]? = some arrival ∧ arrival.clause = clause ∧
          (arrival.state.isReachable = true → ∀ object, clause.binding = some object →
            (clause.cases.isSome = true → arrival.state.contains object = true) ∧
            (clause.cases.isNone = true → (arrival.state.contains object = true ↔
              ∀ store, ForwardPath info body (.stopped (.head index)) store → object ∈ store))) := by
  obtain ⟨result, checked, reflects⟩ := checkFunction_reflects formed
  refine ⟨result, checked, fun index clause found => ?_⟩
  have listed := (Traversal.marks_stmts body).clause found
  rw [← reflects.arrivals.listed, List.getElem?_map] at listed
  obtain ⟨arrival, placed, rfl⟩ := Option.map_eq_some_iff.mp listed
  refine ⟨arrival, placed, rfl, fun reachable object binding => ?_⟩
  have summary := reflects.arrivals.state placed
  have entered := summary.assigned (summary.reachable.mp reachable) object
  have headed := forwardPath_entry formed (ends.marked found)
  simp only [Nat.zero_add, Set.mem_ofPred_eq, headed] at entered
  refine ⟨fun cases => ?_, fun default => ?_⟩
  · rw [entered]
    rintro _ ⟨before, _, rfl⟩
    exact .inr ⟨cases, binding⟩
  · have nothing : bound arrival.clause = ∅ := by
      ext other
      simp [bound, Option.isNone_iff_eq_none.mp default]
    rw [entered, nothing]
    simp

/-- `switch v := x.(type) { case nil: default: goto done }; return; done: {}`, where `v` is another variable in
each clause. -/
def boundClauses : List Stmt :=
  [.typeSwitch .empty (.assign [.ident none none none] [.assertion none (.ident none none (some 0)) none])
    [⟨10, some [.ident (some .untypedNil) none none], some 1, []⟩,
      ⟨20, none, some 2, [.jump (.goto (some "done"))]⟩],
    .return [],
    .labeled "done" (.block [])]

def threeVariables : Info :=
  let named (name : String) : Object := ⟨.var, name, none, "", false⟩
  ⟨"main", ⟨#[]⟩, #[named "x", named "v", named "v"]⟩

theorem boundClauses_formed : WellFormed threeVariables boundClauses := by decide

theorem boundClauses_ends : NoTypeFallthrough boundClauses := by
  have bodies : (Traversal.typeClausesOfStmts boundClauses).all fun mark =>
      mark.all fun clause => !(exitJumpsAll clause.body).contains .fallthrough := by decide
  intro clause member
  simpa using List.all_eq_true.mp bodies _ member

/-- Both clauses are entered, without the variable of the second. -/
theorem boundClauses_entered {result : Result} (checked : checkFunction threeVariables boundClauses = .ok result) :
    result.arrivals.map (fun arrival => (arrival.state.isReachable, arrival.state.contains 2)) =
      [(true, false), (true, false)] := by
  have evaluated : (checkFunction threeVariables boundClauses).toOption.map (fun result =>
      result.arrivals.map fun arrival => (arrival.state.isReachable, arrival.state.contains 2)) =
      some [(true, false), (true, false)] := by decide +kernel
  rw [checked] at evaluated
  exact Option.some.inj evaluated

theorem boundClauses_bind :
    ∃ result, checkFunction threeVariables boundClauses = .ok result ∧
      ∃ arrival, result.arrivals[0]? = some arrival ∧ arrival.clause.binding = some 1 ∧
        arrival.state.isReachable = true ∧ arrival.state.contains 1 = true := by
  obtain ⟨result, checked, binds⟩ := typeSwitch_binds_cases boundClauses_formed boundClauses_ends
  obtain ⟨arrival, placed, same, bound⟩ := binds 0 _ rfl
  have entered := congrArg (·[0]?) (boundClauses_entered checked)
  simp only [List.getElem?_map, placed, Option.map_some] at entered
  have reached : arrival.state.isReachable = true := congrArg Prod.fst (Option.some.inj entered)
  exact ⟨result, checked, arrival, placed, same ▸ rfl, reached, (bound reached 1 rfl).1 rfl⟩

/-- Control comes to the default clause, and its variable is not assigned there. -/
theorem boundClauses_default_unbound :
    WellFormed threeVariables boundClauses ∧
    (Traversal.typeClausesOfStmts boundClauses)[1]? =
      some (some ⟨20, none, some 2, [.jump (.goto (some "done"))]⟩) ∧
    ∃ result arrival, checkFunction threeVariables boundClauses = .ok result ∧ result.arrivals[1]? = some arrival ∧
      arrival.state.isReachable = true ∧ arrival.state.contains 2 = false := by
  obtain ⟨result, checked, reflects⟩ := checkFunction_reflects boundClauses_formed
  have entered := congrArg (·[1]?) (boundClauses_entered checked)
  simp only [List.getElem?_map, List.getElem?_cons_succ, List.getElem?_cons_zero] at entered
  obtain ⟨arrival, placed, seen⟩ := Option.map_eq_some_iff.mp entered
  exact ⟨boundClauses_formed, rfl, result, arrival, checked, placed, congrArg Prod.fst seen, congrArg Prod.snd seen⟩

end Checker

end ClauseReach
