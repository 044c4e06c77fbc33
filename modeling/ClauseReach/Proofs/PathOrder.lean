import ClauseReach.Proofs.WellFormed

/-!
What every path through a statement keeps to, whether it goes back or not: variables once assigned stay
assigned, a jump that leaves the statement is one written in it, and the clauses at which the path stops
are those of the statement.
-/

namespace ClauseReach.Source

mutual

/-- The jumps in a statement of this name that refer to nothing inside it; every `goto` counts as one of
them. -/
def exitJumps (name : String) : Stmt → List Jump
  | .jump jump => [jump]
  | .block body => exitJumpsAll body
  | .labeled label stmt => exitJumps label stmt
  | .cond _ _ body otherwise => exitJumpsAll body ++ exitJumps "" otherwise
  | .loop _ _ _ body => (exitJumpsAll body).filter (·.escapes name true)
  | .range _ _ _ _ body => (exitJumpsAll body).filter (·.escapes name true)
  | .select clauses => (exitJumpsComms clauses).filter (·.escapes name false)
  | .switch _ _ clauses => (exitJumpsCases clauses).filter (·.escapes name false)
  | .typeSwitch _ _ clauses => (exitJumpsCases clauses).filter (·.escapes name false)
  | _ => []
termination_by structural stmt => stmt

def exitJumpsAll : List Stmt → List Jump
  | [] => []
  | stmt :: rest => exitJumps "" stmt ++ exitJumpsAll rest
termination_by structural stmts => stmts

def exitJumpsCases : List CaseClause → List Jump
  | [] => []
  | ⟨_, _, _, body⟩ :: rest => exitJumpsAll body ++ exitJumpsCases rest
termination_by structural clauses => clauses

def exitJumpsComms : List CommClause → List Jump
  | [] => []
  | ⟨_, body⟩ :: rest => exitJumpsAll body ++ exitJumpsComms rest
termination_by structural clauses => clauses

end

/-- The labels inside the statements of a list, its own labels apart. -/
def innerAll (stmts : List Stmt) : List String := stmts.flatMap innerLabels

theorem mem_allLabels {label : String} {stmts : List Stmt} :
    label ∈ allLabels stmts ↔ label ∈ ownLabels stmts ∨ label ∈ innerAll stmts := by
  induction stmts with
  | nil => simp [allLabels, ownLabels, innerAll]
  | cons stmt rest ih =>
    simp only [allLabels, ownLabels, innerAll, List.flatMap_cons, List.mem_append] at ih ⊢
    rw [ih]
    grind

variable {info : Info}

/-- What a block adds to the visible labels lies inside the block. -/
theorem visible_of_block {label : String} {visible : List String} {body : List Stmt}
    (found : label ∈ ownLabels body ++ visible ∨ label ∈ innerAll body) :
    label ∈ visible ∨ label ∈ allLabels body := by
  rw [mem_allLabels]
  simp only [List.mem_append] at found
  grind

mutual

/-- A `goto` that leaves a statement goes to a label visible there, or back to one inside. -/
theorem goto_scoped {visible : List String} {label name : String} : ∀ (stmt : Stmt),
    legal info visible stmt = true → .goto (some label) ∈ exitJumps name stmt →
      label ∈ visible ∨ label ∈ innerLabels stmt
  | .jump jump, legality, found => by
    simp only [exitJumps, List.mem_singleton] at found
    subst found
    left
    simpa [legal] using legality
  | .block body, legality, found => by
    simp only [legal, exitJumps, innerLabels] at legality found ⊢
    exact visible_of_block (goto_scopedAll body legality found)
  | .labeled _ stmt, legality, found => by
    simp only [legal, exitJumps, innerLabels] at legality found ⊢
    exact goto_scoped stmt legality found
  | .cond _ _ body otherwise, legality, found => by
    simp only [legal, exitJumps, innerLabels, Bool.and_eq_true, List.mem_append] at legality found ⊢
    rcases found with inBody | inElse
    · have := visible_of_block (goto_scopedAll body legality.1.1.2 inBody)
      grind
    · have := goto_scoped otherwise legality.2 inElse
      grind
  | .loop _ _ _ body, legality, found => by
    simp only [legal, exitJumps, innerLabels, Bool.and_eq_true, List.mem_filter] at legality found ⊢
    exact visible_of_block (goto_scopedAll body legality.2 found.1)
  | .range _ _ _ _ body, legality, found => by
    simp only [legal, exitJumps, innerLabels, List.mem_filter] at legality found ⊢
    exact visible_of_block (goto_scopedAll body legality found.1)
  | .select clauses, legality, found => by
    simp only [legal, exitJumps, innerLabels, List.mem_filter] at legality found ⊢
    exact goto_scopedComms clauses legality found.1
  | .switch _ _ clauses, legality, found => by
    simp only [legal, exitJumps, innerLabels, Bool.and_eq_true, List.mem_filter] at legality found ⊢
    exact goto_scopedCases clauses legality.2 found.1
  | .typeSwitch _ _ clauses, legality, found => by
    simp only [legal, exitJumps, innerLabels, Bool.and_eq_true, List.mem_filter] at legality found ⊢
    exact goto_scopedCases clauses legality.2 found.1
  | .empty, _, found | .expr _, _, found | .assign _ _, _, found | .eval _, _, found
  | .declare _ _, _, found | .return _, _, found => by simp [exitJumps] at found
termination_by structural stmt => stmt

theorem goto_scopedAll {visible : List String} {label : String} : ∀ (stmts : List Stmt),
    legalAll info visible stmts = true → .goto (some label) ∈ exitJumpsAll stmts →
      label ∈ visible ∨ label ∈ innerAll stmts
  | [], _, found => by simp [exitJumpsAll] at found
  | stmt :: rest, legality, found => by
    simp only [legalAll, exitJumpsAll, innerAll, Bool.and_eq_true, List.mem_append,
      List.flatMap_cons] at legality found ⊢
    rcases found with here | later
    · have := goto_scoped stmt legality.1 here
      grind
    · have := goto_scopedAll rest legality.2 later
      simp only [innerAll] at this
      grind
termination_by structural stmts => stmts

theorem goto_scopedCases {visible : List String} {label : String} : ∀ (clauses : List CaseClause),
    legalCases info visible clauses = true → .goto (some label) ∈ exitJumpsCases clauses →
      label ∈ visible ∨ label ∈ labelsOfCases clauses
  | [], _, found => by simp [exitJumpsCases] at found
  | ⟨_, _, _, body⟩ :: rest, legality, found => by
    simp only [legalCases, exitJumpsCases, labelsOfCases, Bool.and_eq_true,
      List.mem_append] at legality found ⊢
    rcases found with here | later
    · have := visible_of_block (goto_scopedAll body legality.1 here)
      grind
    · have := goto_scopedCases rest legality.2 later
      grind
termination_by structural clauses => clauses

theorem goto_scopedComms {visible : List String} {label : String} : ∀ (clauses : List CommClause),
    legalComms info visible clauses = true → .goto (some label) ∈ exitJumpsComms clauses →
      label ∈ visible ∨ label ∈ labelsOfComms clauses
  | [], _, found => by simp [exitJumpsComms] at found
  | ⟨_, body⟩ :: rest, legality, found => by
    simp only [legalComms, exitJumpsComms, labelsOfComms, Bool.and_eq_true,
      List.mem_append] at legality found ⊢
    rcases found with here | later
    · have := visible_of_block (goto_scopedAll body legality.1.2 here)
      grind
    · have := goto_scopedComms rest legality.2 later
      grind
termination_by structural clauses => clauses

end

end ClauseReach.Source

namespace ClauseReach.Paths

open Source

/-- The ways keep what is assigned, leave by these jumps only and stop at clauses of these numbers only. -/
structure Orderly (jumps : Jump → Prop) (numbers : Nat → Prop) (way : Way) : Prop where
  grows : ∀ {before cursor after}, way before cursor after → before ⊆ after
  leaves : ∀ {before jump after}, way before (.leaving jump) after → jumps jump
  stops : ∀ {before place after}, way before (.stopped place) after → numbers place.clause

/-- The same for crossings, where a path may also pass by. -/
structure OrderlyCrossing (jumps : Jump → Prop) (numbers : Nat → Prop) (pass : Crossing) : Prop where
  grows : ∀ {cursor before stand after}, pass cursor before stand after → before ⊆ after
  leaves : ∀ {cursor before jump after}, pass cursor before (.leaving jump) after →
    jumps jump ∨ cursor = .leaving jump
  stops : ∀ {cursor before place after}, pass cursor before (.stopped place) after →
    numbers place.clause ∨ cursor = .stopped place

/-- The ways go on and nothing else. -/
def Straight (way : Way) : Prop := ∀ before cursor after, way before cursor after → cursor = .onward

variable {jumps allowed : Jump → Prop} {numbers covered : Nat → Prop} {first second body post : Way}

theorem Orderly.mono (orderly : Orderly jumps numbers first)
    (wider : ∀ jump, jumps jump → allowed jump) (larger : ∀ number, numbers number → covered number) :
    Orderly allowed covered first :=
  ⟨orderly.grows, fun way => wider _ (orderly.leaves way), fun way => larger _ (orderly.stops way)⟩

theorem orderly_stay : Orderly jumps numbers stay where
  grows := by
    intro before cursor after passed
    obtain ⟨_, rfl⟩ := passed
    exact subset_rfl
  leaves := fun ⟨impossible, _⟩ => by cases impossible
  stops := fun ⟨impossible, _⟩ => by cases impossible

theorem orderly_stuck : Orderly jumps numbers stuck :=
  ⟨False.elim, False.elim, False.elim⟩

theorem orderly_assigning (objects : Store) : Orderly jumps numbers (assigning objects) where
  grows := by
    intro before cursor after passed
    obtain ⟨_, rfl⟩ := passed
    exact Set.subset_union_left
  leaves := fun ⟨impossible, _⟩ => by cases impossible
  stops := fun ⟨impossible, _⟩ => by cases impossible

theorem Orderly.andThen (orderly : Orderly jumps numbers first) (later : Orderly jumps numbers second) :
    Orderly jumps numbers (andThen first second) where
  grows := by
    intro before cursor after passed
    rcases passed with ⟨way, _⟩ | ⟨middle, way, rest⟩
    · exact orderly.grows way
    · exact (orderly.grows way).trans (later.grows rest)
  leaves := by
    intro before jump after passed
    rcases passed with ⟨way, _⟩ | ⟨middle, _, rest⟩
    · exact orderly.leaves way
    · exact later.leaves rest
  stops := by
    intro before place after passed
    rcases passed with ⟨way, _⟩ | ⟨middle, _, rest⟩
    · exact orderly.stops way
    · exact later.stops rest

theorem Orderly.either (condition : Expr) (whenTrue : Orderly jumps numbers first)
    (whenFalse : Orderly jumps numbers second) :
    Orderly jumps numbers (either condition first second) where
  grows := by
    intro before cursor after passed
    rcases passed with ⟨_, way⟩ | ⟨_, way⟩
    · exact whenTrue.grows way
    · exact whenFalse.grows way
  leaves := by
    intro before jump after passed
    rcases passed with ⟨_, way⟩ | ⟨_, way⟩
    · exact whenTrue.leaves way
    · exact whenFalse.leaves way
  stops := by
    intro before place after passed
    rcases passed with ⟨_, way⟩ | ⟨_, way⟩
    · exact whenTrue.stops way
    · exact whenFalse.stops way

theorem Cursor.out_eq_leaving {name : String} {loop : Bool} {stand : Cursor} {jump : Jump}
    (out : stand.out name loop = some (.leaving jump)) :
    stand = .leaving jump ∧ jump.escapes name loop = true := by
  cases stand with
  | onward => cases loop <;> simp [Cursor.out] at out
  | leaving inner =>
    simp only [Cursor.out] at out
    split at out
    · simp at out
    · split at out
      · cases out
        exact ⟨rfl, by assumption⟩
      · cases out
  | stopped place => simp [Cursor.out] at out

theorem Cursor.out_eq_stopped {name : String} {loop : Bool} {stand : Cursor} {place : Place}
    (out : stand.out name loop = some (.stopped place)) : stand = .stopped place := by
  cases stand with
  | onward => cases loop <;> simp [Cursor.out] at out
  | leaving inner =>
    simp only [Cursor.out] at out
    split at out
    · simp at out
    · split at out <;> simp at out
  | stopped other =>
    cases out
    rfl

theorem Orderly.leaving (name : String) (loop : Bool) (orderly : Orderly jumps numbers body) :
    Orderly (fun jump => jumps jump ∧ jump.escapes name loop = true) numbers
      (leaving name loop body) where
  grows := by
    intro before cursor after passed
    obtain ⟨stand, way, _⟩ := passed
    exact orderly.grows way
  leaves := by
    intro before jump after passed
    obtain ⟨stand, way, out⟩ := passed
    obtain ⟨rfl, escapes⟩ := Cursor.out_eq_leaving out
    exact ⟨orderly.leaves way, escapes⟩
  stops := by
    intro before place after passed
    obtain ⟨stand, way, out⟩ := passed
    obtain rfl := Cursor.out_eq_stopped out
    exact orderly.stops way

theorem rounds_grow {name : String} {mayEnter : Bool} (orderly : Orderly jumps numbers body)
    (after : Orderly allowed covered post) {before head : Store}
    (rounds : Relation.ReflTransGen (fun head next => mayEnter = true ∧ Round name body post head next)
      before head) : before ⊆ head := by
  induction rounds with
  | refl => exact subset_rfl
  | tail _ step ih =>
    obtain ⟨_, stand, middle, way, _, last⟩ := step
    exact ih.trans ((orderly.grows way).trans (after.grows last))

theorem Orderly.looping (name : String) (mayEnter mayLeave : Bool) (orderly : Orderly jumps numbers body)
    (after : Orderly allowed covered post) :
    Orderly (fun jump => jumps jump ∧ jump.escapes name true = true) numbers
      (looping name mayEnter mayLeave body post) where
  grows := by
    intro before cursor after' passed
    obtain ⟨head, rounds, ⟨_, _, rfl⟩ | ⟨_, way⟩⟩ := passed
    · exact rounds_grow orderly after rounds
    · exact (rounds_grow orderly after rounds).trans ((orderly.leaving name true).grows way)
  leaves := by
    intro before jump after' passed
    obtain ⟨head, _, ⟨_, impossible, _⟩ | ⟨_, way⟩⟩ := passed
    · cases impossible
    · exact (orderly.leaving name true).leaves way
  stops := by
    intro before place after' passed
    obtain ⟨head, _, ⟨_, impossible, _⟩ | ⟨_, way⟩⟩ := passed
    · cases impossible
    · exact (orderly.leaving name true).stops way

theorem OrderlyCrossing.block {pass : Crossing} (back : Bool) (labels : List String)
    (orderly : OrderlyCrossing jumps numbers pass) : Orderly jumps numbers (block back labels pass) := by
  have kept {cursor before stand after} (rounds : Rounds back labels pass cursor before stand after) :
      before ⊆ after ∧ (∀ jump, stand = .leaving jump → jumps jump ∨ cursor = .leaving jump) ∧
        ∀ place, stand = .stopped place → numbers place.clause ∨ cursor = .stopped place := by
    induction rounds with
    | last passed _ =>
      refine ⟨orderly.grows passed, ?_, ?_⟩
      · rintro jump rfl
        exact orderly.leaves passed
      · rintro place rfl
        exact orderly.stops passed
    | @again cursor before middle store stand after _ passed returns _ ih =>
      obtain ⟨grows, leaves, stops⟩ := ih
      refine ⟨(orderly.grows passed).trans grows, ?_, ?_⟩
      · intro jump same
        rcases leaves jump same with found | rfl
        · exact .inl found
        · exact orderly.leaves passed
      · intro place same
        rcases stops place same with found | rfl
        · exact .inl found
        · exact orderly.stops passed
  constructor
  · exact fun way => (kept way).1
  · exact fun way => ((kept way).2.1 _ rfl).resolve_right (by simp)
  · exact fun way => ((kept way).2.2 _ rfl).resolve_right (by simp)

theorem Orderly.crossing (labels : List String) (orderly : Orderly jumps numbers body) :
    OrderlyCrossing jumps numbers (crossing labels body) where
  grows := by
    intro cursor before stand after way
    simp only [Paths.crossing] at way
    split at way
    · exact orderly.grows way
    · exact way.2.ge
  leaves := by
    intro cursor before jump after way
    simp only [Paths.crossing] at way
    split at way
    · exact .inl (orderly.leaves way)
    · exact .inr way.1.symm
  stops := by
    intro cursor before place after way
    simp only [Paths.crossing] at way
    split at way
    · exact .inl (orderly.stops way)
    · exact .inr way.1.symm

theorem Orderly.switching (name : String) {heads : List Nat}
    {dispatch : Store → Option Nat → Store → Prop} {inside : Nat → Way}
    (placed : ∀ head ∈ heads, numbers head)
    (kept : ∀ {before choice after}, dispatch before choice after → before ⊆ after)
    (orderly : ∀ index, Orderly jumps numbers (inside index)) :
    Orderly (fun jump => jumps jump ∧ jump.escapes name false = true) numbers
      (switching name heads dispatch inside) where
  grows := by
    intro before cursor after passed
    rcases passed with ⟨_, _, _, rfl⟩ | ⟨passes, _⟩ | ⟨index, entered, enters, way⟩
    · exact subset_rfl
    · exact kept passes
    · exact (kept enters).trans (((orderly index).leaving name false).grows way)
  leaves := by
    intro before jump after passed
    rcases passed with ⟨_, _, impossible, _⟩ | ⟨_, impossible⟩ | ⟨index, entered, _, way⟩
    · cases impossible
    · cases impossible
    · exact ((orderly index).leaving name false).leaves way
  stops := by
    intro before place after passed
    rcases passed with ⟨head, member, same, _⟩ | ⟨_, impossible⟩ | ⟨index, entered, _, way⟩
    · cases same
      exact placed head member
    · cases impossible
    · exact ((orderly index).leaving name false).stops way

theorem Orderly.clause {number : Nat} (placed : numbers number) (orderly : Orderly jumps numbers body)
    (later : Orderly jumps numbers second) : Orderly jumps numbers (clause number body second) where
  grows := by
    intro before cursor after passed
    rcases passed with ⟨_, rfl⟩ | ⟨way, _⟩ | ⟨middle, way, rest⟩
    · exact subset_rfl
    · exact orderly.grows way
    · exact (orderly.grows way).trans (later.grows rest)
  leaves := by
    intro before jump after passed
    rcases passed with ⟨impossible, _⟩ | ⟨way, _⟩ | ⟨middle, _, rest⟩
    · cases impossible
    · exact orderly.leaves way
    · exact later.leaves rest
  stops := by
    intro before place after passed
    rcases passed with ⟨same, _⟩ | ⟨way, _⟩ | ⟨middle, _, rest⟩
    · cases same
      exact placed
    · exact orderly.stops way
    · exact later.stops rest

/-- The numbers of `count` clauses from `first` on. -/
def Numbered (first count number : Nat) : Prop := first ≤ number ∧ number < first + count

theorem headNumbers_numbered {first head : Nat} {clauses : List CaseClause}
    (member : head ∈ headNumbers first clauses) :
    Numbered first (Traversal.clausesOfCases clauses).length head := by
  induction clauses generalizing first with
  | nil => simp [headNumbers] at member
  | cons clause rest ih =>
    obtain ⟨pos, cases, binding, body⟩ := clause
    simp only [headNumbers, List.mem_cons] at member
    simp only [Numbered, Traversal.clausesOfCases, List.length_cons, List.length_append]
    rcases member with rfl | later
    · omega
    · have := ih later
      simp only [Numbered] at this
      omega

theorem wayOf_simple {info : Info} {back : Bool} {name : String} {first : Nat} {stmt : Stmt}
    (simple : stmt.isSimple = true) : Orderly jumps numbers (wayOf info back name first stmt) := by
  cases stmt with
  | empty => exact orderly_stay
  | expr expr =>
    simp only [wayOf]
    split
    · exact orderly_stuck
    · exact orderly_stay
  | assign targets values => exact orderly_assigning _
  | eval operands => exact orderly_stay
  | _ => cases simple

variable {info : Info} (back : Bool)

/-- The jumps and clause numbers that a way through this statement keeps to. -/
abbrev OrderlyStmt (name : String) (first : Nat) (stmt : Stmt) (way : Way) : Prop :=
  Orderly (· ∈ exitJumps name stmt) (Numbered first (Traversal.clausesOfStmt stmt).length) way

mutual

theorem wayOf_orderly {visible : List String} (name : String) (first : Nat) : ∀ (stmt : Stmt),
    legal info visible stmt = true → OrderlyStmt name first stmt (wayOf info back name first stmt)
  | .empty, _ => orderly_stay
  | .expr expr, _ => wayOf_simple rfl
  | .assign targets values, _ => orderly_assigning _
  | .eval operands, _ => orderly_stay
  | .declare .variables specs, _ => orderly_assigning _
  | .declare .other specs, _ => orderly_stay
  | .return results, _ => orderly_stuck
  | .jump jump, _ => by
    constructor
    · intro before cursor after passed
      obtain ⟨_, rfl⟩ := passed
      exact subset_rfl
    · intro before _ after passed
      obtain ⟨same, _⟩ := passed
      cases same
      simp [exitJumps]
    · intro before place after passed
      obtain ⟨impossible, _⟩ := passed
      cases impossible
  | .labeled label stmt, legality => wayOf_orderly label first stmt (by simpa [legal] using legality)
  | .block body, legality => (crossAll_orderly first body (by simpa [legal] using legality)).block _ _
  | .cond init condition body otherwise, legality => by
    simp only [legal, Bool.and_eq_true] at legality
    have bodyOrder := (crossAll_orderly first body legality.1.1.2).block back (ownLabels body)
    have elseOrder := wayOf_orderly "" (first + (Traversal.clausesOfStmts body).length) otherwise legality.2
    apply Orderly.andThen (wayOf_simple legality.1.1.1)
    apply Orderly.either condition
    · refine bodyOrder.mono (fun jump member => by simp [exitJumps, member]) fun number inside => ?_
      simp only [Numbered, Traversal.clausesOfStmt, List.length_append] at inside ⊢
      omega
    · refine elseOrder.mono (fun jump member => by simp [exitJumps, member]) fun number inside => ?_
      simp only [Numbered, Traversal.clausesOfStmt, List.length_append] at inside ⊢
      omega
  | .loop init condition post body, legality => by
    simp only [legal, Bool.and_eq_true] at legality
    have bodyOrder := (crossAll_orderly first body legality.2).block back (ownLabels body)
    have postOrder : Orderly (fun _ => False) (fun _ => False) (wayOf info back "" first post) :=
      wayOf_simple legality.1.2
    apply Orderly.andThen (wayOf_simple legality.1.1)
    exact (bodyOrder.looping name _ _ postOrder).mono
      (fun jump found => by simpa [exitJumps] using found) fun _ inside => inside
  | .range assigns key value subject body, legality => by
    have bodyOrder := (crossAll_orderly first body (by simpa [legal] using legality)).block back
      (ownLabels body)
    have assigned := (orderly_assigning
      (if assigns then assignedBy info (key.toList ++ value.toList) else ∅)).andThen bodyOrder
    have postOrder : Orderly (fun _ => False) (fun _ => False) stay := orderly_stay
    exact (assigned.looping name _ _ postOrder).mono
      (fun jump found => by simpa [exitJumps] using found) fun _ inside => inside
  | .select clauses, legality => by
    have order := wayOfComms_orderly first clauses (by simpa [legal] using legality)
    exact (order.leaving name false).mono (fun jump found => by simpa [exitJumps] using found)
      fun _ inside => inside
  | .switch init tag clauses, legality => by
    simp only [legal, Bool.and_eq_true] at legality
    apply Orderly.andThen (wayOf_simple legality.1.1)
    refine (Orderly.switching name (fun _ => headNumbers_numbered) ?_
      (fun index => wayOfCases_orderly first clauses index legality.2)).mono
      (fun jump found => by simpa [exitJumps] using found) fun _ inside => inside
    intro before choice after passed
    obtain ⟨_, rfl⟩ := passed
    exact subset_rfl
  | .typeSwitch init guard clauses, legality => by
    simp only [legal, Bool.and_eq_true] at legality
    apply Orderly.andThen (wayOf_simple legality.1.1.1.1)
    refine (Orderly.switching name (fun _ => headNumbers_numbered) ?_
      (fun index => wayOfCases_orderly first clauses index legality.2)).mono
      (fun jump found => by simpa [exitJumps] using found) fun _ inside => inside
    intro before choice after matched
    cases choice with
    | none => exact matched.2.ge
    | some index =>
      obtain ⟨clause, _, rfl⟩ := matched
      exact Set.subset_union_left
termination_by structural stmt => stmt

theorem crossAll_orderly {visible : List String} (first : Nat) : ∀ (stmts : List Stmt),
    legalAll info visible stmts = true →
      OrderlyCrossing (· ∈ exitJumpsAll stmts)
        (Numbered first (Traversal.clausesOfStmts stmts).length) (crossAll info back first stmts)
  | [], _ => by
    constructor
    · intro cursor before stand after passed
      obtain ⟨_, rfl⟩ := passed
      exact subset_rfl
    · intro cursor before jump after passed
      obtain ⟨same, _⟩ := passed
      exact .inr same.symm
    · intro cursor before place after passed
      obtain ⟨same, _⟩ := passed
      exact .inr same.symm
  | stmt :: rest, legality => by
    simp only [legalAll, Bool.and_eq_true] at legality
    have here := (wayOf_orderly "" first stmt legality.1).crossing stmt.labels
    have later := crossAll_orderly (first + (Traversal.clausesOfStmt stmt).length) rest legality.2
    constructor
    · intro cursor before stand after passed
      obtain ⟨middle, store, way, further⟩ := passed
      exact (here.grows way).trans (later.grows further)
    · intro cursor before jump after passed
      obtain ⟨middle, store, way, further⟩ := passed
      rcases later.leaves further with found | rfl
      · exact .inl (by simp [exitJumpsAll, found])
      · exact (here.leaves way).imp_left fun found => by simp [exitJumpsAll, found]
    · intro cursor before place after passed
      obtain ⟨middle, store, way, further⟩ := passed
      rcases later.stops further with found | rfl
      · left
        simp only [Numbered, Traversal.clausesOfStmts, List.length_append] at found ⊢
        omega
      · refine (here.stops way).imp_left fun found => ?_
        simp only [Numbered, Traversal.clausesOfStmts, List.length_append] at found ⊢
        omega
termination_by structural stmts => stmts

theorem wayOfCases_orderly {visible : List String} (first : Nat) : ∀ (clauses : List CaseClause) (index : Nat),
    legalCases info visible clauses = true →
      Orderly (· ∈ exitJumpsCases clauses)
        (Numbered first (Traversal.clausesOfCases clauses).length)
        (wayOfCases info back first clauses index)
  | [], _, _ => orderly_stuck
  | ⟨pos, cases, binding, body⟩ :: rest, index, legality => by
    simp only [legalCases, Bool.and_eq_true] at legality
    have here := (crossAll_orderly (first + 1) body legality.1).block back (ownLabels body)
    have later index : Orderly (· ∈ exitJumpsCases (⟨pos, cases, binding, body⟩ :: rest))
        (Numbered first (Traversal.clausesOfCases (⟨pos, cases, binding, body⟩ :: rest)).length)
        (wayOfCases info back (first + 1 + (Traversal.clausesOfStmts body).length) rest index) := by
      refine (wayOfCases_orderly _ rest index legality.2).mono
        (fun jump member => by simp [exitJumpsCases, member]) fun number inside => ?_
      simp only [Numbered, Traversal.clausesOfCases, List.length_cons, List.length_append] at inside ⊢
      omega
    cases index with
    | zero =>
      refine Orderly.clause ?_ (here.mono (fun jump member => by simp [exitJumpsCases, member]) ?_) (later 0)
      · simp only [Numbered, Traversal.clausesOfCases, List.length_cons]
        omega
      · intro number inside
        simp only [Numbered, Traversal.clausesOfCases, List.length_cons, List.length_append] at inside ⊢
        omega
    | succ index => exact later index
termination_by structural clauses => clauses

theorem wayOfComms_orderly {visible : List String} (first : Nat) : ∀ (clauses : List CommClause),
    legalComms info visible clauses = true →
      Orderly (· ∈ exitJumpsComms clauses)
        (Numbered first (Traversal.clausesOfComms clauses).length) (wayOfComms info back first clauses)
  | [], _ => orderly_stuck
  | ⟨comm, body⟩ :: rest, legality => by
    simp only [legalComms, Bool.and_eq_true] at legality
    have bodyOrder := (crossAll_orderly first body legality.1.2).block back (ownLabels body)
    have here : Orderly _ _ (andThen (wayOf info back "" first comm) _) :=
      (wayOf_simple legality.1.1).andThen bodyOrder
    have later := wayOfComms_orderly (first + (Traversal.clausesOfStmts body).length) rest legality.2
    constructor
    · intro before cursor after passed
      rcases passed with way | way
      · exact here.grows way
      · exact later.grows way
    · intro before jump after passed
      rcases passed with way | way
      · simp [exitJumpsComms, here.leaves way]
      · simp [exitJumpsComms, later.leaves way]
    · intro before place after passed
      rcases passed with way | way
      · have inside := here.stops way
        simp only [Numbered, Traversal.clausesOfComms, List.length_append] at inside ⊢
        omega
      · have inside := later.stops way
        simp only [Numbered, Traversal.clausesOfComms, List.length_append] at inside ⊢
        omega
termination_by structural clauses => clauses

end

end ClauseReach.Paths
