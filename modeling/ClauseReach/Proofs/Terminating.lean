import ClauseReach.Proofs.FunctionWalk

/-!
Terminating statements: control cannot come to the end of a function whose body ends in one.
The checker follows the rule with one exception. Past a type switch that does not take every value it lets
control go on, even if there is a default clause.
-/

namespace ClauseReach

namespace Source

def Info.callsPanic (info : Info) (expr : Expr) : Bool :=
  match expr.bare with
  | .call _ callee _ =>
    match callee.bare with
    | .ident _ _ uses => (info.object? uses).any fun object => object.kind = .builtin && object.name = "panic"
    | _ => false
  | _ => false

def Stmt.isEmpty : Stmt → Bool
  | .empty => true
  | _ => false

variable (info : Info)

mutual

/-- Whether a statement of this name is terminating. A clause of a switch may end in `fallthrough` instead,
and `falls` tells whether this is the place for it. -/
def terminates (falls : Bool) (name : String) : Stmt → Bool
  | .block body => terminatesAll false body
  | .expr expr => info.callsPanic expr
  | .return _ => true
  | .jump (.goto _) => true
  | .jump .fallthrough => falls
  | .labeled label stmt => terminates falls label stmt
  | .cond _ _ body otherwise => terminatesAll false body && terminates false "" otherwise
  | .loop _ condition _ body => condition.isNone && !(exitJumpsAll body).any (·.breaks name)
  | .select clauses => !(exitJumpsComms clauses).any (·.breaks name) && terminatesComms clauses
  | .switch _ _ clauses =>
    clauses.any (·.cases.isNone) && !(exitJumpsCases clauses).any (·.breaks name) && terminatesCases clauses
  | .typeSwitch _ _ clauses =>
    clauses.any (·.cases.isNone) && !(exitJumpsCases clauses).any (·.breaks name) && terminatesCases clauses
  | _ => false
termination_by structural stmt => stmt

/-- The last statement counts; empty statements behind it do not. -/
def terminatesAll (falls : Bool) : List Stmt → Bool
  | [] => false
  | stmt :: rest => if rest.all Stmt.isEmpty then terminates falls "" stmt else terminatesAll falls rest
termination_by structural stmts => stmts

def terminatesCases : List CaseClause → Bool
  | [] => true
  | ⟨_, _, _, body⟩ :: rest => terminatesAll true body && terminatesCases rest
termination_by structural clauses => clauses

def terminatesComms : List CommClause → Bool
  | [] => true
  | ⟨_, body⟩ :: rest => terminatesAll false body && terminatesComms rest
termination_by structural clauses => clauses

end

mutual

/-- The type switches at the ends of a statement that do not take every value, by the numbers of their first
clauses. -/
def openSwitches (first : Nat) : Stmt → List Nat
  | .block body => openSwitchesAll first body
  | .labeled _ stmt => openSwitches first stmt
  | .cond _ _ body otherwise =>
    openSwitchesAll first body ++ openSwitches (first + (Traversal.clausesOfStmts body).length) otherwise
  | .select clauses => openSwitchesComms first clauses
  | .switch _ _ clauses => openSwitchesCases first clauses
  | .typeSwitch _ guard clauses =>
    (if Paths.isComplete info guard clauses then [] else [first]) ++ openSwitchesCases first clauses
  | _ => []
termination_by structural stmt => stmt

def openSwitchesAll (first : Nat) : List Stmt → List Nat
  | [] => []
  | stmt :: rest =>
    if rest.all Stmt.isEmpty then openSwitches first stmt
    else openSwitchesAll (first + (Traversal.clausesOfStmt stmt).length) rest
termination_by structural stmts => stmts

def openSwitchesCases (first : Nat) : List CaseClause → List Nat
  | [] => []
  | ⟨_, _, _, body⟩ :: rest =>
    openSwitchesAll (first + 1) body ++
      openSwitchesCases (first + 1 + (Traversal.clausesOfStmts body).length) rest
termination_by structural clauses => clauses

def openSwitchesComms (first : Nat) : List CommClause → List Nat
  | [] => []
  | ⟨_, body⟩ :: rest =>
    openSwitchesAll first body ++ openSwitchesComms (first + (Traversal.clausesOfStmts body).length) rest
termination_by structural clauses => clauses

end

theorem Info.neverReturns_of_callsPanic {info : Info} {expr : Expr} (panics : info.callsPanic expr = true) :
    info.neverReturns expr = true := by
  unfold Info.callsPanic at panics
  unfold Info.neverReturns
  cases call : expr.bare with
  | call _ callee _ =>
    simp only [call] at panics ⊢
    cases ident : callee.bare with
    | ident _ _ uses =>
      simp only [ident] at panics ⊢
      cases found : info.object? uses with
      | none => simp [found] at panics
      | some object =>
        simp only [found, Option.any_some, Bool.and_eq_true, decide_eq_true_eq] at panics
        simp [Object.neverReturns, panics]
    | _ => simp [ident] at panics
  | _ => simp [call] at panics

end Source

namespace Paths

open Source

variable {jumps allowed : Jump → Prop} {name : String} {first count start more : Nat} {numbers further : List Nat}
  {way second : Way} {pass front : Crossing}

/-- The ways go on just as far as they come to the head of one of these switches. -/
structure Falls (first count : Nat) (numbers : List Nat) (way : Way) : Prop where
  onward : ∀ {before after}, way before .onward after →
    ∃ number ∈ numbers, way before (.stopped (.head number)) after
  stopped : ∀ {before number after}, number ∈ numbers → way before (.stopped (.head number)) after →
    way before .onward after
  numbered : ∀ number ∈ numbers, Numbered first count number

structure FallsAcross (first count : Nat) (numbers : List Nat) (pass : Crossing) : Prop where
  onward : ∀ {cursor before after}, pass cursor before .onward after →
    ∃ number ∈ numbers, pass cursor before (.stopped (.head number)) after
  stopped : ∀ {cursor before number after}, number ∈ numbers → cursor ≠ .stopped (.head number) →
    pass cursor before (.stopped (.head number)) after → pass cursor before .onward after
  numbered : ∀ number ∈ numbers, Numbered first count number

theorem Falls.never (closed : ∀ before after, ¬way before .onward after) : Falls first count [] way where
  onward passed := absurd passed (closed _ _)
  stopped member := by cases member
  numbered _ member := by cases member

theorem Falls.apart (falls : Falls first count numbers way) (orderly : Orderly jumps (Numbered start more) second)
    (disjoint : first + count ≤ start ∨ start + more ≤ first) {number : Nat} (member : number ∈ numbers)
    {before after : Store} : ¬second before (.stopped (.head number)) after := by
  intro stops
  have here := falls.numbered number member
  have there := orderly.stops stops
  simp only [Numbered, Place.clause] at here there
  omega

theorem Falls.numbered_append {total : Nat} (falls : Falls start count numbers way)
    (later : Falls (start + count) more further second) (lower : first ≤ start)
    (upper : start + count + more ≤ first + total) :
    ∀ number ∈ numbers ++ further, Numbered first total number := by
  intro number member
  rcases List.mem_append.mp member with here | there
  · have := falls.numbered number here
    simp only [Numbered] at this ⊢
    omega
  · have := later.numbered number there
    simp only [Numbered] at this ⊢
    omega

theorem Falls.andThen {init : Way} (straight : Straight init)
    (falls : Falls first count numbers way) : Falls first count numbers (andThen init way) where
  onward := by
    intro before after passed
    rcases passed with ⟨_, elsewhere⟩ | ⟨middle, begins, passed⟩
    · exact absurd rfl elsewhere
    · obtain ⟨number, member, stops⟩ := falls.onward passed
      exact ⟨number, member, .inr ⟨middle, begins, stops⟩⟩
  stopped := by
    intro before number after member passed
    rcases passed with ⟨begins, _⟩ | ⟨middle, begins, stops⟩
    · cases straight _ _ _ begins
    · exact .inr ⟨middle, begins, falls.stopped member stops⟩
  numbered := falls.numbered

theorem Falls.or (left right : Prop) (falls : Falls first count numbers way)
    (orderly : Orderly jumps (Numbered first count) way) (other : Falls (first + count) more further second)
    (orderlyOther : Orderly allowed (Numbered (first + count) more) second) :
    Falls first (count + more) (numbers ++ further)
      (fun before cursor after => (left ∧ way before cursor after) ∨ (right ∧ second before cursor after)) where
  onward := by
    intro before after passed
    rcases passed with ⟨may, passed⟩ | ⟨may, passed⟩
    · obtain ⟨number, member, stops⟩ := falls.onward passed
      exact ⟨number, List.mem_append_left _ member, .inl ⟨may, stops⟩⟩
    · obtain ⟨number, member, stops⟩ := other.onward passed
      exact ⟨number, List.mem_append_right _ member, .inr ⟨may, stops⟩⟩
  stopped := by
    intro before number after member passed
    rcases List.mem_append.mp member with here | there <;> rcases passed with ⟨may, stops⟩ | ⟨may, stops⟩
    · exact .inl ⟨may, falls.stopped here stops⟩
    · exact absurd stops (falls.apart orderlyOther (.inl (Nat.le_refl _)) here)
    · exact absurd stops (other.apart orderly (.inr (Nat.le_refl _)) there)
    · exact .inr ⟨may, other.stopped there stops⟩
  numbered := falls.numbered_append other (Nat.le_refl _) (by omega)

theorem Falls.leaving (falls : Falls first count numbers way)
    (unbroken : ∀ {before jump after}, way before (.leaving jump) after → jump.breaks name = false) :
    Falls first count numbers (leaving name false way) where
  onward := by
    intro before after given
    obtain ⟨stand, passed, out⟩ := given
    rcases Checker.Cursor.out_eq_onward.mp out with ⟨rfl, _⟩ | ⟨jump, rfl, breaks⟩
    · obtain ⟨number, member, stops⟩ := falls.onward passed
      exact ⟨number, member, _, stops, rfl⟩
    · rw [unbroken passed] at breaks
      cases breaks
  stopped := by
    intro before number after member given
    obtain ⟨stand, stops, out⟩ := given
    rw [Cursor.out_eq_stopped out] at stops
    exact ⟨.onward, falls.stopped member stops, rfl⟩
  numbered := falls.numbered

theorem not_looping_onward {mayEnter : Bool} {body post : Way}
    (unbroken : ∀ {before jump after}, body before (.leaving jump) after → jump.breaks name = false)
    (before after : Store) : ¬looping name mayEnter false body post before .onward after := by
  intro given
  obtain ⟨head, _, ends⟩ := given
  rcases ends with ⟨impossible, _⟩ | ⟨_, stand, passed, out⟩
  · cases impossible
  · rcases Checker.Cursor.out_eq_onward.mp out with ⟨_, impossible⟩ | ⟨jump, rfl, breaks⟩
    · cases impossible
    · rw [unbroken passed] at breaks
      cases breaks

theorem Falls.crossing (labels : List String) (falls : Falls first count numbers way) :
    FallsAcross first count numbers (crossing labels way) where
  onward := by
    intro cursor before after passed
    simp only [Paths.crossing] at passed ⊢
    split at passed
    next enters =>
      simpa only [enters, if_true] using falls.onward passed
    next passes =>
      cases passed.1
      exact absurd rfl passes
  stopped := by
    intro cursor before number after member elsewhere passed
    simp only [Paths.crossing] at passed ⊢
    split at passed
    next enters =>
      rw [if_pos enters]
      exact falls.stopped member passed
    next => exact absurd passed.1.symm elsewhere
  numbered := falls.numbered

theorem FallsAcross.block (labels : List String) (falls : FallsAcross first count numbers pass) :
    Falls first count numbers (block false labels pass) where
  onward := by
    intro before after rounds
    cases rounds with
    | last passed _ =>
      obtain ⟨number, member, stops⟩ := falls.onward passed
      exact ⟨number, member, .last stops (by simp)⟩
    | again allowed => cases allowed
  stopped := by
    intro before number after member rounds
    cases rounds with
    | last passed _ => exact .last (falls.stopped member (by simp) passed) (by simp)
    | again allowed => cases allowed
  numbered := falls.numbered

/-- What comes before the last statement of a list does not matter. -/
theorem FallsAcross.behind (orderly : OrderlyCrossing jumps (Numbered first count) front)
    (falls : FallsAcross (first + count) more numbers pass) :
    FallsAcross first (count + more) numbers (Checker.inTurn front pass) where
  onward := by
    intro cursor before after given
    obtain ⟨middle, store, begins, passed⟩ := given
    obtain ⟨number, member, stops⟩ := falls.onward passed
    exact ⟨number, member, middle, store, begins, stops⟩
  stopped := by
    intro cursor before number after member elsewhere given
    obtain ⟨middle, store, begins, stops⟩ := given
    refine ⟨middle, store, begins, falls.stopped member ?_ stops⟩
    rintro rfl
    rcases orderly.stops begins with inside | same
    · have behind := falls.numbered number member
      simp only [Numbered, Place.clause] at inside behind
      omega
    · exact elsewhere same
  numbered := by
    intro number member
    have := falls.numbered number member
    simp only [Numbered] at this ⊢
    omega

theorem crossing_empty {cursor stand : Cursor} {before after : Store} :
    crossing [] stay cursor before stand after ↔ stand = cursor ∧ after = before := by
  unfold crossing
  split
  next enters =>
    have same : cursor = .onward := by
      unfold Cursor.enters Cursor.seeks at enters
      split at enters
      · rfl
      · split at enters <;> simp at enters
    rw [same]
    rfl
  next => rfl

theorem crossAll_trailing {info : Info} {stmts : List Stmt} (empty : stmts.all Stmt.isEmpty = true)
    {cursor stand : Cursor} {before after : Store} :
    crossAll info false first stmts cursor before stand after ↔ stand = cursor ∧ after = before := by
  induction stmts generalizing first cursor before with
  | nil => exact Iff.rfl
  | cons stmt rest ih =>
    simp only [List.all_cons, Bool.and_eq_true] at empty
    obtain rfl : stmt = .empty := by
      cases stmt with
      | empty => rfl
      | _ => cases empty.1
    simp [crossAll, Stmt.labels, wayOf, crossing_empty, ih empty.2]

theorem Falls.clause {body next : Way} (falls : Falls (first + 1) count numbers body)
    (orderly : Orderly jumps (Numbered (first + 1) count) body) (later : Falls (first + 1 + count) more further next)
    (orderlyLater : Orderly allowed (Numbered (first + 1 + count) more) next) :
    Falls first (count + more + 1) (numbers ++ further) (clause first body next) where
  onward := by
    intro before after passed
    rcases passed with ⟨impossible, _⟩ | ⟨passed, _⟩ | ⟨middle, through, passed⟩
    · cases impossible
    · obtain ⟨number, member, stops⟩ := falls.onward passed
      exact ⟨number, List.mem_append_left _ member, .inr (.inl ⟨stops, by simp⟩)⟩
    · obtain ⟨number, member, stops⟩ := later.onward passed
      exact ⟨number, List.mem_append_right _ member, .inr (.inr ⟨middle, through, stops⟩)⟩
  stopped := by
    intro before number after member passed
    rcases passed with ⟨impossible, _⟩ | ⟨stops, _⟩ | ⟨middle, through, stops⟩
    · cases impossible
    · rcases List.mem_append.mp member with here | there
      · exact .inr (.inl ⟨falls.stopped here stops, by simp⟩)
      · exact absurd stops (later.apart orderly (.inr (Nat.le_refl _)) there)
    · rcases List.mem_append.mp member with here | there
      · exact absurd stops (falls.apart orderlyLater (.inl (Nat.le_refl _)) here)
      · exact .inr (.inr ⟨middle, through, later.stopped there stops⟩)
  numbered := falls.numbered_append later (by omega) (by omega)

theorem Falls.skip {body next : Way} (falls : Falls (first + 1) count numbers body)
    (later : Falls (first + 1 + count) more further next)
    (orderlyLater : Orderly allowed (Numbered (first + 1 + count) more) next) :
    Falls first (count + more + 1) (numbers ++ further) next where
  onward := by
    intro before after passed
    obtain ⟨number, member, stops⟩ := later.onward passed
    exact ⟨number, List.mem_append_right _ member, stops⟩
  stopped := by
    intro before number after member stops
    rcases List.mem_append.mp member with here | there
    · exact absurd stops (falls.apart orderlyLater (.inl (Nat.le_refl _)) here)
    · exact later.stopped there stops
  numbered := falls.numbered_append later (by omega) (by omega)

/-- A switch lets control past it just where it is open itself. -/
theorem Falls.switching {heads opened : List Nat} {dispatch : Store → Option Nat → Store → Prop} {inside : Nat → Way}
    (past : ∀ {before after}, dispatch before none after ↔ opened ≠ [] ∧ after = before) (own : opened ⊆ heads)
    (placed : ∀ head ∈ heads, Numbered first count head)
    (falls : ∀ index, Falls first count numbers (Paths.leaving name false (inside index)))
    (outer : ∀ head ∈ heads, ∀ index before after, ¬inside index before (.stopped (.head head)) after)
    (inner : ∀ number ∈ numbers, number ∉ heads) :
    Falls first count (opened ++ numbers) (switching name heads dispatch inside) where
  onward := by
    intro before after passed
    rcases passed with ⟨_, _, impossible, _⟩ | ⟨passed, _⟩ | ⟨index, entered, chosen, passed⟩
    · cases impossible
    · obtain ⟨isOpen, rfl⟩ := past.mp passed
      obtain ⟨head, member⟩ := List.exists_mem_of_ne_nil _ isOpen
      exact ⟨head, List.mem_append_left _ member, .inl ⟨head, own member, rfl, rfl⟩⟩
    · obtain ⟨number, member, stops⟩ := (falls index).onward passed
      exact ⟨number, List.mem_append_right _ member, .inr (.inr ⟨index, entered, chosen, stops⟩)⟩
  stopped := by
    intro before number after member passed
    rcases List.mem_append.mp member with isOpen | isInner
    -- Heads of the switch itself and heads inside its clauses have different numbers.
    · rcases passed with ⟨_, _, _, rfl⟩ | ⟨_, impossible⟩ | ⟨index, entered, _, stand, stops, out⟩
      · exact .inr (.inl ⟨past.mpr ⟨List.ne_nil_of_mem isOpen, rfl⟩, rfl⟩)
      · cases impossible
      · rw [Cursor.out_eq_stopped out] at stops
        exact absurd stops (outer number (own isOpen) index entered after)
    · rcases passed with ⟨_, head, same, _⟩ | ⟨_, impossible⟩ | ⟨index, entered, chosen, stops⟩
      · cases same
        exact absurd head (inner number isInner)
      · cases impossible
      · exact .inr (.inr ⟨index, entered, chosen, (falls index).stopped isInner stops⟩)
  numbered := by
    intro number member
    rcases List.mem_append.mp member with isOpen | isInner
    · exact placed number (own isOpen)
    · exact (falls 0).numbered number isInner

theorem not_chooses_none {tag : Option Expr} {clauses : List CaseClause}
    (default : clauses.any (·.cases.isNone) = true) : ¬Chooses tag clauses none := by
  intro chosen
  obtain ⟨clause, member, isDefault⟩ := List.any_eq_true.mp default
  cases known : staticChoice tag clauses with
  | none =>
    have cases : clause.cases.isSome = true := by
      simp only [Chooses, known] at chosen
      exact chosen clause member
    simp [Option.isNone_iff_eq_none.mp isDefault] at cases
  | some choice =>
    simp only [Chooses, known] at chosen
    subst chosen
    have missing : clauses.findIdx? (·.cases.isNone) = none := by
      cases tag with
      | none =>
        obtain ⟨_, _, missing⟩ := Option.bind_eq_some_iff.mp known
        exact (Option.or_eq_none_iff.mp (Option.some.inj missing)).2
      | some tag =>
        obtain ⟨_, _, known⟩ := Option.bind_eq_some_iff.mp known
        obtain ⟨_, _, missing⟩ := Option.bind_eq_some_iff.mp known
        exact (Option.or_eq_none_iff.mp (Option.some.inj missing)).2
    simp [List.findIdx?_eq_none_iff.mp missing clause member] at isDefault

theorem wayOfCases_inside {info : Info} {visible : List String} {clauses : List CaseClause}
    (legality : legalCases info visible clauses = true) {head : Nat} (member : head ∈ headNumbers first clauses)
    (index : Nat) (before after : Store) :
    ¬wayOfCases info false first clauses index before (.stopped (.head head)) after := by
  induction clauses generalizing first index before with
  | nil => cases member
  | cons clause rest ih =>
    obtain ⟨pos, cases, binding, body⟩ := clause
    simp only [legalCases, Bool.and_eq_true] at legality
    have here : Orderly _ (Numbered (first + 1) _) (Checker.blockWay info (first + 1) body) :=
      Checker.blockWay_orderly legality.1
    have later index := wayOfCases_orderly false (first + 1 + (Traversal.clausesOfStmts body).length) rest index
      legality.2
    -- A later head lies behind the clause, so what stops there comes from the rest.
    have ahead : head < first + 1 ∨ first + 1 + (Traversal.clausesOfStmts body).length ≤ head := by
      rcases List.mem_cons.mp member with rfl | behind
      · exact .inl (Nat.lt_succ_self _)
      · exact .inr (headNumbers_numbered behind).1
    have further index before : ¬wayOfCases info false (first + 1 + (Traversal.clausesOfStmts body).length) rest index
        before (.stopped (.head head)) after := by
      rcases List.mem_cons.mp member with rfl | behind
      · intro stops
        have := (later index).stops stops
        simp only [Numbered, Place.clause] at this
        omega
      · exact ih legality.2 behind index before
    cases index with
    | succ index => exact further index before
    | zero =>
      intro passed
      rcases passed with ⟨impossible, _⟩ | ⟨stops, _⟩ | ⟨middle, _, stops⟩
      · cases impossible
      · have := here.stops stops
        simp only [Numbered, Place.clause] at this
        omega
      · exact further 0 middle stops

theorem breaks_eq_false {jumps : List Jump} {numbers : Nat → Prop} (orderly : Orderly (· ∈ jumps) numbers way)
    (unbroken : (!jumps.any (·.breaks name)) = true) {before after : Store} {jump : Jump}
    (left : way before (.leaving jump) after) : jump.breaks name = false := by
  rw [Bool.not_eq_true', List.any_eq_false] at unbroken
  simpa using unbroken jump (orderly.leaves left)

variable {info : Info}

mutual

/-- Control passes a terminating statement only where an open type switch lets it. -/
theorem wayOf_falls {visible : List String} (falls : Bool) (name : String) (first : Nat) : ∀ (stmt : Stmt),
    legal info visible stmt = true → terminates info falls name stmt = true →
      Falls first (Traversal.clausesOfStmt stmt).length (openSwitches info first stmt)
        (wayOf info false name first stmt)
  | .block body, legality, ends => (crossAll_falls false first body legality ends).block (ownLabels body)
  | .expr expr, _, ends => by
    refine .never fun before after passed => ?_
    simp only [wayOf, Info.neverReturns_of_callsPanic ends, if_true] at passed
    exact passed
  | .return _, _, _ => .never fun _ _ => id
  | .jump jump, _, _ => by
    refine .never fun before after passed => ?_
    cases passed.1
  | .labeled label stmt, legality, ends => wayOf_falls falls label first stmt legality ends
  | .cond init condition body otherwise, legality, ends => by
    simp only [legal, terminates, Bool.and_eq_true] at legality ends
    obtain ⟨⟨⟨simple, legalBody⟩, isElse⟩, legalElse⟩ := legality
    have whenTrue := (crossAll_falls false first body legalBody ends.1).block (ownLabels body)
    have whenFalse := wayOf_falls false "" (first + (Traversal.clausesOfStmts body).length) otherwise legalElse ends.2
    have joined := Falls.or (condition.mayBe true = true) (condition.mayBe false = true) whenTrue
      (Checker.blockWay_orderly legalBody) whenFalse (wayOf_orderly false "" _ otherwise legalElse)
    rw [Traversal.clausesOfStmt, List.length_append]
    exact Falls.andThen (Checker.straight_simple simple) joined
  | .loop init condition post body, legality, ends => by
    simp only [legal, terminates, Bool.and_eq_true, Option.isNone_iff_eq_none] at legality ends
    obtain ⟨rfl, unbroken⟩ := ends
    refine Falls.andThen (Checker.straight_simple legality.1.1) (.never ?_)
    exact not_looping_onward (breaks_eq_false (Checker.blockWay_orderly legality.2) unbroken)
  | .select clauses, legality, ends => by
    simp only [terminates, Bool.and_eq_true] at ends
    have any := wayOfComms_falls first clauses legality ends.2
    exact any.leaving (breaks_eq_false (wayOfComms_orderly false first clauses legality) ends.1)
  | .switch init tag clauses, legality, ends => by
    simp only [legal, terminates, Bool.and_eq_true] at legality ends
    obtain ⟨⟨simple, _⟩, legalClauses⟩ := legality
    obtain ⟨⟨default, unbroken⟩, ends⟩ := ends
    obtain ⟨inside, inner⟩ := wayOfCases_falls first clauses legalClauses ends
    have past {before after : Store} :
        (Chooses tag clauses none ∧ after = before) ↔ ([] : List Nat) ≠ [] ∧ after = before := by
      simp [not_chooses_none default]
    refine Falls.andThen (Checker.straight_simple simple) ?_
    exact Falls.switching past (List.nil_subset _) (fun _ => headNumbers_numbered)
      (fun index => (inside index).leaving (breaks_eq_false (wayOfCases_orderly false _ _ index legalClauses) unbroken))
      (fun _ => wayOfCases_inside legalClauses) inner
  | .typeSwitch init guard clauses, legality, ends => by
    simp only [legal, terminates, Bool.and_eq_true] at legality ends
    obtain ⟨⟨⟨⟨simple, _⟩, _⟩, _⟩, legalClauses⟩ := legality
    obtain ⟨⟨default, unbroken⟩, ends⟩ := ends
    obtain ⟨inside, inner⟩ := wayOfCases_falls first clauses legalClauses ends
    -- A default clause does not keep control from passing an open switch.
    have past {before after : Store} : Matches info guard clauses before none after ↔
        (if isComplete info guard clauses then [] else [first]) ≠ [] ∧ after = before := by
      cases complete : isComplete info guard clauses <;> simp [Matches, complete]
    have own : (if isComplete info guard clauses then [] else [first]) ⊆ headNumbers first clauses := by
      cases clauses with
      | nil => cases default
      | cons clause rest => split <;> simp [headNumbers]
    refine Falls.andThen (Checker.straight_simple simple) ?_
    exact Falls.switching past own (fun _ => headNumbers_numbered)
      (fun index => (inside index).leaving (breaks_eq_false (wayOfCases_orderly false _ _ index legalClauses) unbroken))
      (fun _ => wayOfCases_inside legalClauses) inner
  | .empty, _, ends | .assign _ _, _, ends | .eval _, _, ends | .declare _ _, _, ends
  | .range _ _ _ _ _, _, ends => by cases ends
termination_by structural stmt => stmt

theorem crossAll_falls {visible : List String} (falls : Bool) (first : Nat) : ∀ (stmts : List Stmt),
    legalAll info visible stmts = true → terminatesAll info falls stmts = true →
      FallsAcross first (Traversal.clausesOfStmts stmts).length (openSwitchesAll info first stmts)
        (crossAll info false first stmts)
  | [], _, ends => by cases ends
  | stmt :: rest, legality, ends => by
    simp only [legalAll, Bool.and_eq_true] at legality
    simp only [terminatesAll, openSwitchesAll] at ends ⊢
    by_cases last : rest.all Stmt.isEmpty = true
    · rw [if_pos last] at ends ⊢
      have here := (wayOf_falls falls "" first stmt legality.1 ends).crossing stmt.labels
      -- Only empty statements follow, and they change nothing.
      have same : crossAll info false first (stmt :: rest) = crossing stmt.labels (wayOf info false "" first stmt) := by
        funext cursor before stand after
        simp [crossAll, crossAll_trailing last]
      rw [same]
      refine ⟨here.onward, here.stopped, fun number member => ?_⟩
      have := here.numbered number member
      simp only [Numbered, Traversal.clausesOfStmts, List.length_append] at this ⊢
      omega
    · rw [if_neg last] at ends ⊢
      have later := crossAll_falls falls (first + (Traversal.clausesOfStmt stmt).length) rest legality.2 ends
      rw [Traversal.clausesOfStmts, List.length_append]
      exact .behind ((wayOf_orderly false "" first stmt legality.1).crossing stmt.labels) later
termination_by structural stmts => stmts

theorem wayOfCases_falls {visible : List String} (first : Nat) : ∀ (clauses : List CaseClause),
    legalCases info visible clauses = true → terminatesCases info clauses = true →
      (∀ index, Falls first (Traversal.clausesOfCases clauses).length (openSwitchesCases info first clauses)
        (wayOfCases info false first clauses index)) ∧
      ∀ number ∈ openSwitchesCases info first clauses, number ∉ headNumbers first clauses
  | [], _, _ => ⟨fun _ => .never fun _ _ => id, by simp [openSwitchesCases]⟩
  | ⟨pos, cases, binding, body⟩ :: rest, legality, ends => by
    simp only [legalCases, terminatesCases, Bool.and_eq_true] at legality ends
    have here := (crossAll_falls true (first + 1) body legality.1 ends.1).block (ownLabels body)
    obtain ⟨later, inner⟩ := wayOfCases_falls (first + 1 + (Traversal.clausesOfStmts body).length) rest legality.2 ends.2
    have order : Orderly _ (Numbered (first + 1) _) (Checker.blockWay info (first + 1) body) :=
      Checker.blockWay_orderly legality.1
    have orderLater index := wayOfCases_orderly false (first + 1 + (Traversal.clausesOfStmts body).length) rest index
      legality.2
    rw [Traversal.clausesOfCases, List.length_cons, List.length_append]
    constructor
    · intro index
      cases index with
      | zero => exact here.clause order (later 0) (orderLater 0)
      | succ index => exact here.skip (later index) (orderLater index)
    · intro number member head
      rcases List.mem_append.mp member with inBody | behind
      · have inside := here.numbered number inBody
        rcases List.mem_cons.mp head with rfl | further
        · simp only [Numbered] at inside
          omega
        · have := headNumbers_numbered further
          simp only [Numbered] at inside this
          omega
      · rcases List.mem_cons.mp head with rfl | further
        · have := (later 0).numbered number behind
          simp only [Numbered] at this
          omega
        · exact inner number behind further
termination_by structural clauses => clauses

theorem wayOfComms_falls {visible : List String} (first : Nat) : ∀ (clauses : List CommClause),
    legalComms info visible clauses = true → terminatesComms info clauses = true →
      Falls first (Traversal.clausesOfComms clauses).length (openSwitchesComms info first clauses)
        (wayOfComms info false first clauses)
  | [], _, _ => .never fun _ _ => id
  | ⟨comm, body⟩ :: rest, legality, ends => by
    simp only [legalComms, terminatesComms, Bool.and_eq_true] at legality ends
    obtain ⟨⟨simple, legalBody⟩, legalRest⟩ := legality
    have here := (crossAll_falls false first body legalBody ends.1).block (ownLabels body)
    have later := wayOfComms_falls (first + (Traversal.clausesOfStmts body).length) rest legalRest ends.2
    have order : Orderly _ _ (andThen (wayOf info false "" first comm) (Checker.blockWay info first body)) :=
      (wayOf_simple simple).andThen (Checker.blockWay_orderly legalBody)
    have joined := Falls.or True True (Falls.andThen (Checker.straight_simple simple) here) order later
      (wayOfComms_orderly false _ rest legalRest)
    rw [Traversal.clausesOfComms, List.length_append]
    simp only [true_and] at joined
    exact joined
termination_by structural clauses => clauses

end

end Paths

namespace Checker

open Source Paths

/-- At the end of a function with a terminating body there is no control, unless an open type switch at one of
its ends is reached. -/
theorem exit_of_terminating {info : Info} {body : List Stmt} (formed : WellFormed info body)
    (ends : terminatesAll info false body = true) :
    ∃ result, checkFunction info body = .ok result ∧
      (result.exit.isReachable = true ↔
        ∃ number ∈ openSwitchesAll info 0 body, ∃ arrival, result.arrivals[number]? = some arrival ∧
          arrival.live = true) := by
  obtain ⟨result, checked, reflects⟩ := checkFunction_reflects formed
  have falls := (crossAll_falls false 0 body formed.legal ends).block (ownLabels body)
  refine ⟨result, checked, ?_⟩
  rw [reflects.exit.reachable]
  constructor
  · intro given
    obtain ⟨store, path⟩ := given
    obtain ⟨number, member, stops⟩ := falls.onward path
    have inside : number < result.arrivals.length := by
      have := (falls.numbered number member).2
      have := reflects.arrivals.length
      omega
    have found : result.arrivals[number]? = some result.arrivals[number] := List.getElem?_eq_getElem inside
    refine ⟨number, member, _, found, (reflects.arrivals.live found).mpr ⟨store, ?_⟩⟩
    rw [Nat.zero_add]
    exact stops
  · intro given
    obtain ⟨number, member, arrival, found, live⟩ := given
    obtain ⟨store, stops⟩ := (reflects.arrivals.live found).mp live
    rw [Nat.zero_add] at stops
    exact ⟨store, falls.stopped member stops⟩

/-- Both clauses of this type switch return, and one is the default clause. -/
def openDefault : List Stmt :=
  let subject : Expr := .ident (some (.known (some 0) none)) none (some 0)
  let case : Expr := .ident (some (.known (some 1) none)) none (some 1)
  [.typeSwitch .empty (.expr (.assertion none subject none))
    [⟨30, some [case], none, [.return []]⟩, ⟨50, none, none, [.return []]⟩]]

def oneInterface : Info :=
  ⟨"main", ⟨#[.interface [] [], .basic "int"]⟩, #[⟨.var, "x", some 0, "", false⟩, ⟨.type, "int", some 1, "", false⟩]⟩

theorem openDefault_formed : WellFormed oneInterface openDefault := by decide +kernel

theorem openDefault_terminates : terminatesAll oneInterface false openDefault = true := by decide +kernel

theorem openDefault_reachable {result : Result} (checked : checkFunction oneInterface openDefault = .ok result) :
    result.exit.isReachable = true := by
  have evaluated : (checkFunction oneInterface openDefault).toOption.map (·.exit.isReachable) = some true := by
    decide +kernel
  rw [checked] at evaluated
  exact Option.some.inj evaluated

theorem openDefault_live : ∃ result, checkFunction oneInterface openDefault = .ok result ∧
    ∃ number ∈ openSwitchesAll oneInterface 0 openDefault, ∃ arrival, result.arrivals[number]? = some arrival ∧
      arrival.live = true := by
  obtain ⟨result, checked, reachable⟩ := exit_of_terminating openDefault_formed openDefault_terminates
  exact ⟨result, checked, reachable.mp (openDefault_reachable checked)⟩

/-- Control seems to come to the end of a function with a terminating body. -/
theorem openDefault_falls : WellFormed oneInterface openDefault ∧
    terminatesAll oneInterface false openDefault = true ∧
    ∃ result, checkFunction oneInterface openDefault = .ok result ∧ result.exit.isReachable = true := by
  obtain ⟨result, checked, _⟩ := checkFunction_reflects openDefault_formed
  exact ⟨openDefault_formed, openDefault_terminates, result, checked, openDefault_reachable checked⟩

end Checker

end ClauseReach
