import ClauseReach.Proofs.Balance
import ClauseReach.Proofs.Surroundings

/-!
What a jump refers to. The layers around a place tell which statements enclose it, under which names, and in which
clauses of its switches it stands. When a walk comes to the place, the frames on the stack are those of the enclosing
statements, one for each, innermost first, on top of the frames from before the walk. A switch stands at the clause of
the place, whatever switches were walked earlier in the clause. So a jump there goes to the statement that the rules
of scope name.
-/

namespace ClauseReach.Source

open Checker (takesLabel)

/-- The kinds of statements that jumps refer to. A switch has clauses, and one of them is the one inside. -/
inductive Enclosure.Kind where
  | loop
  | select
  | switch (clauses : List CaseClause) (index : Nat)
  | typeSwitch (clauses : List CaseClause) (index : Nat)

structure Enclosure where
  name : String
  kind : Enclosure.Kind

namespace Enclosure

def isLoop (enclosure : Enclosure) : Bool :=
  match enclosure.kind with
  | .loop => true
  | _ => false

def index? (enclosure : Enclosure) : Option Nat :=
  match enclosure.kind with
  | .switch _ index | .typeSwitch _ index => some index
  | _ => none

end Enclosure

namespace Layer

/-- What the layer is to jumps in its gap, where `inner` stands. -/
def enclosure? (name : String) (inner : Stmt) : Layer → Option Enclosure
  | .loop .. | .range .. => some ⟨name, .loop⟩
  | .select .. => some ⟨name, .select⟩
  | .switch _ _ earlier clause before after later =>
    some ⟨name, .switch (clauses earlier clause before inner after later) earlier.length⟩
  | .typeSwitch _ _ earlier clause before after later =>
    some ⟨name, .typeSwitch (clauses earlier clause before inner after later) earlier.length⟩
  | .block .. | .labeled _ | .whenTrue .. | .whenFalse .. => none

def naming (inner : Stmt) : Layer → String
  | .labeled label => if takesLabel inner then label else ""
  | _ => ""

theorem naming_taken (layer : Layer) (inner : Stmt) : takesLabel inner = true ∨ layer.naming inner = "" := by
  cases layer with
  | labeled label => cases taken : takesLabel inner <;> simp [naming, taken]
  | _ => exact .inr rfl

end Layer

/-- The statements around the gap that jumps refer to, innermost first. The outermost layer has this name. -/
def enclosures (stmt : Stmt) (name : String) : List Layer → List Enclosure
  | [] => []
  | layer :: rest =>
    enclosures stmt (layer.naming (fillAll stmt rest)) rest ++ (layer.enclosure? name (fillAll stmt rest)).toList

def nameInside (stmt : Stmt) (name : String) : List Layer → String
  | [] => name
  | layer :: rest => nameInside stmt (layer.naming (fillAll stmt rest)) rest

/-- The enclosing statement that a jump refers to, by its place among them: the innermost one for a `break` or a
`fallthrough`, the innermost loop for a `continue`, and the one with the name if a name is given. -/
def Jump.place? (around : List Enclosure) : Jump → Option Nat
  | .break none | .fallthrough => around.findIdx? fun _ => true
  | .continue none => around.findIdx? (·.isLoop)
  | .break (some name) | .continue (some name) => around.findIdx? (·.name = name)
  | .goto _ | .other => none

end ClauseReach.Source

namespace ClauseReach.Checker

open Source StateAlgebra

/-- The frame belongs to the enclosing statement: it has its name and labels of its own, and a switch has the labels of
all its clauses and stands at the one inside. -/
inductive Stands : Enclosure → Frame → Prop
  | loop (serial : Nat) (name : String) : Stands ⟨name, .loop⟩ (newLoop serial name)
  | select (serial : Nat) (name : String) : Stands ⟨name, .select⟩ (newSelect serial name)
  | switch (serial : Nat) (name : String) (clauses : List CaseClause) (index : Nat) (live : Bool) :
      Stands ⟨name, .switch clauses index⟩
        ((newSwitch serial name (SwitchPlan.entrancesFrom (serial + 1) clauses) live).at index)
  | typeSwitch (serial : Nat) (name : String) (clauses : List CaseClause) (index : Nat) (live : Bool) :
      Stands ⟨name, .typeSwitch clauses index⟩
        ((newSwitch serial name (TypeSwitchPlan.entrancesFrom (serial + 1) clauses) live).at index)

theorem Stands.label {enclosure : Enclosure} {frame : Frame} (stands : Stands enclosure frame) :
    frame.label = enclosure.name := by
  cases stands <;> rfl

theorem Stands.cont {enclosure : Enclosure} {frame : Frame} (stands : Stands enclosure frame) :
    frame.cont.isSome = enclosure.isLoop := by
  cases stands <;> rfl

theorem Stands.current {enclosure : Enclosure} {frame : Frame} (stands : Stands enclosure frame) {index : Nat}
    (inside : enclosure.index? = some index) : frame.current = index := by
  cases stands <;> cases inside <;> rfl

/-! ### Walks around a gap -/

section Gaps

variable {info : Info} {stmt : Stmt} {act : CheckM Unit} {frames : List Frame} {name : String}

theorem stays_between (before after : List Stmt) (inside : Stays ⟨frames, ""⟩ act) :
    Stays ⟨frames, ""⟩ (walkBetween info before act after) :=
  (walkAll_stays before).andThen fun _ => inside.andThen fun _ => walkAll_stays after

theorem getElem?_middle {first rest : List (CheckM Unit)} {index : Nat} {body : CheckM Unit}
    (listed : (first ++ act :: rest)[index]? = some body) :
    body ∈ first ∨ (index = first.length ∧ body = act) ∨ body ∈ rest := by
  rcases Nat.lt_trichotomy index first.length with before | here | behind
  · rw [List.getElem?_append_left before] at listed
    exact .inl (List.mem_of_getElem? listed)
  · subst here
    rw [List.getElem?_append_right (Nat.le_refl _), Nat.sub_self] at listed
    cases listed
    exact .inr (.inl ⟨rfl, rfl⟩)
  · rw [List.getElem?_append_right (by omega), List.getElem?_cons, if_neg (by omega)] at listed
    exact .inr (.inr (List.mem_of_getElem? listed))

theorem stays_clauses {earlier later : List CaseClause} {before after : List Stmt} {frame : Frame}
    (inside : Stays ⟨frame.at earlier.length :: frames, ""⟩ act)
    {index : Nat} {body : CheckM Unit} (listed :
      (walkCases info earlier ++ walkBetween info before act after :: walkCases info later)[index]? = some body) :
    Stays ⟨frame.at index :: frames, ""⟩ body := by
  rcases getElem?_middle listed with early | ⟨here, rfl⟩ | late
  · exact walkCases_stays earlier body early
  · rw [walkCases_length] at here
    subst here
    exact stays_between before after inside
  · exact walkCases_stays later body late

theorem ends_layer (layer : Layer) (taken : takesLabel (layer.fill stmt) = true ∨ name = "")
    (inside : ∀ pushed, List.Forall₂ Stands (layer.enclosure? name stmt).toList pushed →
      Ends ⟨pushed ++ frames, layer.naming stmt⟩ act ⟨pushed ++ frames, ""⟩) :
    Ends ⟨frames, name⟩ (walkLayer info stmt act layer) ⟨frames, ""⟩ := by
  cases layer with
  | block before after =>
    cases taken.resolve_left Bool.false_ne_true
    exact stays_between before after (inside [] .nil)
  | labeled label =>
    cases taken.resolve_left Bool.false_ne_true
    exact stays_labeled (inside [] .nil)
  | whenTrue init condition before after otherwise =>
    cases taken.resolve_left Bool.false_ne_true
    refine (walk_ends init (.inr rfl)).andThen fun _ => ?_
    exact stays_choose condition (stays_between before after (inside [] .nil)) (walk_ends otherwise (.inr rfl))
  | whenFalse init condition body =>
    cases taken.resolve_left Bool.false_ne_true
    refine (walk_ends init (.inr rfl)).andThen fun _ => ?_
    exact stays_choose condition (walkAll_stays body) (inside [] .nil)
  | loop init condition post before after =>
    apply ends_loop condition (walk_ends init (.inr rfl)) _ (walk_ends post (.inr rfl))
    intro serial
    exact stays_between before after (inside [newLoop serial name] (.cons (.loop serial name) .nil))
  | range assigns key value operand before after =>
    apply ends_range
    · split
      · exact steady_assignAll _
      · exact .pure ()
    · intro serial
      exact stays_between before after (inside [newLoop serial name] (.cons (.loop serial name) .nil))
  | select earlier comm before after later =>
    apply ends_select
    intro clause listed serial
    rcases List.mem_append.mp listed with early | rest
    · exact walkComms_stays earlier clause early
    rcases List.mem_cons.mp rest with rfl | late
    · refine (walk_ends comm (.inr rfl)).andThen fun _ => ?_
      exact stays_between before after (inside [newSelect serial name] (.cons (.select serial name) .nil))
    · exact walkComms_stays later clause late
  | switch init tag earlier clause before after later =>
    apply ends_switch (walk_ends init (.inr rfl))
    intro index body listed serial live
    exact stays_clauses (inside [_] (.cons (.switch serial name _ earlier.length live) .nil)) listed
  | typeSwitch init guard earlier clause before after later =>
    apply ends_typeSwitch (walk_ends init (.inr rfl))
    intro index body listed serial live
    exact stays_clauses (inside [_] (.cons (.typeSwitch serial name _ earlier.length live) .nil)) listed

theorem ends_layers (layers : List Layer) (taken : takesLabel (fillAll stmt layers) = true ∨ name = "")
    (inside : ∀ inner, List.Forall₂ Stands (enclosures stmt name layers) inner →
      Ends ⟨inner ++ frames, nameInside stmt name layers⟩ act ⟨inner ++ frames, ""⟩) :
    Ends ⟨frames, name⟩ (walkLayers info stmt act layers) ⟨frames, ""⟩ := by
  induction layers generalizing frames name with
  | nil => exact inside [] .nil
  | cons layer rest ih =>
    apply ends_layer layer taken
    intro pushed outermost
    apply ih (layer.naming_taken _)
    intro inner within
    have whole := inside (inner ++ pushed) (List.rel_append within outermost)
    rwa [List.append_assoc] at whole

end Gaps

/-! ### The scope at the gap -/

/-- A computation that tells by its fault whether it runs in an expected scope. -/
noncomputable def inspect (expected : Scope → Prop) : CheckM Unit := fun session =>
  open Classical in .error (if expected session.own.scope then .absentLabel else .nothingToLeave) session

theorem ends_inspect {expected : Scope → Prop} {scope : Scope} (meets : expected scope) (later : Scope) :
    Ends scope (inspect expected) later := by
  intro session same
  constructor
  · intro value after ended
    cases ended
  · intro fault after failed
    cases failed
    rw [same, if_pos meets]
    rfl

/-- A gap that is entered in an unexpected scope lets a fault of the stack through. -/
theorem Comes.scope {context : CheckM Unit → CheckM Unit} {start here : Session Assigned Walker}
    {expected : Scope → Prop} {last : Scope} (comes : Comes context start here)
    (ends : ∀ act : CheckM Unit, (∀ scope, expected scope → ∀ later, Ends scope act later) →
      Ends start.own.scope (context act) last) : expected here.own.scope := by
  by_contra elsewhere
  obtain ⟨later, comes⟩ := comes
  have inspected : inspect expected here = .error .nothingToLeave here := by
    unfold inspect
    rw [if_neg elsewhere]
  have failed := (comes (inspect expected)).trans (Analysis.bind_error inspected)
  have apart := (ends (inspect expected) (fun _ meets => ends_inspect meets) start rfl).2 _ _ failed
  cases apart

def Lies (around : List Enclosure) (frames : List Frame) (name : String) (scope : Scope) : Prop :=
  ∃ inner, List.Forall₂ Stands around inner ∧ scope = ⟨inner ++ frames, name⟩

section Places

variable {info : Info} {stmt : Stmt} {layers : List Layer} {start here : Session Assigned Walker}

theorem scope_of_unnamed (unnamed : start.own.attached = "") : start.own.scope = ⟨start.own.frames, ""⟩ := by
  rw [← unnamed]
  rfl

/-- Where a walk comes to a place, the frames of the statements around it lie on those from before the walk. -/
theorem Comes.lies (comes : Comes (fun act => walkLayers info stmt act layers) start here)
    (unnamed : start.own.attached = "") :
    Lies (enclosures stmt "" layers) start.own.frames (nameInside stmt "" layers) here.own.scope := by
  apply comes.scope
  intro act meets
  rw [scope_of_unnamed unnamed]
  apply ends_layers layers (.inr rfl)
  intro inner within
  exact meets _ ⟨inner, within, rfl⟩ _

end Places

/-! ### Jumps -/

def Frame.take (frame : Frame) : Jump → CheckM Unit
  | .break _ => Analysis.branch (some frame.brk)
  | .continue _ => Analysis.branch frame.cont
  | .fallthrough =>
    match frame.sections[frame.current + 1]? with
    | some (label :: _) => Analysis.branch (some label)
    | some [] => throw .emptyCase
    | none => pure ()
  | .goto _ | .other => pure ()

section Jumps

variable {around : List Enclosure} {inner outer : List Frame} {place : Nat}

theorem find?_of_findIdx? {sought : Enclosure → Bool} {fits : Frame → Bool} (outer : List Frame)
    (within : List.Forall₂ Stands around inner)
    (agree : ∀ enclosure frame, Stands enclosure frame → fits frame = sought enclosure)
    (found : around.findIdx? sought = some place) :
    ∃ frame, inner[place]? = some frame ∧ (inner ++ outer).find? fits = some frame := by
  induction within generalizing place with
  | nil => cases found
  | @cons enclosure frame around inner stands within ih =>
    rw [List.findIdx?_cons] at found
    rw [List.cons_append, List.find?_cons, agree enclosure frame stands]
    cases here : sought enclosure with
    | true =>
      rw [here] at found
      cases found
      exact ⟨frame, rfl, rfl⟩
    | false =>
      rw [here] at found
      obtain ⟨further, later, rfl⟩ := Option.map_eq_some_iff.mp found
      exact ih later

theorem find?_of_findIdx?_eq_none {sought : Enclosure → Bool} {fits : Frame → Bool}
    (within : List.Forall₂ Stands around inner)
    (agree : ∀ enclosure frame, Stands enclosure frame → fits frame = sought enclosure)
    (absent : around.findIdx? sought = none) : (inner ++ outer).find? fits = outer.find? fits := by
  induction within with
  | nil => rfl
  | @cons enclosure frame around inner stands within ih =>
    rw [List.findIdx?_eq_none_iff, List.forall_mem_cons] at absent
    rw [List.cons_append, List.find?_cons, agree enclosure frame stands, absent.1]
    exact ih (List.findIdx?_eq_none_iff.mpr absent.2)

theorem head?_of_findIdx? (outer : List Frame) (within : List.Forall₂ Stands around inner)
    (found : (around.findIdx? fun _ => true) = some place) :
    ∃ frame, inner[place]? = some frame ∧ (inner ++ outer).head? = some frame := by
  cases within with
  | nil => cases found
  | cons stands within =>
    cases found
    exact ⟨_, rfl, rfl⟩

theorem current_of_head? (within : List.Forall₂ Stands around inner) {index : Nat}
    (inside : around.head?.bind Enclosure.index? = some index) :
    (inner ++ outer).head?.map Frame.current = some index := by
  cases within with
  | nil => cases inside
  | cons stands within => exact congrArg some (stands.current inside)

theorem named_of_findIdx? (outer : List Frame) (within : List.Forall₂ Stands around inner) {name : String}
    (found : (around.findIdx? (·.name = name)) = some place) :
    ∃ frame, inner[place]? = some frame ∧ (inner ++ outer).find? (·.label = name) = some frame := by
  apply find?_of_findIdx? outer within _ found
  intro enclosure frame stands
  rw [stands.label]

theorem jump_takes {session : Session Assigned Walker} (stack : session.own.frames = inner ++ outer)
    (within : List.Forall₂ Stands around inner) {jump : Jump} (refers : jump.place? around = some place) :
    ∃ frame, inner[place]? = some frame ∧
      Checker.jump jump session = (do frame.take jump; Analysis.setUnreachable) session := by
  have looked : frames session = .ok (inner ++ outer) session := stack ▸ rfl
  cases jump with
  | «break» label =>
    obtain ⟨frame, placed, found⟩ : ∃ frame, inner[place]? = some frame ∧
        breakFrame? label (inner ++ outer) = some frame := by
      cases label with
      | none => exact head?_of_findIdx? outer within refers
      | some name => exact named_of_findIdx? outer within refers
    refine ⟨frame, placed, (Analysis.bind_ok looked).trans ?_⟩
    rw [found]
    rfl
  | «continue» label =>
    obtain ⟨frame, placed, found⟩ : ∃ frame, inner[place]? = some frame ∧
        continueFrame? label (inner ++ outer) = some frame := by
      cases label with
      | none => exact find?_of_findIdx? outer within (fun _ _ stands => stands.cont) refers
      | some name => exact named_of_findIdx? outer within refers
    refine ⟨frame, placed, (Analysis.bind_ok looked).trans ?_⟩
    rw [found]
    rfl
  | «fallthrough» =>
    obtain ⟨frame, placed, top⟩ := head?_of_findIdx? outer within refers
    refine ⟨frame, placed, (Analysis.bind_ok looked).trans ?_⟩
    have next : nextSection? (inner ++ outer) = frame.sections[frame.current + 1]? := by
      rw [nextSection?, top]
      rfl
    rw [next, Frame.take]
    cases frame.sections[frame.current + 1]? with
    | none => rfl
    | some labels => cases labels <;> rfl
  | goto label => cases refers
  | other => cases refers

/-- A jump that refers to none of the enclosing statements goes where it goes from outside of them. -/
theorem target_beyond (within : List.Forall₂ Stands around inner) {jump : Jump} (beyond : jump.place? around = none) :
    target (inner ++ outer) jump = target outer jump := by
  have named (name : String) (absent : around.findIdx? (·.name = name) = none) :
      (inner ++ outer).find? (·.label = name) = outer.find? (·.label = name) :=
    find?_of_findIdx?_eq_none within (fun _ _ stands => by rw [stands.label]) absent
  have alone (absent : (around.findIdx? fun _ => true) = none) : inner = [] := by
    cases within with
    | nil => rfl
    | cons stands within => cases absent
  cases jump with
  | «break» label =>
    cases label with
    | none => rw [alone beyond, List.nil_append]
    | some name => simp only [target, breakFrame?, named name beyond]
  | «continue» label =>
    cases label with
    | none =>
      simp only [target, continueFrame?, find?_of_findIdx?_eq_none within (fun _ _ stands => stands.cont) beyond]
    | some name => simp only [target, continueFrame?, named name beyond]
  | «fallthrough» => rw [alone beyond, List.nil_append]
  | goto label => rfl
  | other => rfl

end Jumps

/-! ### Balance -/

/-- The frames are there again where the computation ends, no name is left waiting, and the stack does not stop it. -/
structure Restores (start : Session Assigned Walker) (act : CheckM Unit) : Prop where
  ends : ∀ after, act start = .ok () after → after.own.frames = start.own.frames ∧ after.own.attached = ""
  faults : ∀ fault after, act start = .error fault after → fault.ofStack = false

theorem restores_of_stays {start : Session Assigned Walker} {act : CheckM Unit} (unnamed : start.own.attached = "")
    (ends : Stays ⟨start.own.frames, ""⟩ act) : Restores start act := by
  obtain ⟨went, failed⟩ := ends start (scope_of_unnamed unnamed)
  refine ⟨fun after ended => ?_, fun fault after stopped => Fault.ofStack_of_not_isInternal (failed fault after stopped)⟩
  have same := went () after ended
  exact ⟨congrArg Scope.frames same, congrArg Scope.attached same⟩

/-- The stack of frames is balanced. From any frames, if no name waits, the walk of a statement or of a list leaves all
frames as they were, and no name waits again. When the walk comes to a place in the statement, the stack has one
frame for each statement that encloses the place, under its name, on top of the frames from before. In a clause of a
switch the top frame stands at this clause, also behind other switches in it. A jump at the place goes to the frame
of the statement that it refers to; if this is none of those around, it goes where it would have gone before. -/
theorem frames_balanced (info : Info) {start : Session Assigned Walker} (unnamed : start.own.attached = "") :
    (∀ stmt, Restores start (walk info stmt)) ∧
    (∀ stmts, Restores start (walkAll info stmts)) ∧
    ∀ stmt layers,
      (∃ fault after, ∀ act, walkLayers info stmt act layers start = .error fault after) ∨
      ∃ here inner, Comes (fun act => walkLayers info stmt act layers) start here ∧
        here.own.frames = inner ++ start.own.frames ∧
        List.Forall₂ Stands (enclosures stmt "" layers) inner ∧
        here.own.attached = nameInside stmt "" layers ∧
        (∀ index, (enclosures stmt "" layers).head?.bind Enclosure.index? = some index →
          here.own.frames.head?.map Frame.current = some index) ∧
        (∀ (jump : Jump) place, jump.place? (enclosures stmt "" layers) = some place →
          ∃ frame, inner[place]? = some frame ∧
            Checker.jump jump here = (do frame.take jump; Analysis.setUnreachable) here) ∧
        ∀ jump : Jump, jump.place? (enclosures stmt "" layers) = none →
          target here.own.frames jump = target start.own.frames jump := by
  refine ⟨fun stmt => restores_of_stays unnamed (walk_ends stmt (.inr rfl)),
    fun stmts => restores_of_stays unnamed (walkAll_stays stmts), ?_⟩
  intro stmt layers
  rcases walkLayers_reaches layers start with faults | ⟨here, comes⟩
  · exact .inl faults
  · obtain ⟨inner, within, same⟩ := comes.lies unnamed
    have stack : here.own.frames = inner ++ start.own.frames := congrArg Scope.frames same
    have named : here.own.attached = nameInside stmt "" layers := congrArg Scope.attached same
    have clause (index : Nat) (inside : (enclosures stmt "" layers).head?.bind Enclosure.index? = some index) :
        here.own.frames.head?.map Frame.current = some index := by
      rw [stack]
      exact current_of_head? within inside
    refine .inr ⟨here, inner, comes, stack, within, named, clause, fun jump place => jump_takes stack within, ?_⟩
    intro jump beyond
    rw [stack]
    exact target_beyond within beyond

def noVariables : Info := ⟨"main", ⟨#[]⟩, #[]⟩

/-- `outer: for { switch { case z: switch { case z: default: }; ... default: } }`, with the place behind the inner
switch. -/
def behindInner : List Layer :=
  let other : Expr := .ident none none none
  [.labeled "outer", .loop .empty none .empty [] [],
    .switch .empty none [] ⟨10, some [other], none, []⟩
      [.switch .empty none [⟨20, some [other], none, []⟩, ⟨30, none, none, []⟩]] [] [⟨40, none, none, []⟩]]

/-- Behind the inner switch, which ended in its second clause, the outer one still stands at its first clause: there a
`fallthrough` goes on to the second clause, a `break` leaves the switch, and a `continue` goes back to the loop. The
whole statement leaves no frame behind. -/
theorem behindInner_stands :
    Restores ⟨Pass.start Assigned.entry, Walker.start⟩ (walk noVariables (fillAll .empty behindInner)) ∧
    ∃ here switch loop,
      Comes (fun act => walkLayers noVariables .empty act behindInner) ⟨Pass.start Assigned.entry, Walker.start⟩ here ∧
      here.own.frames = [switch, loop] ∧ switch.current = 0 ∧ loop.label = "outer" ∧
      Checker.jump .fallthrough here = (do switch.take .fallthrough; Analysis.setUnreachable) here ∧
      Checker.jump (.break none) here = (do switch.take (.break none); Analysis.setUnreachable) here ∧
      Checker.jump (.continue (some "outer")) here =
        (do loop.take (.continue (some "outer")); Analysis.setUnreachable) here := by
  obtain ⟨restores, _, places⟩ := @frames_balanced noVariables ⟨Pass.start Assigned.entry, Walker.start⟩ rfl
  refine ⟨restores _, ?_⟩
  rcases places .empty behindInner with ⟨fault, after, failed⟩ | ⟨here, inner, comes, stack, within, _, _, jumps, _⟩
  · have ended : (walkLayers noVariables .empty (pure ()) behindInner).run'
        ⟨Pass.start Assigned.entry, Walker.start⟩ = some () := by decide +kernel
    obtain ⟨later, went⟩ := Analysis.exists_of_run' ended
    cases went.symm.trans (failed (pure ()))
  · obtain ⟨clauses, around⟩ : ∃ clauses,
        enclosures .empty "" behindInner = [⟨"", .switch clauses 0⟩, ⟨"outer", .loop⟩] := ⟨_, rfl⟩
    rw [around] at within jumps
    cases within with
    | cons inSwitch rest =>
      cases rest with
      | cons inLoop last =>
        cases last
        obtain ⟨switch, atFirst, falls⟩ := jumps .fallthrough 0 rfl
        obtain ⟨again, atFirst', leaves⟩ := jumps (.break none) 0 rfl
        obtain ⟨loop, atSecond, goesBack⟩ := jumps (.continue (some "outer")) 1 rfl
        cases atFirst
        cases atFirst'
        cases atSecond
        exact ⟨here, _, _, comes, stack, inSwitch.current rfl, inLoop.label, falls, leaves, goesBack⟩

end ClauseReach.Checker
