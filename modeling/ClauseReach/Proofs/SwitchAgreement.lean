import ClauseReach.Proofs.Alongside
import ClauseReach.Proofs.Client
import ClauseReach.Proofs.Leaves

/-!
A switch on labels is a switch on a tree of a special kind: one leaf for each label, with nothing to bind and
no guard. The two headers come to their branches in different ways and leave different states behind, but no
section starts from that state, so that everything behind the headers is the same.
-/

namespace ClauseReach

open StateAlgebra

variable {σ τ ε ν : Type}

def Dest.isDefault (dest : Dest) : Bool := dest.any fun label => label.kind = .default

/-- Sends the current state to each of these destinations. -/
def Pass.sendAll (pass : Pass σ) (labels : List Dest) : Pass σ :=
  labels.foldl (fun pass dest => pass.record dest pass.state) pass

/-- Sessions with the same pass, and with data that do not differ in what matters. -/
def SamePass (alike : τ → τ → Prop) (left right : Session σ τ) : Prop :=
  left.pass = right.pass ∧ alike left.own right.own

/-- Where there is nothing to bind, the pass stays as it is. -/
def Matcher.Silent (alike : τ → τ → Prop) (matcher : Matcher σ τ ε ν) : Prop :=
  ∀ label session, ∃ own, matcher.bind [] label session = .ok () ⟨session.pass, own⟩ ∧ alike session.own own

namespace JumpSwitch

variable (switch : JumpSwitch σ τ)

def labels : List Dest := switch.sections.flatMap (·.labels)

/-- Where the header sends. -/
def targets : List Dest :=
  match switch.target with
  | none => switch.labels
  | some target => if some target = switch.brk then [] else [some target]

/-- Whether some section is taken whatever the value. -/
def covers : Bool :=
  match switch.target with
  | none => switch.labels.any Dest.isDefault
  | some target => some target ≠ switch.brk

def leafTo (dest : Dest) : Decision ε ν := .leaf [] none dest .empty

/-- The same switch, with its jumps written as a tree. -/
def asTree : TreeSwitch σ τ ε ν where
  scrutinee := switch.scrutinee
  known := none
  tree :=
    match switch.target with
    | none => .byType .empty (switch.labels.map leafTo) .empty
    | some target => if some target = switch.brk then .empty else leafTo (some target)
  fallback := none
  complete := switch.covers
  sections := switch.sections
  brk := switch.brk

theorem visits_leaves (labels : List Dest) :
    Decision.visitsOfTypes none (labels.map leafTo : List (Decision ε ν)) =
      labels.map fun dest => .leaf ⟨[], none, dest⟩ := by
  induction labels with
  | nil => rfl
  | cons dest rest ih => rw [List.map_cons, Decision.visitsOfTypes, ih]; rfl

theorem visits_asTree :
    (switch.asTree : TreeSwitch σ τ ε ν).tree.visits none = switch.targets.map fun dest => .leaf ⟨[], none, dest⟩ := by
  unfold asTree targets
  cases switch.target with
  | none =>
    change [] ++ (Decision.visitsOfTypes none _ ++ []) = _
    rw [List.nil_append, List.append_nil, visits_leaves]
  | some target =>
    dsimp only
    split <;> rfl

end JumpSwitch

theorem follow_silent {alike : τ → τ → Prop} (equivalence : Equivalence alike) {matcher : Matcher σ τ ε ν}
    (silent : matcher.Silent alike) (labels : List Dest) (session : Session σ τ) :
    ∃ own, follow matcher session.pass.state (labels.map fun dest => .leaf ⟨[], none, dest⟩) session =
      .ok () ⟨session.pass.sendAll labels, own⟩ ∧ alike session.own own := by
  induction labels generalizing session with
  | nil => exact ⟨session.own, rfl, equivalence.refl _⟩
  | cons dest rest ih =>
    obtain ⟨bound, binds, near⟩ := silent dest session
    have entered : matcher.enter [] none dest session = .ok () ⟨session.pass, bound⟩ := Analysis.bind_ok binds
    obtain ⟨own, ended, further⟩ := ih ⟨session.pass.record dest session.pass.state, bound⟩
    refine ⟨own, ?_, equivalence.trans near further⟩
    rw [List.map_cons, follow, Analysis.bind_ok entered]
    exact ended

section Headers

variable [StateAlgebra σ] [TransparentClone σ]

theorem branchAll_eq {labels : List Dest} (present : none ∉ labels) (seen : Bool) (session : Session σ τ) :
    Switch.branchAll seen labels session =
      .ok (seen || labels.any Dest.isDefault) ⟨session.pass.sendAll labels, session.own⟩ := by
  induction labels generalizing seen session with
  | nil => rw [List.any_nil, Bool.or_false]; rfl
  | cons dest rest ih =>
    obtain ⟨here, later⟩ := not_or.mp (mt List.mem_cons.mpr present)
    have sent : Analysis.branch dest session = .ok () ⟨session.pass.record dest session.pass.state, session.own⟩ := by
      change EStateM.Result.ok () (Session.mk (session.pass.record dest (clone session.pass.state)) session.own) = _
      rw [TransparentClone.clone_eq]
    cases seen with
    | true =>
      change (Analysis.branch dest >>= fun _ => Switch.branchAll true rest) session = _
      rw [Analysis.bind_ok sent, ih later, Bool.true_or, Bool.true_or]
      rfl
    | false =>
      obtain ⟨label, rfl⟩ := Option.ne_none_iff_exists'.mp (Ne.symm here)
      change (Analysis.branch (some label) >>= fun _ => Switch.branchAll (label.kind = .default) rest) session = _
      rw [Analysis.bind_ok sent, ih later]
      rfl

variable (switch : JumpSwitch σ τ)

/-- The state that takes no section, if the header was reached in this one. -/
def JumpSwitch.passing (entry : σ) : σ := if switch.covers then unreachable else entry

theorem jumpHeader_eq (present : none ∉ switch.labels) {session middle : Session σ τ}
    (evaluated : switch.scrutinee session = .ok () middle) :
    (AnySwitch.jump switch : AnySwitch σ τ ε ν).header session =
      .ok (switch.passing middle.pass.state)
        ⟨(middle.pass.sendAll switch.targets).withState unreachable, middle.own⟩ := by
  rw [AnySwitch.header, Analysis.bind_ok evaluated]
  have here : Analysis.current middle = .ok middle.pass.state middle := rfl
  rw [Analysis.bind_ok here, TransparentClone.clone_eq]
  unfold JumpSwitch.passing JumpSwitch.covers JumpSwitch.targets
  cases switch.target with
  | none =>
    have sent := branchAll_eq present false middle
    dsimp only
    exact Analysis.bind_ok sent
  | some target =>
    dsimp only
    by_cases past : some target = switch.brk
    · simp only [past, if_true, ne_eq, not_true, decide_false]
      rfl
    · simp only [past, if_false, ne_eq, not_false_iff, decide_true, if_true]
      change EStateM.Result.ok _ (Session.mk ((middle.pass.record (some target) (clone middle.pass.state)).withState _) _) = _
      rw [TransparentClone.clone_eq]
      rfl

theorem treeHeader_eq {alike : τ → τ → Prop} (equivalence : Equivalence alike) {matcher : Matcher σ τ ε ν}
    (silent : matcher.Silent alike) {session middle : Session σ τ}
    (evaluated : switch.scrutinee session = .ok () middle) :
    ∃ own, (AnySwitch.tree matcher switch.asTree).header session =
      .ok (switch.passing middle.pass.state) ⟨middle.pass.sendAll switch.targets, own⟩ ∧ alike middle.own own := by
  obtain ⟨own, ended, near⟩ := follow_silent equivalence silent switch.targets middle
  rw [← switch.visits_asTree, ← Decision.walk_eq_follow] at ended
  refine ⟨own, ?_, near⟩
  have here : Analysis.current middle = .ok middle.pass.state middle := rfl
  change (switch.scrutinee >>= fun _ => Analysis.current >>= fun entry =>
    switch.asTree.tree.walk matcher none >>= fun _ => pure (if switch.covers then unreachable else clone entry)) session = _
  rw [Analysis.bind_ok evaluated, Analysis.bind_ok here, Analysis.bind_ok ended, TransparentClone.clone_eq]
  rfl

end Headers

section Sections

variable {alike : τ → τ → Prop}

theorem onPass_alongside {α : Type} (act : Pass σ → α × Pass σ) :
    Alongside (SamePass alike) (Analysis.onPass act) (Analysis.onPass act) := by
  intro first second held
  obtain ⟨pass, own⟩ := first
  obtain ⟨other, kept⟩ := second
  obtain ⟨rfl, near⟩ : pass = other ∧ alike own kept := held
  exact .ok ⟨rfl, near⟩

theorem setCurrent_alongside (state : σ) :
    Alongside (SamePass alike) (Analysis.setCurrent state) (Analysis.setCurrent state) :=
  onPass_alongside fun pass => ((), pass.withState state)

theorem current_alongside : Alongside (SamePass alike) (Analysis.current : Analysis σ τ σ) Analysis.current := by
  intro first second held
  have same : first.pass.state = second.pass.state := congrArg Pass.state held.1
  change SameOutcome _ (.ok first.pass.state first) (.ok second.pass.state second)
  rw [same]
  exact .ok held

variable [StateAlgebra σ]

theorem resolve_alongside (dest : Dest) :
    Alongside (SamePass alike) (Analysis.resolve dest : Analysis σ τ Nat) (Analysis.resolve dest) :=
  onPass_alongside fun pass => pass.resolve dest

theorem branch_alongside (dest : Dest) :
    Alongside (SamePass alike) (Analysis.branch dest : Analysis σ τ Unit) (Analysis.branch dest) :=
  onPass_alongside fun pass => ((), pass.branch dest)

theorem resolveAll_alongside (labels : List Dest) :
    Alongside (SamePass alike) (Analysis.resolveAll labels : Analysis σ τ Unit) (Analysis.resolveAll labels) := by
  induction labels with
  | nil => exact .pure ()
  | cons dest rest ih => exact .bind (resolve_alongside dest) fun _ => ih

/-- No section starts from the state in which the header ends. -/
theorem finish_withState (passing : σ) (sections : List (Section σ τ)) (brk : Dest) (pass : Pass σ) (state : σ)
    (own : τ) :
    Switch.finish passing sections brk ⟨pass.withState state, own⟩ = Switch.finish passing sections brk ⟨pass, own⟩ := by
  cases sections with
  | nil => rfl
  | cons entered rest => rfl

theorem runSections_alongside {sections : List (Section σ τ)}
    (bodies : ∀ entered ∈ sections, Alongside (SamePass alike) entered.body entered.body) (exits : σ) :
    Alongside (SamePass alike) (Switch.runSections exits sections) (Switch.runSections exits sections) := by
  induction sections generalizing exits with
  | nil => exact .pure exits
  | cons entered rest ih =>
    apply Alongside.bind (setCurrent_alongside unreachable)
    intro _
    apply Alongside.bind (resolveAll_alongside entered.labels)
    intro _
    apply Alongside.bind (bodies entered (List.mem_cons_self ..))
    intro _
    apply Alongside.bind current_alongside
    intro left
    exact ih (fun other member => bodies other (List.mem_cons_of_mem _ member)) _

theorem finish_alongside {sections : List (Section σ τ)}
    (bodies : ∀ entered ∈ sections, Alongside (SamePass alike) entered.body entered.body) (passing : σ) (brk : Dest) :
    Alongside (SamePass alike) (Switch.finish passing sections brk) (Switch.finish passing sections brk) := by
  apply Alongside.bind (runSections_alongside bodies unreachable)
  intro exits
  apply Alongside.bind (setCurrent_alongside _)
  intro _
  exact .bind (resolve_alongside brk) fun _ => .pure ()

/-- A switch on labels and the same switch on a tree come to the same pass, or to the same fault in the same
pass. The analysis may note that a leaf binds nothing, as long as no section depends on what it notes. -/
theorem jump_agrees_with_tree [TransparentClone σ] (equivalence : Equivalence alike) {matcher : Matcher σ τ ε ν}
    (silent : matcher.Silent alike) (switch : JumpSwitch σ τ)
    (present : ∀ entered ∈ switch.sections, none ∉ entered.labels)
    (bodies : ∀ entered ∈ switch.sections, Alongside (SamePass alike) entered.body entered.body)
    (session : Session σ τ) :
    SameOutcome (SamePass alike) (switch.run session) (switch.asTree.run matcher session) := by
  have allPresent : none ∉ switch.labels := by
    intro missing
    obtain ⟨entered, member, missing⟩ := List.mem_flatMap.mp missing
    exact present entered member missing
  change SameOutcome _ ((AnySwitch.jump switch : AnySwitch σ τ ε ν).run session)
    ((AnySwitch.tree matcher switch.asTree).run session)
  rw [AnySwitch.run_eq, AnySwitch.run_eq]
  cases evaluated : switch.scrutinee session with
  | error fault middle =>
    have jumping : (AnySwitch.jump switch : AnySwitch σ τ ε ν).header session = .error fault middle :=
      Analysis.bind_error evaluated
    have deciding : (AnySwitch.tree matcher switch.asTree).header session = .error fault middle :=
      Analysis.bind_error evaluated
    rw [Analysis.bind_error jumping, Analysis.bind_error deciding]
    exact .error ⟨rfl, equivalence.refl _⟩
  | ok _ middle =>
    obtain ⟨own, deciding, near⟩ := treeHeader_eq switch equivalence silent evaluated
    rw [Analysis.bind_ok (jumpHeader_eq switch allPresent evaluated), Analysis.bind_ok deciding, finish_withState]
    exact finish_alongside bodies _ _ _ _ ⟨rfl, near⟩

end Sections

namespace Script

theorem matcher_silent [Domain σ] (hooks : Hooks) :
    (matcher hooks : Matcher σ (List (Event σ)) Expr String).Silent fun _ _ => True := by
  intro label session
  obtain ⟨binds, enters⟩ := hooks
  cases binds with
  | true => exact ⟨_, rfl, trivial⟩
  | false => exact ⟨_, rfl, trivial⟩

theorem addFact_alongside [Domain σ] {alike : List (Event σ) → List (Event σ) → Prop} (name : String) :
    Alongside (SamePass alike) (addFact name : ScriptM σ Unit) (addFact name) :=
  .bind current_alongside fun now => setCurrent_alongside (Domain.add now name)

/-- A switch with a shared section, and with a second one that leaves the switch for elsewhere. -/
def sharedSwitch : JumpSwitch (May String) (List (Event (May String))) where
  scrutinee := Expr.eval ⟨"x", .fact⟩
  sections :=
    [⟨[some ⟨1, .case, "1"⟩, some ⟨2, .default, ""⟩], addFact "shared"⟩,
      ⟨[some ⟨3, .case, "3"⟩], Analysis.branch (some ⟨4, .user, "outer"⟩)⟩]
  brk := some ⟨5, .break, ""⟩
  target := none

theorem sharedSwitch_agrees :
    (∀ entered ∈ sharedSwitch.sections, none ∉ entered.labels) ∧
      SameOutcome (SamePass fun _ _ => True) (sharedSwitch.run opening)
        (sharedSwitch.asTree.run (matcher ⟨true, true⟩) opening) := by
  have present : ∀ entered ∈ sharedSwitch.sections, none ∉ entered.labels := by decide
  have bodies : ∀ entered ∈ sharedSwitch.sections, Alongside (SamePass fun _ _ => True) entered.body entered.body := by
    simp only [sharedSwitch, List.forall_mem_cons]
    exact ⟨addFact_alongside "shared", branch_alongside _, List.forall_mem_nil _⟩
  have equivalence : Equivalence fun _ _ : List (Event (May String)) => True :=
    ⟨fun _ => trivial, fun _ => trivial, fun _ _ => trivial⟩
  have agrees := jump_agrees_with_tree equivalence (matcher_silent ⟨true, true⟩) sharedSwitch present bodies opening
  exact ⟨present, agrees⟩

end Script

end ClauseReach
