import Mathlib.Data.List.Forall2
import ClauseReach.Proofs.PendingLog

/-!
Two passes made in step. Both analyses make calls of the same kind on the same destinations, one against one, and
a relation between the passes survives every such pair of calls. The analyses may work on different states: what
they read from a pass is related, not equal. Whatever is made of calls that keep the relation keeps it too, and a
switch is made of nothing else, so that a relation needs no more than a look at single calls.
-/

namespace ClauseReach

open StateAlgebra

variable {σ τ σ' τ' ε ν α β γ δ : Type}

/-- A relation between two passes and what makes it last. Branches go to the destinations in `records` alone, and
those in `resolves` alone are resolved. -/
structure Simulation (σ τ σ' τ' : Type) [StateAlgebra σ] [StateAlgebra σ'] where
  states : σ → σ' → Prop
  passes : Pass σ → Pass σ' → Prop
  owns : τ → τ' → Prop
  counts : Nat → Nat → Prop
  records : Dest → Prop
  resolves : Dest → Prop
  states_unreachable : states unreachable unreachable
  states_clone {first : σ} {second : σ'} : states first second → states (clone first) (clone second)
  states_merge {first more : σ} {second other : σ'} :
    states first second → states more other → states (merge first more) (merge second other)
  states_current {left : Pass σ} {right : Pass σ'} : passes left right → states left.state right.state
  passes_set {left : Pass σ} {right : Pass σ'} {first : σ} {second : σ'} :
    passes left right → states first second → passes (left.withState first) (right.withState second)
  passes_record {left : Pass σ} {right : Pass σ'} {dest : Dest} {first : σ} {second : σ'} :
    passes left right → records dest → states first second → passes (left.record dest first) (right.record dest second)
  passes_resolve {left : Pass σ} {right : Pass σ'} {dest : Dest} :
    passes left right → resolves dest → passes (left.resolve dest).2 (right.resolve dest).2
  counts_resolve {left : Pass σ} {right : Pass σ'} {dest : Dest} :
    passes left right → resolves dest → counts (left.resolve dest).1 (right.resolve dest).1

namespace Simulation

variable [StateAlgebra σ] [StateAlgebra σ'] (sim : Simulation σ τ σ' τ')

inductive Calls : Call σ → Call σ' → Prop where
  | record {dest : Dest} {first : σ} {second : σ'} (allowed : sim.records dest) (held : sim.states first second) :
      Calls (.record dest first) (.record dest second)
  | resolve {dest : Dest} (allowed : sim.resolves dest) : Calls (.resolve dest) (.resolve dest)
  | set {first : σ} {second : σ'} (held : sim.states first second) : Calls (.set first) (.set second)

def Sessions (left : Session σ τ) (right : Session σ' τ') : Prop :=
  sim.passes left.pass right.pass ∧ sim.owns left.own right.own

inductive Outcomes (values : α → β → Prop) :
    EStateM.Result Fault (Session σ τ) α → EStateM.Result Fault (Session σ' τ') β → Prop where
  | ok {value : α} {other : β} {left : Session σ τ} {right : Session σ' τ'} (related : values value other)
      (kept : sim.Sessions left right) : Outcomes values (.ok value left) (.ok other right)
  | error {fault : Fault} {left : Session σ τ} {right : Session σ' τ'} (kept : sim.Sessions left right) :
      Outcomes values (.error fault left) (.error fault right)

/-- From related sessions both make related calls, and they end alike. -/
def InStep (values : α → β → Prop) (left : Analysis σ τ α) (right : Analysis σ' τ' β) : Prop :=
  ∀ first second, sim.Sessions first second →
    ∃ made others, Performs left first made (left first) ∧ Performs right second others (right second) ∧
      List.Forall₂ sim.Calls made others ∧ sim.Outcomes values (left first) (right second)

variable {sim}

theorem Outcomes.exists_of_ok {values : α → β → Prop} {other : β} {right : Session σ' τ'}
    {outcome : EStateM.Result Fault (Session σ τ) α} (ended : sim.Outcomes values outcome (.ok other right)) :
    ∃ value left, outcome = .ok value left ∧ values value other ∧ sim.Sessions left right := by
  cases ended with
  | ok related kept => exact ⟨_, _, rfl, related, kept⟩

theorem Outcomes.exists_or_fault {values : α → β → Prop} {outcome : EStateM.Result Fault (Session σ τ) α}
    {other : EStateM.Result Fault (Session σ' τ') β} (ended : sim.Outcomes values outcome other) :
    (∃ value counterpart left right, outcome = .ok value left ∧ other = .ok counterpart right ∧
      values value counterpart ∧ sim.Sessions left right) ∨
    ∃ fault left right, outcome = .error fault left ∧ other = .error fault right ∧ sim.Sessions left right := by
  cases ended with
  | ok related kept => exact Or.inl ⟨_, _, _, _, rfl, rfl, related, kept⟩
  | error kept => exact Or.inr ⟨_, _, _, rfl, rfl, kept⟩

namespace InStep

theorem outcomes {values : α → β → Prop} {left : Analysis σ τ α} {right : Analysis σ' τ' β}
    (went : sim.InStep values left right) {first : Session σ τ} {second : Session σ' τ'} (held : sim.Sessions first second) :
    sim.Outcomes values (left first) (right second) := by
  obtain ⟨_, _, _, _, _, ended⟩ := went first second held
  exact ended

theorem pure {values : α → β → Prop} {value : α} {other : β} (related : values value other) :
    sim.InStep values (pure value) (pure other) := by
  intro first second held
  exact ⟨[], [], .pure value first, .pure other second, .nil, .ok related held⟩

theorem fault {values : α → β → Prop} (fault : Fault) : sim.InStep values (throw fault) (throw fault) := by
  intro first second held
  exact ⟨[], [], .fault fault first, .fault fault second, .nil, .error held⟩

theorem bind {values : α → β → Prop} {results : γ → δ → Prop} {left : Analysis σ τ α} {right : Analysis σ' τ' β}
    {next : α → Analysis σ τ γ} {other : β → Analysis σ' τ' δ} (began : sim.InStep values left right)
    (went : ∀ value counterpart, values value counterpart → sim.InStep results (next value) (other counterpart)) :
    sim.InStep results (left >>= next) (right >>= other) := by
  intro first second held
  obtain ⟨made, others, performs, follows, paired, ended⟩ := began first second held
  rcases ended.exists_or_fault with
    ⟨value, counterpart, middle, after, reached, arrived, related, kept⟩ | ⟨fault, middle, after, reached, arrived, kept⟩
  · obtain ⟨more, further, continues, accompanies, coupled, last⟩ := went value counterpart related middle after kept
    rw [reached] at performs
    rw [arrived] at follows
    rw [Analysis.bind_ok reached, Analysis.bind_ok arrived]
    exact ⟨_, _, .bind performs continues, .bind follows accompanies, List.rel_append paired coupled, last⟩
  · rw [reached] at performs
    rw [arrived] at follows
    rw [Analysis.bind_error reached, Analysis.bind_error arrived]
    exact ⟨made, others, .stop performs, .stop follows, paired, .error kept⟩

theorem current : sim.InStep sim.states Analysis.current Analysis.current := by
  intro first second held
  refine ⟨[], [], .look (fun session => session.pass.state) first, .look (fun session => session.pass.state) second,
    .nil, ?_⟩
  exact .ok (sim.states_current held.1) held

theorem set {state : σ} {other : σ'} (related : sim.states state other) :
    sim.InStep Eq (Analysis.setCurrent state) (Analysis.setCurrent other) := by
  intro first second held
  refine ⟨_, _, .set state first, .set other second, .cons (.set related) .nil, ?_⟩
  exact .ok rfl ⟨sim.passes_set held.1 related, held.2⟩

theorem record {dest : Dest} {state : σ} {other : σ'} (allowed : sim.records dest) (related : sim.states state other) :
    sim.InStep Eq (Analysis.record dest state) (Analysis.record dest other) := by
  intro first second held
  refine ⟨_, _, .record dest state first, .record dest other second, .cons (.record allowed related) .nil, ?_⟩
  exact .ok rfl ⟨sim.passes_record held.1 allowed related, held.2⟩

theorem resolve {dest : Dest} (allowed : sim.resolves dest) :
    sim.InStep sim.counts (Analysis.resolve dest) (Analysis.resolve dest) := by
  intro first second held
  refine ⟨_, _, .resolve dest first, .resolve dest second, .cons (.resolve allowed) .nil, ?_⟩
  exact .ok (sim.counts_resolve held.1 allowed) ⟨sim.passes_resolve held.1 allowed, held.2⟩

theorem keep {change : τ → τ} {other : τ' → τ'}
    (kept : ∀ own counterpart, sim.owns own counterpart → sim.owns (change own) (other counterpart)) :
    sim.InStep Eq (Analysis.modifyOwn change) (Analysis.modifyOwn other) := by
  intro first second held
  refine ⟨[], [], .keep change first, .keep other second, .nil, ?_⟩
  exact .ok rfl ⟨held.1, kept _ _ held.2⟩

theorem join {state : σ} {other : σ'} (related : sim.states state other) :
    sim.InStep Eq (Analysis.join state) (Analysis.join other) := by
  change sim.InStep Eq (Analysis.current >>= fun now => Analysis.setCurrent (merge now state))
    (Analysis.current >>= fun now => Analysis.setCurrent (merge now other))
  apply bind current
  intro now counterpart near
  exact set (sim.states_merge near related)

theorem branch {dest : Dest} (allowed : sim.records dest) :
    sim.InStep Eq (Analysis.branch dest) (Analysis.branch dest) := by
  change sim.InStep Eq (Analysis.current >>= fun now => Analysis.record dest (clone now))
    (Analysis.current >>= fun now => Analysis.record dest (clone now))
  apply bind current
  intro now counterpart near
  exact record allowed (sim.states_clone near)

theorem resolveAll {labels : List Dest} (allowed : ∀ dest ∈ labels, sim.resolves dest) :
    sim.InStep Eq (Analysis.resolveAll labels) (Analysis.resolveAll labels) := by
  induction labels with
  | nil => exact pure rfl
  | cons dest rest ih =>
    apply bind (resolve (allowed dest (List.mem_cons_self ..)))
    intro _ _ _
    exact ih fun other member => allowed other (List.mem_cons_of_mem _ member)

theorem branchAll {labels : List Dest} (allowed : ∀ dest ∈ labels, sim.records dest) (seen : Bool) :
    sim.InStep Eq (Switch.branchAll seen labels) (Switch.branchAll seen labels) := by
  induction labels generalizing seen with
  | nil => exact pure rfl
  | cons dest rest ih =>
    have further := ih fun other member => allowed other (List.mem_cons_of_mem _ member)
    apply bind (branch (allowed dest (List.mem_cons_self ..)))
    intro _ _ _
    cases seen with
    | true => exact further true
    | false =>
      cases dest with
      | none => exact fault .absentLabel
      | some label => exact further _

end InStep

/-- Two sections with the same way in, whose bodies keep in step. -/
structure Sections (sim : Simulation σ τ σ' τ') (left : Section σ τ) (right : Section σ' τ') : Prop where
  labels : left.labels = right.labels
  allowed : ∀ dest ∈ left.labels, sim.resolves dest
  body : sim.InStep Eq left.body right.body

theorem labels_eq {left : List (Section σ τ)} {right : List (Section σ' τ')}
    (parts : List.Forall₂ sim.Sections left right) : left.flatMap (·.labels) = right.flatMap (·.labels) := by
  induction parts with
  | nil => rfl
  | cons first _ ih => rw [List.flatMap_cons, List.flatMap_cons, first.labels, ih]

namespace InStep

theorem runSections {left : List (Section σ τ)} {right : List (Section σ' τ')}
    (parts : List.Forall₂ sim.Sections left right) {exits : σ} {others : σ'} (related : sim.states exits others) :
    sim.InStep sim.states (Switch.runSections exits left) (Switch.runSections others right) := by
  induction parts generalizing exits others with
  | nil => exact pure related
  | cons first _ ih =>
    apply bind (set sim.states_unreachable)
    intro _ _ _
    rw [← first.labels]
    apply bind (resolveAll first.allowed)
    intro _ _ _
    apply bind first.body
    intro _ _ _
    apply bind current
    intro last counterpart near
    exact ih (sim.states_merge related near)

theorem finish {left : List (Section σ τ)} {right : List (Section σ' τ')}
    (parts : List.Forall₂ sim.Sections left right) {passing : σ} {other : σ'} (related : sim.states passing other)
    {brk : Dest} (behind : sim.resolves brk) :
    sim.InStep Eq (Switch.finish passing left brk) (Switch.finish other right brk) := by
  apply bind (runSections parts sim.states_unreachable)
  intro exits others near
  apply bind (set (sim.states_merge related near))
  intro _ _ _
  apply bind (resolve behind)
  intro _ _ _
  exact pure rfl

/-- Both headers branch alike, and no section sees more of the header than its branches. -/
theorem jump {scrutinee : Analysis σ τ Unit} {examined : Analysis σ' τ' Unit} {left : List (Section σ τ)}
    {right : List (Section σ' τ')} {brk target : Dest} (evaluated : sim.InStep Eq scrutinee examined)
    (parts : List.Forall₂ sim.Sections left right) (behind : sim.resolves brk)
    (labels : ∀ dest ∈ left.flatMap (·.labels), sim.records dest) (chosen : ∀ dest ∈ target, sim.records (some dest)) :
    sim.InStep Eq (JumpSwitch.run ⟨scrutinee, left, brk, target⟩) (JumpSwitch.run ⟨examined, right, brk, target⟩) := by
  apply bind evaluated
  intro _ _ _
  apply bind current
  intro entry counterpart near
  have passing := sim.states_clone near
  cases target with
  | none =>
    dsimp only
    rw [← labels_eq parts]
    apply bind (branchAll labels false)
    intro hasDefault _ same
    subst same
    apply bind (set sim.states_unreachable)
    intro _ _ _
    cases hasDefault with
    | true => exact finish parts sim.states_unreachable behind
    | false => exact finish parts passing behind
  | some target =>
    dsimp only
    split
    · apply bind (set sim.states_unreachable)
      intro _ _ _
      exact finish parts passing behind
    · apply bind (branch (chosen target rfl))
      intro _ _ _
      apply bind (set sim.states_unreachable)
      intro _ _ _
      exact finish parts sim.states_unreachable behind

/-- Behind the walk of a tree: the branch to the fallback, and then the sections. -/
theorem afterWalk {sections : List (Section σ τ)} {others : List (Section σ' τ')} {entry : σ} {counterpart : σ'}
    (complete : Bool) {fallback brk : Dest} (near : sim.states entry counterpart)
    (inside : List.Forall₂ sim.Sections sections others) (behind : sim.resolves brk)
    (exhausted : ∀ dest ∈ fallback, sim.records (some dest)) :
    sim.InStep Eq
      (do
        if fallback.isSome then Analysis.record fallback (← Analysis.current)
        Switch.finish (if complete then unreachable else clone entry) sections brk)
      (do
        if fallback.isSome then Analysis.record fallback (← Analysis.current)
        Switch.finish (if complete then unreachable else clone counterpart) others brk) := by
  have passing : sim.states (if complete then unreachable else clone entry)
      (if complete then unreachable else clone counterpart) := by
    cases complete with
    | true => exact sim.states_unreachable
    | false => exact sim.states_clone near
  cases fallback with
  | none => exact finish inside passing behind
  | some label =>
    apply bind current
    intro last other related
    apply bind (record (exhausted label rfl) related)
    intro _ _ _
    exact finish inside passing behind

end InStep

/-- Matchers that keep in step at every leaf. -/
structure Matchers (sim : Simulation σ τ σ' τ') (left : Matcher σ τ ε ν) (right : Matcher σ' τ' ε ν) : Prop where
  bind : ∀ bindings label, sim.InStep Eq (left.bind bindings label) (right.bind bindings label)
  split : ∀ guard, sim.InStep (fun states others => sim.states states.1 others.1 ∧ sim.states states.2 others.2)
    (left.split guard) (right.split guard)

end Simulation

namespace Decision

mutual

/-- The labels of all leaves. -/
def labels : Decision ε ν → List Dest
  | .empty => []
  | .byType onNull cases otherwise => onNull.labels ++ (labelsOfTypes cases ++ otherwise.labels)
  | .byValue cases otherwise => labelsOfValues cases ++ otherwise.labels
  | .leaf _ _ label fallback => label :: fallback.labels
  | .foreign _ => []
termination_by structural tree => tree

def labelsOfTypes : List (Decision ε ν) → List Dest
  | [] => []
  | tree :: rest => tree.labels ++ labelsOfTypes rest
termination_by structural trees => trees

def labelsOfValues : List (Option Constant × Decision ε ν) → List Dest
  | [] => []
  | (_, tree) :: rest => tree.labels ++ labelsOfValues rest
termination_by structural cases => cases

end

end Decision

namespace Simulation.Matchers

variable [StateAlgebra σ] [StateAlgebra σ'] {sim : Simulation σ τ σ' τ'} {left : Matcher σ τ ε ν}
  {right : Matcher σ' τ' ε ν}

theorem enter (parts : sim.Matchers left right) (bindings : List ν) (guard : Option ε) (label : Dest) :
    sim.InStep Eq (left.enter bindings guard label) (right.enter bindings guard label) := by
  apply InStep.bind (parts.bind bindings label)
  intro _ _ _
  cases guard with
  | none => exact .pure rfl
  | some guard =>
    apply InStep.bind (parts.split guard)
    intro states others related
    exact .set related.1

mutual

theorem walk (parts : sim.Matchers left right) (known : Option Constant) (tree : Decision ε ν)
    (allowed : ∀ dest ∈ tree.labels, sim.records dest) :
    sim.InStep Eq (tree.walk left known) (tree.walk right known) := by
  cases tree with
  | empty => exact .pure rfl
  | foreign node => exact .fault _
  | byType onNull cases otherwise =>
    simp only [Decision.labels, List.mem_append, or_imp, forall_and] at allowed
    obtain ⟨first, middle, last⟩ := allowed
    apply InStep.bind .current
    intro entry counterpart near
    apply InStep.bind (.set (sim.states_clone near))
    intro _ _ _
    apply InStep.bind (parts.walk known onNull first)
    intro _ _ _
    apply InStep.bind (parts.walkTypes known near cases middle)
    intro _ _ _
    apply InStep.bind (.set near)
    intro _ _ _
    exact parts.walk known otherwise last
  | byValue cases otherwise =>
    simp only [Decision.labels, List.mem_append, or_imp, forall_and] at allowed
    obtain ⟨first, last⟩ := allowed
    apply InStep.bind .current
    intro entry counterpart near
    apply InStep.bind (parts.walkValues known near cases first)
    intro matched _ same
    subst same
    split
    · exact .pure rfl
    · apply InStep.bind (.set near)
      intro _ _ _
      exact parts.walk known otherwise last
  | leaf bindings guard label fallback =>
    simp only [Decision.labels, List.mem_cons, forall_eq_or_imp] at allowed
    obtain ⟨here, later⟩ := allowed
    apply InStep.bind .current
    intro entry counterpart near
    apply InStep.bind (parts.enter bindings guard label)
    intro _ _ _
    apply InStep.bind .current
    intro entered other related
    apply InStep.bind (.record here related)
    intro _ _ _
    apply InStep.bind (.set (sim.states_clone near))
    intro _ _ _
    exact parts.walk known fallback later
termination_by structural tree

theorem walkTypes (parts : sim.Matchers left right) (known : Option Constant) {entry : σ} {counterpart : σ'}
    (near : sim.states entry counterpart) (trees : List (Decision ε ν))
    (allowed : ∀ dest ∈ Decision.labelsOfTypes trees, sim.records dest) :
    sim.InStep Eq (Decision.walkTypes left known entry trees) (Decision.walkTypes right known counterpart trees) := by
  cases trees with
  | nil => exact .pure rfl
  | cons tree rest =>
    simp only [Decision.labelsOfTypes, List.mem_append, or_imp, forall_and] at allowed
    obtain ⟨first, last⟩ := allowed
    apply InStep.bind (.set (sim.states_clone near))
    intro _ _ _
    apply InStep.bind (parts.walk known tree first)
    intro _ _ _
    exact parts.walkTypes known near rest last
termination_by structural trees

theorem walkValues (parts : sim.Matchers left right) (known : Option Constant) {entry : σ} {counterpart : σ'}
    (near : sim.states entry counterpart) (cases : List (Option Constant × Decision ε ν))
    (allowed : ∀ dest ∈ Decision.labelsOfValues cases, sim.records dest) :
    sim.InStep Eq (Decision.walkValues left known entry cases)
      (Decision.walkValues right known counterpart cases) := by
  cases cases with
  | nil => exact .pure rfl
  | cons first rest =>
    obtain ⟨value, tree⟩ := first
    simp only [Decision.labelsOfValues, List.mem_append, or_imp, forall_and] at allowed
    obtain ⟨inside, later⟩ := allowed
    rw [Decision.walkValues, Decision.walkValues]
    split
    · exact parts.walkValues known near rest later
    · apply InStep.bind (.set (sim.states_clone near))
      intro _ _ _
      apply InStep.bind (parts.walk known tree inside)
      intro _ _ _
      apply InStep.bind (parts.walkValues known near rest later)
      intro _ _ _
      exact .pure rfl
termination_by structural cases

end

theorem run (parts : sim.Matchers left right) {scrutinee : Analysis σ τ Unit} {examined : Analysis σ' τ' Unit}
    {known : Option Constant} {tree : Decision ε ν} {fallback brk : Dest} {complete : Bool}
    {sections : List (Section σ τ)} {others : List (Section σ' τ')} (evaluated : sim.InStep Eq scrutinee examined)
    (inside : List.Forall₂ sim.Sections sections others) (behind : sim.resolves brk)
    (leaves : ∀ dest ∈ tree.labels, sim.records dest) (exhausted : ∀ dest ∈ fallback, sim.records (some dest)) :
    sim.InStep Eq (TreeSwitch.run left ⟨scrutinee, known, tree, fallback, complete, sections, brk⟩)
      (TreeSwitch.run right ⟨examined, known, tree, fallback, complete, others, brk⟩) := by
  apply InStep.bind evaluated
  intro _ _ _
  apply InStep.bind .current
  intro entry counterpart near
  apply InStep.bind (parts.walk known tree leaves)
  intro _ _ _
  exact .afterWalk complete near inside behind exhausted

end Simulation.Matchers

end ClauseReach
