import ClauseReach.Proofs.Footprint
import ClauseReach.Proofs.StateOrder

/-!
What is known of a value only takes ways away. States are ordered by what merging adds: a state is below another
if it adds nothing to it. From a lower pass every statement comes to a lower pass; and a switch that knows its value
sends fewer branches than one that does not, so that it starts its sections from a lower pass.
-/

namespace ClauseReach

open StateAlgebra

variable {σ τ ε ν : Type}

section Passes

variable [StateAlgebra σ]

/-- What is under way to a destination, taken together. -/
def Pass.arriving (pass : Pass σ) (dest : Dest) : σ := (pass.pending.states dest).foldl merge unreachable

/-- The pass adds nothing to the other one, neither here nor at any destination. -/
structure Pass.Below (pass other : Pass σ) : Prop where
  state : ClauseReach.Below pass.state other.state
  arriving : ∀ dest, ClauseReach.Below (pass.arriving dest) (other.arriving dest)

theorem arriving_record (pass : Pass σ) (dest other : Dest) (state : σ) :
    (pass.record dest state).arriving other =
      if other = dest then merge (pass.arriving dest) state else pass.arriving other := by
  change ((pass.pending.record dest state).states other).foldl merge unreachable = _
  rw [Pending.states_record]
  split
  · rw [List.foldl_append]
    rfl
  · rfl

theorem arriving_resolve (pass : Pass σ) (dest other : Dest) :
    (pass.resolve dest).2.arriving other = if other = dest then unreachable else pass.arriving other := by
  change ((pass.pending.forget dest).states other).foldl merge unreachable = _
  rw [Pending.states_forget]
  split <;> rfl

variable [IdempotentMerge σ]

theorem state_resolve (pass : Pass σ) (dest : Dest) :
    (pass.resolve dest).2.state = merge pass.state (pass.arriving dest) :=
  LawfulMerge.foldl_merge pass.state (pass.pending.states dest)

theorem arriving_sendAll (pass : Pass σ) (labels : List Dest) (dest : Dest) :
    (pass.sendAll labels).arriving dest =
      merge (pass.arriving dest) (if dest ∈ labels then pass.state else unreachable) := by
  induction labels generalizing pass with
  | nil => exact (LawfulMerge.merge_unreachable _).symm
  | cons first rest ih =>
    have sent : (pass.sendAll (first :: rest)).arriving dest = _ := ih (pass.record first pass.state)
    rw [sent, arriving_record]
    change merge _ (if dest ∈ rest then pass.state else unreachable) = _
    by_cases here : dest = first
    · rw [if_pos here, if_pos (List.mem_cons.mpr (Or.inl here)), here]
      split
      · rw [LawfulMerge.merge_assoc, IdempotentMerge.merge_self]
      · rw [LawfulMerge.merge_unreachable]
    · rw [if_neg here]
      simp only [List.mem_cons, here, false_or]

namespace Pass.Below

variable {left right : Pass σ}

theorem refl (pass : Pass σ) : pass.Below pass := ⟨.refl _, fun _ => .refl _⟩

omit [IdempotentMerge σ] in
theorem withState (near : left.Below right) {state other : σ} (lower : ClauseReach.Below state other) :
    (left.withState state).Below (right.withState other) := ⟨lower, near.arriving⟩

theorem record (near : left.Below right) (dest : Dest) {state other : σ} (lower : ClauseReach.Below state other) :
    (left.record dest state).Below (right.record dest other) := by
  refine ⟨near.state, fun place => ?_⟩
  rw [arriving_record, arriving_record]
  split
  · exact (near.arriving dest).merge_merge lower
  · exact near.arriving place

theorem record_right (near : left.Below right) (dest : Dest) (state : σ) : left.Below (right.record dest state) := by
  refine ⟨near.state, fun place => ?_⟩
  rw [arriving_record]
  split
  next same => rw [same]; exact (near.arriving dest).merge_right state
  next => exact near.arriving place

theorem resolve (near : left.Below right) (dest : Dest) : (left.resolve dest).2.Below (right.resolve dest).2 := by
  refine ⟨?_, fun place => ?_⟩
  · rw [state_resolve, state_resolve]
    exact near.state.merge_merge (near.arriving dest)
  · rw [arriving_resolve, arriving_resolve]
    split
    · exact .refl _
    · exact near.arriving place

theorem sendAll (near : left.Below right) {labels others : List Dest} (fewer : labels ⊆ others) :
    ∀ dest, ClauseReach.Below ((left.sendAll labels).arriving dest) ((right.sendAll others).arriving dest) := by
  intro dest
  rw [arriving_sendAll, arriving_sendAll]
  apply (near.arriving dest).merge_merge
  by_cases sent : dest ∈ labels
  · rw [if_pos sent, if_pos (fewer sent)]
    exact near.state
  · rw [if_neg sent]
    exact .of_unreachable _

end Pass.Below

def lowered (σ τ : Type) [StateAlgebra σ] [IdempotentMerge σ] : Simulation σ τ σ τ where
  states := Below
  passes := Pass.Below
  owns _ _ := True
  counts _ _ := True
  records _ := True
  resolves _ := True
  states_unreachable := .refl _
  states_clone near := near.clone_clone
  states_merge near further := near.merge_merge further
  states_current near := near.state
  passes_set near lower := near.withState lower
  passes_record near _ lower := near.record _ lower
  passes_resolve near _ := near.resolve _
  counts_resolve _ _ := trivial

end Passes

section Jumps

/-- A label that a value may be known to lead to: that of a section, or the end of a switch that can be passed by. -/
def Leads (labels : List Dest) (brk : Dest) (target : Label) : Prop :=
  some target ∈ labels ∧ some target ≠ brk ∨ some target = brk ∧ ∀ dest ∈ labels, Dest.isDefault dest = false

instance (labels : List Dest) (brk : Dest) (target : Label) : Decidable (Leads labels brk target) :=
  inferInstanceAs (Decidable (_ ∨ _))

theorem targets_subset {switch : JumpSwitch σ τ} {target : Label} (leads : Leads switch.labels switch.brk target) :
    JumpSwitch.targets { switch with target := some target } ⊆ switch.labels := by
  change (if some target = switch.brk then [] else [some target]) ⊆ switch.labels
  rcases leads with ⟨inside, elsewhere⟩ | ⟨past, _⟩
  · rw [if_neg elsewhere]
    exact List.cons_subset.mpr ⟨inside, List.nil_subset _⟩
  · rw [if_pos past]
    exact List.nil_subset _

variable [StateAlgebra σ] [IdempotentMerge σ]

theorem passing_below {switch : JumpSwitch σ τ} {target : Label} (leads : Leads switch.labels switch.brk target)
    {state other : σ} (near : Below state other) :
    Below (JumpSwitch.passing { switch with target := some target } state)
      (JumpSwitch.passing { switch with target := none } other) := by
  change Below (if decide (some target ≠ switch.brk) = true then unreachable else state)
    (if switch.labels.any Dest.isDefault = true then unreachable else other)
  rcases leads with ⟨_, elsewhere⟩ | ⟨past, uncovered⟩
  · rw [if_pos (decide_eq_true elsewhere)]
    exact .of_unreachable _
  · have passable : switch.labels.any Dest.isDefault = false := List.any_eq_false.mpr (by simpa using uncovered)
    rw [if_neg (by simp [past]), if_neg (by simp [passable])]
    exact near

theorem jump_lowered (switch : JumpSwitch σ τ) (present : none ∉ switch.labels) {target : Label}
    (leads : Leads switch.labels switch.brk target) (evaluated : (lowered σ τ).InStep Eq switch.scrutinee switch.scrutinee)
    (parts : List.Forall₂ (lowered σ τ).Sections switch.sections switch.sections) {first second : Session σ τ}
    (near : first.pass.Below second.pass) :
    (lowered σ τ).Outcomes Eq (JumpSwitch.run { switch with target := some target } first)
      (JumpSwitch.run { switch with target := none } second) := by
  let known : AnySwitch σ τ Unit Unit := .jump { switch with target := some target }
  let unknown : AnySwitch σ τ Unit Unit := .jump { switch with target := none }
  change (lowered σ τ).Outcomes Eq (known.run first) (unknown.run second)
  rw [AnySwitch.run_eq, AnySwitch.run_eq]
  have held : (lowered σ τ).Sessions first second := ⟨near, trivial⟩
  rcases (evaluated.outcomes held).exists_or_fault with
    ⟨_, _, middle, after, reached, arrived, _, kept⟩ | ⟨fault, middle, after, reached, arrived, kept⟩
  · have began : known.header first = _ := jumpHeader_eq { switch with target := some target } present reached
    have opened : unknown.header second = _ := jumpHeader_eq { switch with target := none } present arrived
    rw [Analysis.bind_ok began, Analysis.bind_ok opened]
    have behind : (lowered σ τ).resolves switch.brk := trivial
    apply (Simulation.InStep.finish parts (passing_below leads kept.1.state) behind).outcomes
    exact ⟨⟨.refl _, kept.1.sendAll (targets_subset leads)⟩, trivial⟩
  · have stopped : known.header first = .error fault middle := Analysis.bind_error reached
    have halted : unknown.header second = .error fault after := Analysis.bind_error arrived
    rw [Analysis.bind_error stopped, Analysis.bind_error halted]
    exact .error kept

end Jumps

namespace Decision

variable (known : Constant)

mutual

theorem visits_sublist (tree : Decision ε ν) : (tree.visits (some known)).Sublist (tree.visits none) := by
  cases tree with
  | empty => exact .refl _
  | foreign node => exact .refl _
  | byType onNull cases otherwise =>
    exact (visits_sublist onNull).append ((visitsOfTypes_sublist cases).append (visits_sublist otherwise))
  | byValue cases otherwise =>
    have undecided : (cases.any fun case => Constant.equal? none case.1) = false := by simp [Constant.equal?]
    rw [visits, visits, undecided]
    apply (visitsOfValues_sublist cases).append
    split
    · exact List.nil_sublist _
    · exact visits_sublist otherwise
  | leaf bindings guard label fallback => exact (visits_sublist fallback).cons_cons _
termination_by structural tree

theorem visitsOfTypes_sublist (trees : List (Decision ε ν)) :
    (visitsOfTypes (some known) trees).Sublist (visitsOfTypes none trees) := by
  cases trees with
  | nil => exact .refl _
  | cons tree rest => exact (visits_sublist tree).append (visitsOfTypes_sublist rest)
termination_by structural trees

theorem visitsOfValues_sublist (cases : List (Option Constant × Decision ε ν)) :
    (visitsOfValues (some known) cases).Sublist (visitsOfValues none cases) := by
  cases cases with
  | nil => exact .refl _
  | cons first rest =>
    obtain ⟨value, tree⟩ := first
    rw [visitsOfValues, visitsOfValues, if_pos (Or.inl rfl)]
    refine List.Sublist.append ?_ (visitsOfValues_sublist rest)
    split
    · exact visits_sublist tree
    · exact List.nil_sublist _
termination_by structural cases

end

end Decision

section Trees

variable {matcher : Matcher σ τ ε ν}

theorem Matcher.Confined.enter_pass (confined : matcher.Confined) (leaf : Leaf ε ν) (session : Session σ τ) :
    ∃ state own, matcher.enter leaf.bindings leaf.guard leaf.label session = .ok () ⟨session.pass.withState state, own⟩ := by
  obtain ⟨bindings, guard, label⟩ := leaf
  obtain ⟨state, own, binds⟩ := confined.bind bindings label session
  cases guard with
  | none => exact ⟨state, own, Analysis.bind_ok binds⟩
  | some guard =>
    obtain ⟨states, _, kept, judges⟩ := confined.split guard ⟨session.pass.withState state, own⟩
    exact ⟨states.1, kept, (Analysis.bind_ok binds).trans (Analysis.bind_ok judges)⟩

variable [StateAlgebra σ] [IdempotentMerge σ]

theorem follow_lowered (confined : matcher.Confined) (alike : (lowered σ τ).Matchers matcher matcher)
    {fewer visits : List (Visit ε ν)} (part : fewer.Sublist visits) {entry other : σ} (lower : Below entry other)
    {first second after : Session σ τ} (here : first.pass.state = entry) (near : first.pass.Below second.pass)
    (ended : follow matcher other visits second = .ok () after) :
    ∃ before, follow matcher entry fewer first = .ok () before ∧ before.pass.Below after.pass := by
  induction part generalizing first second with
  | slnil =>
    cases ended
    exact ⟨first, rfl, near⟩
  | cons visit _ ih =>
    cases visit with
    | foreign node => cases ended
    | leaf leaf =>
      -- The upper side alone enters this leaf; nothing but its branch remains of that.
      obtain ⟨state, own, entered⟩ := confined.enter_pass leaf second
      rw [follow, Analysis.bind_ok entered] at ended
      have above : first.pass.Below ((second.pass.record leaf.label state).withState other) :=
        ⟨here ▸ lower, (near.record_right leaf.label state).arriving⟩
      exact ih here above ended
  | cons_cons visit _ ih =>
    cases visit with
    | foreign node => cases ended
    | leaf leaf =>
      obtain ⟨_, middle, entered, went⟩ := Analysis.exists_of_bind_ok ended
      have held : (lowered σ τ).Sessions first second := ⟨near, trivial⟩
      have both := (alike.enter leaf.bindings leaf.guard leaf.label).outcomes held
      rw [entered] at both
      obtain ⟨_, reached, arrived, _, kept⟩ := both.exists_of_ok
      have below : ((reached.pass.record leaf.label reached.pass.state).withState entry).Below
          ((middle.pass.record leaf.label middle.pass.state).withState other) :=
        (kept.1.record leaf.label kept.1.state).withState lower
      rw [follow, Analysis.bind_ok arrived]
      exact ih rfl below went

theorem tree_lowered (confined : matcher.Confined) (alike : (lowered σ τ).Matchers matcher matcher)
    (switch : TreeSwitch σ τ ε ν) (known : Constant)
    (evaluated : (lowered σ τ).InStep Eq switch.scrutinee switch.scrutinee)
    (parts : List.Forall₂ (lowered σ τ).Sections switch.sections switch.sections) {first second after : Session σ τ}
    (near : first.pass.Below second.pass)
    (ended : TreeSwitch.run matcher { switch with known := none } second = .ok () after) :
    ∃ before, TreeSwitch.run matcher { switch with known := some known } first = .ok () before ∧
      before.pass.Below after.pass := by
  obtain ⟨_, middle, examined, ended⟩ := Analysis.exists_of_bind_ok ended
  have held : (lowered σ τ).Sessions first second := ⟨near, trivial⟩
  have both := evaluated.outcomes held
  rw [examined] at both
  obtain ⟨_, start, reached, _, kept⟩ := both.exists_of_ok
  obtain ⟨_, _, here, ended⟩ := Analysis.exists_of_bind_ok ended
  cases here
  obtain ⟨_, walked, went, ended⟩ := Analysis.exists_of_bind_ok ended
  obtain ⟨left, followed, below⟩ := follow_lowered confined alike (switch.tree.visits_sublist known) kept.1.state rfl
    kept.1 ((Decision.walk_eq_follow matcher none switch.tree middle).symm.trans went)
  have strolled : switch.tree.walk matcher (some known) start = .ok () left :=
    (Decision.walk_eq_follow matcher (some known) switch.tree start).trans followed
  have behind : (lowered σ τ).resolves switch.brk := trivial
  have sent : ∀ dest ∈ switch.fallback, (lowered σ τ).records (some dest) := fun _ _ => trivial
  have still : (lowered σ τ).Sessions left walked := ⟨below, trivial⟩
  have finished := (Simulation.InStep.afterWalk switch.complete kept.1.state parts behind sent).outcomes still
  rw [ended] at finished
  obtain ⟨_, before, final, _, lower⟩ := finished.exists_of_ok
  refine ⟨before, ?_, lower.1⟩
  have here : Analysis.current start = .ok start.pass.state start := rfl
  exact (Analysis.bind_ok reached).trans ((Analysis.bind_ok here).trans ((Analysis.bind_ok strolled).trans final))

end Trees

namespace Script

/-- A fact added to two ways is added where they meet. -/
class MonotoneDomain (σ : Type) [Domain σ] : Prop extends IdempotentMerge σ where
  add_merge (state other : σ) (name : String) :
    Domain.add (merge state other) name = merge (Domain.add state name) (Domain.add other name)

instance : MonotoneDomain (May String) where
  add_merge _ _ _ := congrArg May.mk (mergeReached_map (fun _ _ => FactSet.ext fun _ => by simp; grind) _ _)

instance : MonotoneDomain (Must String) where
  add_merge _ _ _ := congrArg Must.mk (mergeReached_map (fun _ _ => FactSet.ext fun _ => by simp; grind) _ _)

variable [Domain σ]

def scriptLowered (σ : Type) [Domain σ] [MonotoneDomain σ] : ScriptSimulation σ σ where
  toSimulation := lowered σ (List (Event σ))
  states_add := by
    intro first second name near
    change merge (Domain.add first name) (Domain.add second name) = Domain.add second name
    rw [← MonotoneDomain.add_merge, near]
  owns_log _ _ := trivial

theorem labels_prepare (hooks : Hooks) (sections : List (List Dest × List (Stmt σ))) :
    (prepare hooks sections).flatMap (·.labels) = sections.flatMap Prod.fst := by
  induction sections with
  | nil => rfl
  | cons first rest ih => rw [prepare, List.flatMap_cons, List.flatMap_cons, ih]

variable [MonotoneDomain σ]

abbrev EndsBelow : EStateM.Result Fault (Session σ (List (Event σ))) Unit →
    EStateM.Result Fault (Session σ (List (Event σ))) Unit → Prop :=
  (lowered σ (List (Event σ))).Outcomes Eq

/-- What is known of a value refines the result of a switch, and every statement keeps a pass below another one. -/
theorem knowledge_refines (hooks : Hooks) :
    (∀ (scrutinee : Option Expr) (sections : List (List Dest × List (Stmt σ))) (brk : Dest) (target : Label)
        (session : Session σ (List (Event σ))),
      none ∉ sections.flatMap Prod.fst → Leads (sections.flatMap Prod.fst) brk target →
        EndsBelow ((Stmt.jumpSwitch scrutinee sections brk (some target)).run hooks session)
          ((Stmt.jumpSwitch scrutinee sections brk none).run hooks session)) ∧
    (∀ (scrutinee : Option Expr) (known : Constant) (tree : Tree) (fallback : Dest) (complete : Bool)
        (sections : List (List Dest × List (Stmt σ))) (brk : Dest) (session after : Session σ (List (Event σ))),
      (Stmt.treeSwitch scrutinee none tree fallback complete sections brk).run hooks session = .ok () after →
        ∃ before, (Stmt.treeSwitch scrutinee (some known) tree fallback complete sections brk).run hooks session =
          .ok () before ∧ before.pass.Below after.pass) ∧
    ∀ (stmt : Stmt σ) (first second : Session σ (List (Event σ))), first.pass.Below second.pass →
      EndsBelow (stmt.run hooks first) (stmt.run hooks second) := by
  let sim : ScriptSimulation σ σ := scriptLowered σ
  have parts (sections : List (List Dest × List (Stmt σ))) :
      List.Forall₂ sim.Sections (prepare hooks sections) (prepare hooks sections) :=
    prepare_inStep sim hooks sections (likeInside_self Below.refl sections) (fun _ _ => trivial) fun _ _ => trivial
  refine ⟨?_, ?_, ?_⟩
  · intro scrutinee sections brk target session present leads
    rw [← labels_prepare hooks] at present leads
    exact jump_lowered ⟨evalScrutinee scrutinee, prepare hooks sections, brk, none⟩ present leads
      (scrutinee_inStep sim scrutinee) (parts sections) (.refl _)
  · intro scrutinee known tree fallback complete sections brk session after ended
    exact tree_lowered (matcher_confined hooks) (matcher_inStep sim hooks)
      ⟨evalScrutinee scrutinee, none, tree, fallback, complete, prepare hooks sections, brk⟩ known
      (scrutinee_inStep sim scrutinee) (parts sections) (.refl _) ended
  · intro stmt first second near
    have held : sim.Sessions first second := ⟨near, trivial⟩
    exact (stmt.run_inStep sim hooks (stmt.like_self Below.refl) (fun _ _ => trivial) fun _ _ => trivial).outcomes held

def decidedTree : Tree :=
  .byValue [(some (.int 1), .leaf ["v"] none (place 1) .empty), (some (.int 2), .leaf ["w"] none (place 2) .empty)]
    (.leaf [] none (place 9) .empty)

/-- A section that breaks, and one with a switch inside that branches back. -/
def decided : List (List Dest × List (Stmt (May String))) :=
  [([place 1], [.fact "first", .jump (place 3)]),
    ([place 2, some ⟨4, .default, ""⟩], [.treeSwitch none none decidedTree (place 9) true [] (place 5), .fact "second"])]

def decidedSections : List (List Dest × List (Stmt (May String))) :=
  [([place 1], [.fact "first", .jump (place 3)]), ([place 2], [.fact "second", .branch (place 9)])]

/-- A switch on labels that leads to its first section, a switch on a tree where the value is two, and a switch
started in states with more facts that hold on every way. -/
theorem decided_refines :
    (none ∉ decided.flatMap Prod.fst ∧ Leads (decided.flatMap Prod.fst) (place 3) ⟨1, .user, ""⟩ ∧
      EndsBelow ((Stmt.jumpSwitch none decided (place 3) (place 1)).run ⟨true, true⟩ opening)
        ((Stmt.jumpSwitch none decided (place 3) none).run ⟨true, true⟩ opening)) ∧
    (∃ before after,
      (Stmt.treeSwitch none none decidedTree none true decidedSections (place 3)).run ⟨true, true⟩ opening = .ok () after ∧
      (Stmt.treeSwitch none (some (.int 2)) decidedTree none true decidedSections (place 3)).run ⟨true, true⟩ opening =
        .ok () before ∧ before.pass.Below after.pass) ∧
    ∀ stmt : Stmt (Must String),
      EndsBelow (stmt.run ⟨true, true⟩ ⟨.start ⟨some (.ofList ["a", "b"])⟩, []⟩)
        (stmt.run ⟨true, true⟩ ⟨.start ⟨some (.ofList ["b"])⟩, []⟩) := by
  have present : none ∉ decided.flatMap Prod.fst := by decide
  have leads : Leads (decided.flatMap Prod.fst) (place 3) ⟨1, .user, ""⟩ := by decide
  obtain ⟨jumps, trees, _⟩ := knowledge_refines (σ := May String) ⟨true, true⟩
  obtain ⟨_, _, monotone⟩ := knowledge_refines (σ := Must String) ⟨true, true⟩
  refine ⟨⟨present, leads, jumps none decided (place 3) ⟨1, .user, ""⟩ opening present leads⟩, ?_, ?_⟩
  · have ends : ((Stmt.treeSwitch none none decidedTree none true decidedSections (place 3)).run ⟨true, true⟩).run'
        opening = some () := by decide +kernel
    obtain ⟨after, ran⟩ := Analysis.exists_of_run' ends
    obtain ⟨before, went, lower⟩ := trees none (.int 2) decidedTree none true decidedSections (place 3) opening after ran
    exact ⟨before, after, ran, went, lower⟩
  · intro stmt
    have lower : Below (⟨some (.ofList ["a", "b"])⟩ : Must String) ⟨some (.ofList ["b"])⟩ := by decide +kernel
    exact monotone stmt _ _ ⟨lower, fun _ => .refl _⟩

/-- Two sections that leave, the second for every other value. -/
def doubled : List (List Dest × List (Stmt (May String))) :=
  [([place 1], [.leave]), ([some ⟨2, .default, ""⟩], [.leave])]

/-- Where the end of a switch is under the label of a section, a value known to lead there passes by all sections,
while a value that is not known cannot. -/
theorem doubled_rises :
    none ∉ doubled.flatMap Prod.fst ∧ place 1 ∈ doubled.flatMap Prod.fst ∧
      ¬Below (finalPass ((Stmt.jumpSwitch none doubled (place 1) (place 1)).run ⟨true, true⟩ opening)).state
        (finalPass ((Stmt.jumpSwitch none doubled (place 1) none).run ⟨true, true⟩ opening)).state := by
  decide +kernel

end Script

end ClauseReach
