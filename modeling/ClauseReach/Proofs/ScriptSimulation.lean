import ClauseReach.Proofs.Simulation

/-!
Scripts in step. Two scripts of one shape, which may differ in the states that they name, keep every relation that
holds call by call. The induction over scripts is made here once; what a relation says of whole scripts then
follows from what it says of states, of passes and of events.
-/

namespace ClauseReach.Script

open StateAlgebra

variable {σ σ' : Type}

mutual

/-- The destinations that a statement may send a branch to, at any depth. -/
def Stmt.records : Stmt σ → List Dest
  | .jump dest => [dest]
  | .branch dest => [dest]
  | .record dest _ => [dest]
  | .choose _ whenTrue whenFalse => recordsAll whenTrue ++ recordsAll whenFalse
  | .jumpSwitch _ sections _ target => target.toList.map some ++ recordsInside sections
  | .treeSwitch _ _ tree fallback _ sections _ => tree.labels ++ (fallback.toList.map some ++ recordsInside sections)
  | _ => []
termination_by structural stmt => stmt

def recordsAll : List (Stmt σ) → List Dest
  | [] => []
  | stmt :: rest => stmt.records ++ recordsAll rest
termination_by structural stmts => stmts

def recordsInside : List (List Dest × List (Stmt σ)) → List Dest
  | [] => []
  | (labels, body) :: rest => labels ++ (recordsAll body ++ recordsInside rest)
termination_by structural sections => sections

end

mutual

/-- Statements that differ in their states alone. -/
inductive Stmt.Like (states : σ → σ' → Prop) : Stmt σ → Stmt σ' → Prop where
  | fact (name : String) : Stmt.Like states (.fact name) (.fact name)
  | leave : Stmt.Like states .leave .leave
  | jump (dest : Dest) : Stmt.Like states (.jump dest) (.jump dest)
  | branch (dest : Dest) : Stmt.Like states (.branch dest) (.branch dest)
  | record (dest : Dest) {state : σ} {other : σ'} (held : states state other) :
      Stmt.Like states (.record dest state) (.record dest other)
  | resolve (dest : Dest) : Stmt.Like states (.resolve dest) (.resolve dest)
  | set {state : σ} {other : σ'} (held : states state other) : Stmt.Like states (.set state) (.set other)
  | join {state : σ} {other : σ'} (held : states state other) : Stmt.Like states (.join state) (.join other)
  | eval (expr : Expr) : Stmt.Like states (.eval expr) (.eval expr)
  | choose (condition : Expr) {whenTrue whenFalse : List (Stmt σ)} {positive negative : List (Stmt σ')}
      (first : LikeAll states whenTrue positive) (second : LikeAll states whenFalse negative) :
      Stmt.Like states (.choose condition whenTrue whenFalse) (.choose condition positive negative)
  | jumpSwitch (scrutinee : Option Expr) {sections : List (List Dest × List (Stmt σ))}
      {others : List (List Dest × List (Stmt σ'))} (brk target : Dest) (inside : LikeInside states sections others) :
      Stmt.Like states (.jumpSwitch scrutinee sections brk target) (.jumpSwitch scrutinee others brk target)
  | treeSwitch (scrutinee : Option Expr) (known : Option Constant) (tree : Tree) (fallback : Dest) (complete : Bool)
      {sections : List (List Dest × List (Stmt σ))} {others : List (List Dest × List (Stmt σ'))} (brk : Dest)
      (inside : LikeInside states sections others) :
      Stmt.Like states (.treeSwitch scrutinee known tree fallback complete sections brk)
        (.treeSwitch scrutinee known tree fallback complete others brk)

inductive LikeAll (states : σ → σ' → Prop) : List (Stmt σ) → List (Stmt σ') → Prop where
  | nil : LikeAll states [] []
  | cons {stmt : Stmt σ} {other : Stmt σ'} {rest : List (Stmt σ)} {others : List (Stmt σ')}
      (first : Stmt.Like states stmt other) (later : LikeAll states rest others) :
      LikeAll states (stmt :: rest) (other :: others)

inductive LikeInside (states : σ → σ' → Prop) :
    List (List Dest × List (Stmt σ)) → List (List Dest × List (Stmt σ')) → Prop where
  | nil : LikeInside states [] []
  | cons (labels : List Dest) {body : List (Stmt σ)} {other : List (Stmt σ')}
      {rest : List (List Dest × List (Stmt σ))} {others : List (List Dest × List (Stmt σ'))}
      (first : LikeAll states body other) (later : LikeInside states rest others) :
      LikeInside states ((labels, body) :: rest) ((labels, other) :: others)

end

mutual

/-- The states that a statement names, at any depth. -/
def Stmt.states : Stmt σ → List σ
  | .record _ state => [state]
  | .set state => [state]
  | .join state => [state]
  | .choose _ whenTrue whenFalse => statesAll whenTrue ++ statesAll whenFalse
  | .jumpSwitch _ sections _ _ => statesInside sections
  | .treeSwitch _ _ _ _ _ sections _ => statesInside sections
  | _ => []
termination_by structural stmt => stmt

def statesAll : List (Stmt σ) → List σ
  | [] => []
  | stmt :: rest => stmt.states ++ statesAll rest
termination_by structural stmts => stmts

def statesInside : List (List Dest × List (Stmt σ)) → List σ
  | [] => []
  | (_, body) :: rest => statesAll body ++ statesInside rest
termination_by structural sections => sections

end

section Itself

variable {states : σ → σ → Prop}

mutual

/-- A statement is like itself if every state in it is. -/
theorem Stmt.like_of_states (stmt : Stmt σ) (held : ∀ state ∈ stmt.states, states state state) :
    Stmt.Like states stmt stmt := by
  cases stmt with
  | fact name => exact .fact name
  | leave => exact .leave
  | jump dest => exact .jump dest
  | branch dest => exact .branch dest
  | record dest state => exact .record dest (held state (List.mem_singleton_self state))
  | resolve dest => exact .resolve dest
  | set state => exact .set (held state (List.mem_singleton_self state))
  | join state => exact .join (held state (List.mem_singleton_self state))
  | eval expr => exact .eval expr
  | choose condition whenTrue whenFalse =>
    simp only [Stmt.states, List.mem_append, or_imp, forall_and] at held
    exact .choose condition (likeAll_of_states whenTrue held.1) (likeAll_of_states whenFalse held.2)
  | jumpSwitch scrutinee sections brk target =>
    exact .jumpSwitch scrutinee brk target (likeInside_of_states sections held)
  | treeSwitch scrutinee known tree fallback complete sections brk =>
    exact .treeSwitch scrutinee known tree fallback complete brk (likeInside_of_states sections held)
termination_by structural stmt

theorem likeAll_of_states (stmts : List (Stmt σ)) (held : ∀ state ∈ statesAll stmts, states state state) :
    LikeAll states stmts stmts := by
  cases stmts with
  | nil => exact .nil
  | cons stmt rest =>
    simp only [statesAll, List.mem_append, or_imp, forall_and] at held
    exact .cons (stmt.like_of_states held.1) (likeAll_of_states rest held.2)
termination_by structural stmts

theorem likeInside_of_states (sections : List (List Dest × List (Stmt σ)))
    (held : ∀ state ∈ statesInside sections, states state state) : LikeInside states sections sections := by
  cases sections with
  | nil => exact .nil
  | cons first rest =>
    obtain ⟨labels, body⟩ := first
    simp only [statesInside, List.mem_append, or_imp, forall_and] at held
    exact .cons labels (likeAll_of_states body held.1) (likeInside_of_states rest held.2)
termination_by structural sections

end

variable (reflexive : ∀ state, states state state)

include reflexive

theorem Stmt.like_self (stmt : Stmt σ) : Stmt.Like states stmt stmt :=
  stmt.like_of_states fun state _ => reflexive state

theorem likeAll_self (stmts : List (Stmt σ)) : LikeAll states stmts stmts :=
  likeAll_of_states stmts fun state _ => reflexive state

theorem likeInside_self (sections : List (List Dest × List (Stmt σ))) : LikeInside states sections sections :=
  likeInside_of_states sections fun state _ => reflexive state

end Itself

/-- Events that tell the same, up to the states in which sections are entered. -/
inductive Event.Like (states : σ → σ' → Prop) (counts : Nat → Nat → Prop) : Event σ → Event σ' → Prop where
  | expr (name : String) : Event.Like states counts (.expr name) (.expr name)
  | cond (name : String) : Event.Like states counts (.cond name) (.cond name)
  | resolve (dest : Dest) {count other : Nat} (held : counts count other) :
      Event.Like states counts (.resolve dest count) (.resolve dest other)
  | bind (names : List String) (dest : Dest) : Event.Like states counts (.bind names dest) (.bind names dest)
  | enter (labels : List Dest) {state : σ} {other : σ'} (held : states state other) :
      Event.Like states counts (.enter labels state) (.enter labels other)

/-- A relation that lasts through whatever a script does to states, and through what it logs. -/
structure ScriptSimulation (σ σ' : Type) [Domain σ] [Domain σ'] extends
    Simulation σ (List (Event σ)) σ' (List (Event σ')) where
  states_add {first : σ} {second : σ'} (name : String) :
    states first second → states (Domain.add first name) (Domain.add second name)
  owns_log {events : List (Event σ)} {others : List (Event σ')} {event : Event σ} {other : Event σ'} :
    owns events others → Event.Like states counts event other → owns (events ++ [event]) (others ++ [other])

variable [Domain σ] [Domain σ'] (sim : ScriptSimulation σ σ')

open Simulation (InStep)

theorem log_inStep {event : Event σ} {other : Event σ'} (like : Event.Like sim.states sim.counts event other) :
    sim.InStep Eq (log event) (log other) := by
  apply InStep.keep
  intro events others held
  exact sim.owns_log held like

theorem addFact_inStep (name : String) : sim.InStep Eq (addFact name) (addFact name) := by
  apply InStep.bind .current
  intro now counterpart near
  exact .set (sim.states_add name near)

theorem act_inStep (expr : Expr) : sim.InStep Eq expr.act expr.act := by
  unfold Expr.act
  split
  · exact .pure rfl
  · exact addFact_inStep sim _
  · exact .set sim.states_unreachable

theorem eval_inStep (expr : Expr) : sim.InStep Eq expr.eval expr.eval := by
  apply InStep.bind (log_inStep sim (.expr expr.name))
  intro _ _ _
  exact act_inStep sim expr

theorem scrutinee_inStep (scrutinee : Option Expr) :
    sim.InStep Eq (evalScrutinee scrutinee) (evalScrutinee scrutinee) := by
  cases scrutinee with
  | none => exact .pure rfl
  | some expr => exact eval_inStep sim expr

theorem split_inStep (expr : Expr) :
    sim.InStep (fun states others => sim.states states.1 others.1 ∧ sim.states states.2 others.2) expr.split
      expr.split := by
  apply InStep.bind (log_inStep sim (.cond expr.name))
  intro _ _ _
  apply InStep.bind (act_inStep sim expr)
  intro _ _ _
  apply InStep.bind .current
  intro now counterpart near
  split
  · exact .pure ⟨near, sim.states_unreachable⟩
  · split
    · exact .pure ⟨sim.states_unreachable, near⟩
    · exact .pure ⟨sim.states_add _ near, near⟩

theorem addFacts_inStep (names : List String) :
    sim.InStep Eq (names.forM fun name => addFact s!"bind:{name}") (names.forM fun name => addFact s!"bind:{name}") := by
  induction names with
  | nil => exact .pure rfl
  | cons name rest ih =>
    apply InStep.bind (addFact_inStep sim _)
    intro _ _ _
    exact ih

theorem matcher_inStep (hooks : Hooks) : sim.Matchers (matcher hooks) (matcher hooks) := by
  refine ⟨fun names dest => ?_, split_inStep sim⟩
  change sim.InStep Eq (bindNames hooks names dest) (bindNames hooks names dest)
  unfold bindNames
  split
  · apply InStep.bind (addFacts_inStep sim names)
    intro _ _ _
    exact log_inStep sim (.bind names dest)
  · exact .pure rfl

theorem observeEntry_inStep (hooks : Hooks) (labels : List Dest) :
    sim.InStep Eq (observeEntry hooks labels) (observeEntry hooks labels) := by
  unfold observeEntry
  split
  · apply InStep.bind .current
    intro now counterpart near
    exact log_inStep sim (.enter labels near)
  · exact .pure rfl

/-- What a switch sends to its labels is among what it records. -/
theorem labels_recorded (hooks : Hooks) (sections : List (List Dest × List (Stmt σ))) :
    ∀ dest ∈ (prepare hooks sections).flatMap (·.labels), dest ∈ recordsInside sections := by
  induction sections with
  | nil => exact fun dest member => member
  | cons first rest ih =>
    obtain ⟨labels, body⟩ := first
    intro dest member
    rw [prepare, List.flatMap_cons, List.mem_append] at member
    rw [recordsInside, List.mem_append, List.mem_append]
    exact member.imp id fun later => Or.inr (ih dest later)

mutual

/-- Statements of one shape keep in step, one case for each form of statement. -/
theorem Stmt.run_inStep (hooks : Hooks) (stmt : Stmt σ) {other : Stmt σ'} (like : Stmt.Like sim.states stmt other)
    (sends : ∀ dest ∈ stmt.records, sim.records dest) (own : ∀ dest ∈ stmt.resolves, sim.resolves dest) :
    sim.InStep Eq (stmt.run hooks) (other.run hooks) := by
  cases stmt with
  | fact name =>
    cases like
    exact addFact_inStep sim name
  | leave =>
    cases like
    exact .set sim.states_unreachable
  | jump dest =>
    cases like
    apply InStep.bind (.branch (sends dest (List.mem_singleton_self dest)))
    intro _ _ _
    exact .set sim.states_unreachable
  | branch dest =>
    cases like
    exact .branch (sends dest (List.mem_singleton_self dest))
  | record dest state =>
    cases like with
    | record _ held => exact .record (sends dest (List.mem_singleton_self dest)) held
  | resolve dest =>
    cases like
    apply InStep.bind (.resolve (own dest (List.mem_singleton_self dest)))
    intro count counterpart near
    exact log_inStep sim (.resolve dest near)
  | set state =>
    cases like with
    | set held => exact .set held
  | join state =>
    cases like with
    | join held => exact .join held
  | eval expr =>
    cases like
    exact eval_inStep sim expr
  | choose condition whenTrue whenFalse =>
    cases like with
    | choose _ first second =>
      simp only [Stmt.records, Stmt.resolves, List.mem_append, or_imp, forall_and] at sends own
      apply InStep.bind (split_inStep sim condition)
      intro states others related
      apply InStep.bind (.set related.1)
      intro _ _ _
      apply InStep.bind (runAll_inStep hooks whenTrue first sends.1 own.1)
      intro _ _ _
      apply InStep.bind .current
      intro kept counterpart near
      apply InStep.bind (.set related.2)
      intro _ _ _
      apply InStep.bind (runAll_inStep hooks whenFalse second sends.2 own.2)
      intro _ _ _
      exact .join near
  | jumpSwitch scrutinee sections brk target =>
    cases like with
    | jumpSwitch _ _ _ inside =>
      simp only [Stmt.records, Stmt.resolves, List.mem_append, List.mem_cons, or_imp, forall_and, forall_eq] at sends own
      have parts := prepare_inStep hooks sections inside sends.2 own.2
      apply InStep.jump (scrutinee_inStep sim scrutinee) parts own.1
      · exact fun dest member => sends.2 dest (labels_recorded hooks sections dest member)
      · exact fun dest chosen => sends.1 (some dest) (by simpa using chosen)
  | treeSwitch scrutinee known tree fallback complete sections brk =>
    cases like with
    | treeSwitch _ _ _ _ _ _ inside =>
      simp only [Stmt.records, Stmt.resolves, List.mem_append, List.mem_cons, or_imp, forall_and, forall_eq] at sends own
      have parts := prepare_inStep hooks sections inside sends.2.2 own.2
      apply (matcher_inStep sim hooks).run (scrutinee_inStep sim scrutinee) parts own.1 sends.1
      exact fun dest chosen => sends.2.1 (some dest) (by simpa using chosen)
termination_by structural stmt

theorem runAll_inStep (hooks : Hooks) (stmts : List (Stmt σ)) {others : List (Stmt σ')}
    (like : LikeAll sim.states stmts others) (sends : ∀ dest ∈ recordsAll stmts, sim.records dest)
    (own : ∀ dest ∈ resolvesAll stmts, sim.resolves dest) :
    sim.InStep Eq (runAll hooks stmts) (runAll hooks others) := by
  cases stmts with
  | nil =>
    cases like
    exact .pure rfl
  | cons stmt rest =>
    cases like with
    | cons first later =>
      simp only [recordsAll, resolvesAll, List.mem_append, or_imp, forall_and] at sends own
      apply InStep.bind (stmt.run_inStep hooks first sends.1 own.1)
      intro _ _ _
      exact runAll_inStep hooks rest later sends.2 own.2
termination_by structural stmts

theorem prepare_inStep (hooks : Hooks) (sections : List (List Dest × List (Stmt σ)))
    {others : List (List Dest × List (Stmt σ'))} (like : LikeInside sim.states sections others)
    (sends : ∀ dest ∈ recordsInside sections, sim.records dest)
    (own : ∀ dest ∈ resolvesInside sections, sim.resolves dest) :
    List.Forall₂ sim.Sections (prepare hooks sections) (prepare hooks others) := by
  cases sections with
  | nil =>
    cases like
    exact .nil
  | cons first rest =>
    obtain ⟨labels, body⟩ := first
    cases like with
    | cons _ first later =>
      simp only [recordsInside, resolvesInside, List.mem_append, or_imp, forall_and] at sends own
      refine .cons ⟨rfl, own.1.1, ?_⟩ (prepare_inStep hooks rest later sends.2.2 own.2)
      apply InStep.bind (observeEntry_inStep sim hooks labels)
      intro _ _ _
      exact runAll_inStep hooks body first sends.2.1 own.1.2
termination_by structural sections

end

end ClauseReach.Script
