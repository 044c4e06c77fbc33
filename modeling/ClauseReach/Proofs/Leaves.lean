import ClauseReach.Script.Run

/-!
The leaves of a decision tree in the order in which a walk comes to them. A walk goes up and down the tree with
one current state, but where a state sent two ways stays what it is, each leaf is entered from the state in which
the walk began: the walk does no more than to send one branch for each leaf on a list, and it
ends where it started.
-/

namespace ClauseReach

open StateAlgebra

variable {σ τ ε ν α β : Type}

/-- A leaf by itself, without the tree to go on with. -/
structure Leaf (ε ν : Type) where
  bindings : List ν
  guard : Option ε
  label : Dest

/-- What a walk comes upon. -/
inductive Visit (ε ν : Type) where
  | leaf (leaf : Leaf ε ν)
  | foreign (node : String)

def Visit.foreign? : Visit ε ν → Option String
  | .leaf _ => none
  | .foreign node => some node

namespace Decision

mutual

/-- The leaves of a tree, as far as a value known as `known` can come to them. -/
def visits (known : Option Constant) : Decision ε ν → List (Visit ε ν)
  | .empty => []
  | .byType onNull cases otherwise =>
    onNull.visits known ++ (visitsOfTypes known cases ++ otherwise.visits known)
  | .byValue cases otherwise =>
    visitsOfValues known cases ++
      if cases.any fun case => Constant.equal? known case.1 then [] else otherwise.visits known
  | .leaf bindings guard label fallback => .leaf ⟨bindings, guard, label⟩ :: fallback.visits known
  | .foreign node => [.foreign node]
termination_by structural tree => tree

def visitsOfTypes (known : Option Constant) : List (Decision ε ν) → List (Visit ε ν)
  | [] => []
  | tree :: rest => tree.visits known ++ visitsOfTypes known rest
termination_by structural trees => trees

def visitsOfValues (known : Option Constant) : List (Option Constant × Decision ε ν) → List (Visit ε ν)
  | [] => []
  | (value, tree) :: rest =>
    (if known = none ∨ Constant.equal? known value then tree.visits known else []) ++ visitsOfValues known rest
termination_by structural cases => cases

end

end Decision

/-- Enters the leaves one after another, each from the same state. -/
def follow (matcher : Matcher σ τ ε ν) (entry : σ) : List (Visit ε ν) → Analysis σ τ Unit
  | [] => pure ()
  | .leaf leaf :: rest => do
    matcher.enter leaf.bindings leaf.guard leaf.label
    Analysis.record leaf.label (← Analysis.current)
    Analysis.setCurrent entry
    follow matcher entry rest
  | .foreign node :: _ => throw (.unknownDecision node)

section Follow

variable {matcher : Matcher σ τ ε ν} {entry : σ} {session : Session σ τ}

theorem follow_append (first second : List (Visit ε ν)) :
    follow matcher entry (first ++ second) = follow matcher entry first >>= fun _ => follow matcher entry second := by
  induction first with
  | nil => rw [List.nil_append, follow, pure_bind]
  | cons visit rest ih =>
    cases visit with
    | leaf leaf => simp only [List.cons_append, follow, ih, bind_assoc]
    | foreign node => rfl

theorem follow_state {visits : List (Visit ε ν)} {after : Session σ τ} (here : session.pass.state = entry)
    (ended : follow matcher entry visits session = .ok () after) : after.pass.state = entry := by
  induction visits generalizing session with
  | nil => cases ended; exact here
  | cons visit rest ih =>
    cases visit with
    | foreign node => cases ended
    | leaf leaf =>
      obtain ⟨_, entered, _, went⟩ := Analysis.exists_of_bind_ok ended
      exact ih rfl went

/-- Two parts of a walk, one after the other, with something to do behind them. -/
theorem follow_then_last {first second : List (Visit ε ν)} {act : Analysis σ τ Unit} {next last : Analysis σ τ α}
    (here : session.pass.state = entry) (began : act session = follow matcher entry first session)
    (went : ∀ after : Session σ τ, after.pass.state = entry →
      next after = (follow matcher entry second >>= fun _ => last) after) :
    (act >>= fun _ => next) session = (follow matcher entry (first ++ second) >>= fun _ => last) session := by
  rw [follow_append, bind_assoc, Analysis.bind_congr_left began]
  cases ended : follow matcher entry first session with
  | ok _ after =>
    rw [Analysis.bind_ok ended, Analysis.bind_ok ended]
    exact went after (follow_state here ended)
  | error fault after => rw [Analysis.bind_error ended, Analysis.bind_error ended]

theorem follow_then {first second : List (Visit ε ν)} {act next : Analysis σ τ Unit}
    (here : session.pass.state = entry) (began : act session = follow matcher entry first session)
    (went : ∀ after : Session σ τ, after.pass.state = entry → next after = follow matcher entry second after) :
    (act >>= fun _ => next) session = follow matcher entry (first ++ second) session := by
  have joined : (act >>= fun _ => next) session =
      (follow matcher entry (first ++ second) >>= fun _ => pure ()) session := by
    apply follow_then_last here began
    intro after back
    rw [bind_pure_unit]
    exact went after back
  rwa [bind_pure_unit] at joined

theorem setCurrent_here {next : Unit → Analysis σ τ α} (here : session.pass.state = entry) :
    (Analysis.setCurrent entry >>= next) session = next () session := by
  subst here
  rfl

end Follow

namespace Decision

variable [StateAlgebra σ] [TransparentClone σ] (matcher : Matcher σ τ ε ν) (known : Option Constant)

mutual

/-- A walk is nothing but a list of leaves entered from the state in which it began. -/
theorem walk_eq_follow (tree : Decision ε ν) (session : Session σ τ) :
    tree.walk matcher known session = follow matcher session.pass.state (tree.visits known) session := by
  cases tree with
  | empty => rfl
  | foreign node => rfl
  | byType onNull cases otherwise =>
    change (Analysis.setCurrent (clone session.pass.state) >>= fun _ => onNull.walk matcher known >>= fun _ => _)
      session = _
    rw [TransparentClone.clone_eq, setCurrent_here rfl]
    apply follow_then rfl (walk_eq_follow onNull session)
    intro middle here
    apply follow_then here (walkTypes_eq_follow cases here)
    intro last back
    rw [setCurrent_here back, walk_eq_follow otherwise last, back]
  | byValue cases otherwise =>
    -- Whether a case was taken counts only if the value is known.
    have decided : (known.isSome && cases.any fun case => decide (known = none ∨ Constant.equal? known case.1)) =
        cases.any fun case => Constant.equal? known case.1 := by
      cases known <;> simp [Constant.equal?]
    have walked := walkValues_eq_follow cases (rfl : session.pass.state = _)
    change (walkValues matcher known session.pass.state cases >>= _) session = _
    rw [Analysis.bind_congr_left walked, bind_assoc]
    apply follow_then rfl rfl
    intro after back
    rw [pure_bind, decided]
    split
    next => rfl
    next => rw [setCurrent_here back, walk_eq_follow otherwise after, back]
  | leaf bindings guard label fallback =>
    change (matcher.enter bindings guard label >>= _) session = (matcher.enter bindings guard label >>= _) session
    cases entered : matcher.enter bindings guard label session with
    | error fault after => rw [Analysis.bind_error entered, Analysis.bind_error entered]
    | ok _ after =>
      rw [Analysis.bind_ok entered, Analysis.bind_ok entered]
      change fallback.walk matcher known
          { after with pass := (after.pass.record label after.pass.state).withState (clone session.pass.state) } = _
      rw [TransparentClone.clone_eq, walk_eq_follow fallback]
      rfl
termination_by structural tree

theorem walkTypes_eq_follow (trees : List (Decision ε ν)) {entry : σ} {session : Session σ τ}
    (here : session.pass.state = entry) :
    walkTypes matcher known entry trees session = follow matcher entry (visitsOfTypes known trees) session := by
  cases trees with
  | nil => rfl
  | cons tree rest =>
    change (Analysis.setCurrent (clone entry) >>= fun _ => tree.walk matcher known >>= fun _ => _) session = _
    rw [TransparentClone.clone_eq, setCurrent_here here]
    apply follow_then here (by rw [walk_eq_follow tree session, here])
    intro after back
    exact walkTypes_eq_follow rest back
termination_by structural trees

theorem walkValues_eq_follow (cases : List (Option Constant × Decision ε ν)) {entry : σ} {session : Session σ τ}
    (here : session.pass.state = entry) :
    walkValues matcher known entry cases session =
      (follow matcher entry (visitsOfValues known cases) >>= fun _ =>
        pure (cases.any fun case => decide (known = none ∨ Constant.equal? known case.1))) session := by
  cases cases with
  | nil => rfl
  | cons first rest =>
    obtain ⟨value, tree⟩ := first
    have taken : (known.isSome && !Constant.equal? known value) = false ↔
        known = none ∨ Constant.equal? known value := by
      cases known <;> simp
    rw [walkValues, visitsOfValues, List.any_cons]
    by_cases chosen : known = none ∨ Constant.equal? known value
    · rw [taken.mpr chosen, if_pos chosen, decide_eq_true chosen, Bool.true_or]
      change (Analysis.setCurrent (clone entry) >>= fun _ => tree.walk matcher known >>= fun _ => _) session = _
      rw [TransparentClone.clone_eq, setCurrent_here here]
      apply follow_then_last here (by rw [walk_eq_follow tree session, here])
      intro after back
      rw [Analysis.bind_congr_left (walkValues_eq_follow rest back), bind_assoc]
      rfl
    · have skipped : (known.isSome && !Constant.equal? known value) = true := by
        rw [← Bool.not_eq_false, taken]
        exact chosen
      rw [skipped, if_neg chosen, decide_eq_false chosen, Bool.false_or]
      exact walkValues_eq_follow rest here
termination_by structural cases

end

end Decision

/-- Binding and splitting end without a fault, and change nothing of a pass but its current state. -/
structure Matcher.Confined (matcher : Matcher σ τ ε ν) : Prop where
  bind : ∀ bindings label session, ∃ state own,
    matcher.bind bindings label session = .ok () ⟨session.pass.withState state, own⟩
  split : ∀ guard session, ∃ states state own,
    matcher.split guard session = .ok states ⟨session.pass.withState state, own⟩

/-- One branch for each leaf in turn, with the state that the leaf's own bindings and guard make of the current
one. Between two leaves the pass differs by this branch alone. -/
inductive Sends (matcher : Matcher σ τ ε ν) : Session σ τ → List (Leaf ε ν × σ) → Session σ τ → Prop where
  | done (session : Session σ τ) : Sends matcher session [] session
  | plain {session bound after : Session σ τ} {rest : List (Leaf ε ν × σ)} (leaf : Leaf ε ν)
      (binds : matcher.bind leaf.bindings leaf.label session = .ok () bound) (unguarded : leaf.guard = none)
      (later : Sends matcher ⟨session.pass.record leaf.label bound.pass.state, bound.own⟩ rest after) :
      Sends matcher session ((leaf, bound.pass.state) :: rest) after
  | guarded {session bound judged after : Session σ τ} {guard : ε} {holds fails : σ}
      {rest : List (Leaf ε ν × σ)} (leaf : Leaf ε ν)
      (binds : matcher.bind leaf.bindings leaf.label session = .ok () bound)
      (guarded : leaf.guard = some guard) (judges : matcher.split guard bound = .ok (holds, fails) judged)
      (later : Sends matcher ⟨session.pass.record leaf.label holds, judged.own⟩ rest after) :
      Sends matcher session ((leaf, holds) :: rest) after

section Sending

variable {matcher : Matcher σ τ ε ν}

theorem Sends.pass_eq {session after : Session σ τ} {sent : List (Leaf ε ν × σ)}
    (sends : Sends matcher session sent after) :
    after.pass = sent.foldl (fun pass branch => pass.record branch.1.label branch.2) session.pass := by
  induction sends with
  | done session => rfl
  | plain _ _ _ _ ih => exact ih
  | guarded _ _ _ _ _ ih => exact ih

theorem Sends.kept {session after : Session σ τ} {sent : List (Leaf ε ν × σ)}
    (sends : Sends matcher session sent after) :
    after.pass.state = session.pass.state ∧ after.pass.resolved = session.pass.resolved := by
  induction sends with
  | done session => exact ⟨rfl, rfl⟩
  | plain _ _ _ _ ih => exact ih
  | guarded _ _ _ _ _ ih => exact ih

namespace Matcher.Confined

theorem follow_leaves (confined : matcher.Confined) (leaves : List (Leaf ε ν)) (session : Session σ τ) :
    ∃ after sent, follow matcher session.pass.state (leaves.map .leaf) session = .ok () after ∧
      sent.map Prod.fst = leaves ∧ Sends matcher session sent after := by
  induction leaves generalizing session with
  | nil => exact ⟨session, [], rfl, rfl, .done session⟩
  | cons leaf rest ih =>
    obtain ⟨bindings, guard, label⟩ := leaf
    obtain ⟨state, own, binds⟩ := confined.bind bindings label session
    rw [List.map_cons, follow]
    cases guard with
    | none =>
      have entered : matcher.enter bindings none label session = .ok () ⟨session.pass.withState state, own⟩ :=
        Analysis.bind_ok binds
      obtain ⟨after, sent, ended, listed, sends⟩ := ih ⟨session.pass.record label state, own⟩
      rw [Analysis.bind_ok entered]
      refine ⟨after, _, ended, ?_, .plain ⟨bindings, none, label⟩ binds rfl sends⟩
      exact congrArg (_ :: ·) listed
    | some guard =>
      obtain ⟨⟨holds, fails⟩, split, kept, judges⟩ := confined.split guard ⟨session.pass.withState state, own⟩
      have entered : matcher.enter bindings (some guard) label session = .ok () ⟨session.pass.withState holds, kept⟩ :=
        (Analysis.bind_ok binds).trans (Analysis.bind_ok judges)
      obtain ⟨after, sent, ended, listed, sends⟩ := ih ⟨session.pass.record label holds, kept⟩
      rw [Analysis.bind_ok entered]
      refine ⟨after, _, ended, ?_, .guarded ⟨bindings, some guard, label⟩ binds rfl judges sends⟩
      exact congrArg (_ :: ·) listed

theorem enter (confined : matcher.Confined) (bindings : List ν) (guard : Option ε) (label : Dest)
    (session : Session σ τ) : ∃ after, matcher.enter bindings guard label session = .ok () after := by
  obtain ⟨state, own, binds⟩ := confined.bind bindings label session
  cases guard with
  | none => exact ⟨_, Analysis.bind_ok binds⟩
  | some guard =>
    obtain ⟨states, split, kept, judges⟩ := confined.split guard ⟨session.pass.withState state, own⟩
    exact ⟨_, (Analysis.bind_ok binds).trans (Analysis.bind_ok judges)⟩

/-- Only an unknown node stops a list of leaves, and the first one does. -/
theorem follow_fault_iff (confined : matcher.Confined) (entry : σ) (visits : List (Visit ε ν)) (node : String)
    (session : Session σ τ) :
    (∃ after, follow matcher entry visits session = .error (.unknownDecision node) after) ↔
      visits.findSome? Visit.foreign? = some node := by
  induction visits generalizing session with
  | nil =>
    constructor
    · rintro ⟨after, ended⟩
      cases ended
    · intro found
      cases found
  | cons visit rest ih =>
    cases visit with
    | leaf leaf =>
      obtain ⟨entered, inside⟩ := confined.enter leaf.bindings leaf.guard leaf.label session
      rw [follow, Analysis.bind_ok inside]
      exact ih _
    | foreign other =>
      constructor
      · rintro ⟨after, ended⟩
        cases ended
        rfl
      · intro found
        cases found
        exact ⟨session, rfl⟩

end Matcher.Confined

/-- A walk that meets no unknown node sends one branch for each leaf, in their order and from the state it
began in, and leaves all else of the pass as it was. A walk meets a fault just when an unknown node is among the
nodes it comes upon. -/
theorem walk_sends_leaves [StateAlgebra σ] [TransparentClone σ] (confined : matcher.Confined)
    (known : Option Constant) (tree : Decision ε ν) (session : Session σ τ) :
    (∀ leaves, tree.visits known = leaves.map .leaf →
      ∃ after sent, tree.walk matcher known session = .ok () after ∧ sent.map Prod.fst = leaves ∧
        Sends matcher session sent after ∧
        after.pass = sent.foldl (fun pass branch => pass.record branch.1.label branch.2) session.pass ∧
        after.pass.state = session.pass.state ∧ after.pass.resolved = session.pass.resolved) ∧
      ∀ node, (∃ after, tree.walk matcher known session = .error (.unknownDecision node) after) ↔
        (tree.visits known).findSome? Visit.foreign? = some node := by
  rw [Decision.walk_eq_follow]
  refine ⟨?_, fun node => confined.follow_fault_iff _ _ node session⟩
  intro leaves only
  rw [only]
  obtain ⟨after, sent, ended, listed, sends⟩ := confined.follow_leaves leaves session
  exact ⟨after, sent, ended, listed, sends, sends.pass_eq, sends.kept⟩

end Sending

namespace Script

variable [Domain σ]

theorem addFacts_confined (names : List String) (session : Session σ (List (Event σ))) :
    ∃ state, names.forM (fun name => addFact s!"bind:{name}") session =
      .ok () ⟨session.pass.withState state, session.own⟩ := by
  induction names generalizing session with
  | nil => exact ⟨session.pass.state, rfl⟩
  | cons name rest ih =>
    obtain ⟨state, ended⟩ := ih ⟨session.pass.withState (Domain.add session.pass.state s!"bind:{name}"), session.own⟩
    exact ⟨state, ended⟩

theorem act_confined (expr : Expr) (session : Session σ (List (Event σ))) :
    ∃ state, expr.act session = .ok () ⟨session.pass.withState state, session.own⟩ := by
  obtain ⟨name, effect⟩ := expr
  cases effect with
  | pure => exact ⟨session.pass.state, rfl⟩
  | fact => exact ⟨_, rfl⟩
  | kill => exact ⟨_, rfl⟩

theorem matcher_confined (hooks : Hooks) : (matcher hooks : Matcher σ (List (Event σ)) Expr String).Confined where
  bind names dest session := by
    change ∃ state own, bindNames hooks names dest session = .ok () ⟨session.pass.withState state, own⟩
    unfold bindNames
    split
    · obtain ⟨state, ended⟩ := addFacts_confined names session
      exact ⟨state, _, Analysis.bind_ok ended⟩
    · exact ⟨session.pass.state, session.own, rfl⟩
  split expr session := by
    obtain ⟨state, ended⟩ := act_confined expr ⟨session.pass, session.own ++ [.cond expr.name]⟩
    change ∃ states after own, (expr.act >>= _) (⟨session.pass, session.own ++ [.cond expr.name]⟩ : Session σ _) =
      .ok states ⟨session.pass.withState after, own⟩
    rw [Analysis.bind_ok ended]
    change ∃ states after own, (ite _ _ (ite _ _ _) : ScriptM σ (σ × σ)) _ = .ok states ⟨_, own⟩
    split
    · exact ⟨_, _, _, rfl⟩
    · split <;> exact ⟨_, _, _, rfl⟩

/-- A tree with an unknown node where the number two does not come. -/
def sampleTree : Tree :=
  .byType .empty
    [.leaf ["v"] (some ⟨"small", .fact⟩) (some ⟨1, .case, ""⟩)
      (.byValue [(some (.int 1), .foreign "main.bogus"), (some (.int 2), .leaf ["w"] none (some ⟨2, .case, ""⟩) .empty),
          (some (.float 2), .leaf [] none (some ⟨1, .case, ""⟩) .empty)]
        (.leaf [] none (some ⟨3, .default, ""⟩) .empty))]
    (.leaf [] none none .empty)

def sampleLeaves : List (Leaf Expr String) :=
  [⟨["v"], some ⟨"small", .fact⟩, some ⟨1, .case, ""⟩⟩, ⟨["w"], none, some ⟨2, .case, ""⟩⟩,
    ⟨[], none, some ⟨1, .case, ""⟩⟩, ⟨[], none, none⟩]

theorem sampleTree_sends :
    (∃ after sent, sampleTree.walk (matcher ⟨true, true⟩) (some (.int 2)) opening = .ok () after ∧
      sent.map Prod.fst = sampleLeaves ∧ Sends (matcher ⟨true, true⟩) opening sent after) ∧
    ∃ after, sampleTree.walk (matcher ⟨true, true⟩) (some (.int 1)) opening =
      .error (.unknownDecision "main.bogus") after := by
  constructor
  · have listed : sampleTree.visits (some (.int 2)) = sampleLeaves.map .leaf := rfl
    obtain ⟨sending, _⟩ := walk_sends_leaves (matcher_confined ⟨true, true⟩) (some (.int 2)) sampleTree opening
    obtain ⟨after, sent, ended, leaves, sends, _⟩ := sending sampleLeaves listed
    exact ⟨after, sent, ended, leaves, sends⟩
  · obtain ⟨_, faulting⟩ := walk_sends_leaves (matcher_confined ⟨true, true⟩) (some (.int 1)) sampleTree opening
    exact (faulting "main.bogus").mpr rfl

end Script

end ClauseReach
