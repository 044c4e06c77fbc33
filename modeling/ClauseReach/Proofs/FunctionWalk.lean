import Mathlib.Data.List.Nodup
import ClauseReach.Checker.Check
import ClauseReach.Proofs.ListWalk
import ClauseReach.Proofs.TypeSwitchWalk

/-!
The walk of a function body. By induction on the syntax, the walk of every statement covers the ways through
it; labels are told apart by their places.
-/

namespace ClauseReach.Checker

open Source StateAlgebra Paths

variable {info : Info} {visible inner innerRest : List String} {first : Nat} {name : String}

theorem allLabels_perm (stmts : List Stmt) : (allLabels stmts).Perm (ownLabels stmts ++ innerAll stmts) := by
  induction stmts with
  | nil => exact .nil
  | cons stmt rest ih =>
    calc allLabels (stmt :: rest)
      _ = stmt.labels ++ (innerLabels stmt ++ allLabels rest) := rfl
      _ |>.Perm (stmt.labels ++ (innerLabels stmt ++ (ownLabels rest ++ innerAll rest))) :=
        (ih.append_left _).append_left _
      _ |>.Perm (stmt.labels ++ (ownLabels rest ++ (innerLabels stmt ++ innerAll rest))) :=
        .append_left _ (List.perm_append_comm_assoc _ _ _)
      _ = ownLabels (stmt :: rest) ++ innerAll (stmt :: rest) := by
        simp [ownLabels, innerAll]

/-- The labels inside a piece of code are distinct, and none of them is visible from outside. -/
structure Fenced (visible inner : List String) : Prop where
  distinct : inner.Nodup
  apart : ∀ label ∈ visible, label ∉ inner

namespace Fenced

theorem left (fenced : Fenced visible (inner ++ innerRest)) : Fenced visible inner where
  distinct := fenced.distinct.of_append_left
  apart label seen inside := fenced.apart label seen (List.mem_append_left _ inside)

theorem right (fenced : Fenced visible (inner ++ innerRest)) : Fenced visible innerRest where
  distinct := fenced.distinct.of_append_right
  apart label seen inside := fenced.apart label seen (List.mem_append_right _ inside)

theorem swap (fenced : Fenced visible (inner ++ innerRest)) : Fenced visible (innerRest ++ inner) where
  distinct := List.nodup_append_comm.mp fenced.distinct
  apart label seen inside := fenced.apart label seen (List.mem_append.mpr (List.mem_append.mp inside).symm)

theorem outside (fenced : Fenced visible (inner ++ innerRest)) {label : String} (member : label ∈ innerRest) :
    ¬(label ∈ visible ∨ label ∈ inner) := by
  intro found
  rcases found with seen | inside
  · exact fenced.apart label seen (List.mem_append_right _ member)
  · exact List.disjoint_of_nodup_append fenced.distinct inside member

theorem block {body : List Stmt} (fenced : Fenced visible (allLabels body)) :
    Fenced (ownLabels body ++ visible) (innerAll body) := by
  have distinct := (allLabels_perm body).nodup_iff.mp fenced.distinct
  refine ⟨distinct.of_append_right, ?_⟩
  intro label seen inside
  rcases List.mem_append.mp seen with own | outer
  · exact List.disjoint_of_nodup_append distinct own inside
  · exact fenced.apart label outer (mem_allLabels.mpr (.inr inside))

end Fenced

theorem wayOf_silent {stmt : Stmt} (legality : legal info visible stmt = true)
    (fenced : Fenced visible (innerLabels stmt ++ innerRest)) :
    Silent innerRest (wayOf info false name first stmt) := by
  intro label member before after left
  have leaves := (wayOf_orderly false name first stmt legality).leaves left
  exact fenced.outside member (goto_scoped stmt legality leaves)

/-- The ways through a statement list that control enters at its beginning. -/
abbrev blockWay (info : Info) (first : Nat) (body : List Stmt) : Way :=
  Paths.block false (ownLabels body) (crossAll info false first body)

theorem blockWay_orderly {body : List Stmt} (legality : legalAll info visible body = true) :
    Orderly (· ∈ exitJumpsAll body) (Numbered first (Traversal.clausesOfStmts body).length)
      (blockWay info first body) :=
  (crossAll_orderly false first body legality).block false (ownLabels body)

theorem blockWay_silent {body : List Stmt} (legality : legalAll info (ownLabels body ++ visible) body = true)
    (fenced : Fenced visible (allLabels body ++ innerRest)) : Silent innerRest (blockWay info first body) := by
  intro label member before after left
  have leaves := (blockWay_orderly legality).leaves left
  exact fenced.outside member (visible_of_block (goto_scopedAll body legality leaves))

theorem Carries.covers {body : List Stmt} {clauses : List CaseClause}
    (carries : Carries (walkAll info body) (ownLabels body) (innerAll body) first clauses
      (crossAll info false first body)) :
    Covers (walkAll info body) "" (allLabels body) first clauses (blockWay info first body) := by
  intro view sound detached closed
  refine carries.block view sound detached fun label member => ?_
  exact closed label (mem_allLabels.mpr (List.mem_append.mp member))

theorem walk_simple {stmt : Stmt} (simple : stmt.isSimple = true) :
    Covers (walk info stmt) "" [] first [] (wayOf info false name first stmt) := by
  cases stmt with
  | empty => exact covers_stay
  | expr expr => exact covers_evaluate expr
  | assign targets values => exact (assigns_assignAll targets).covers
  | eval operands => exact covers_stay
  | _ => cases simple

theorem straight_simple {stmt : Stmt} (simple : stmt.isSimple = true) :
    Straight (wayOf info false name first stmt) := by
  intro before cursor after passed
  cases stmt with
  | empty => exact passed.1
  | expr expr =>
    simp only [wayOf] at passed
    split at passed
    · cases passed
    · exact passed.1
  | assign targets values => exact passed.1
  | eval operands => exact passed.1
  | _ => cases simple

theorem wayOfCases_settled {clauses : List CaseClause} : Settled (wayOfCases info false first clauses) := by
  induction clauses generalizing first with
  | nil => exact fun _ _ _ => id
  | cons clause rest ih =>
    obtain ⟨pos, cases, binding, body⟩ := clause
    intro door before after passed
    cases door with
    | zero =>
      rcases passed with ⟨stops, _⟩ | ⟨_, elsewhere⟩ | ⟨middle, _, passed⟩
      · cases stops
      · exact elsewhere rfl
      · exact ih 0 middle after passed
    | succ door => exact ih door before after passed

theorem walkCases_length (clauses : List CaseClause) : (walkCases info clauses).length = clauses.length := by
  induction clauses with
  | nil => rfl
  | cons clause rest ih =>
    obtain ⟨pos, cases, binding, body⟩ := clause
    exact congrArg (· + 1) ih

mutual

theorem walk_covers {visible : List String} (name : String) (first : Nat) : ∀ (stmt : Stmt),
    legal info visible stmt = true → Fenced visible (innerLabels stmt) →
      Takes (walk info stmt) (if takesLabel stmt then name else "") stmt.labels (innerLabels stmt) first
        (Traversal.clausesOfStmt stmt) (wayOf info false name first stmt)
  | .empty, _, _ => takes_nil.mpr covers_stay
  | .block body, legality, fenced => by
    simp only [legal, innerLabels] at legality fenced
    exact takes_nil.mpr (walkAll_carries first body legality fenced.block).covers
  | .expr expr, _, _ => takes_nil.mpr (covers_evaluate expr)
  | .assign targets _, _, _ => takes_nil.mpr (assigns_assignAll targets).covers
  | .eval _, _, _ => takes_nil.mpr covers_stay
  | .declare .variables specs, legality, _ => takes_nil.mpr (assigns_declareAll legality).covers
  | .declare .other _, _, _ => takes_nil.mpr covers_stay
  | .return _, _, _ => takes_nil.mpr covers_stuck
  | .jump jump, legality, _ => by
    refine takes_nil.mpr (covers_jump ?_)
    rintro rfl
    cases legality
  | .labeled label stmt, legality, fenced => by
    simp only [legal, innerLabels] at legality fenced
    exact (walk_covers label first stmt legality fenced).labeled
  | .cond init condition body otherwise, legality, fenced => by
    simp only [legal, innerLabels, Bool.and_eq_true] at legality fenced
    obtain ⟨⟨⟨simple, legalBody⟩, isElse⟩, legalElse⟩ := legality
    have whenTrue := (walkAll_carries first body legalBody fenced.left.block).covers
    -- Nothing stands in front of an else branch, so no label is resolved there.
    have whenFalse := walk_covers "" (first + (Traversal.clausesOfStmts body).length) otherwise legalElse fenced.right
    rw [ite_self, Stmt.labels_of_isElse isElse] at whenFalse
    have choice := Covers.choose condition whenTrue (takes_nil.mp whenFalse) (blockWay_silent legalBody fenced)
    exact takes_nil.mpr ((walk_simple simple).andThen (straight_simple simple) choice)
  | .loop init condition post body, legality, fenced => by
    simp only [legal, innerLabels, Bool.and_eq_true] at legality fenced
    obtain ⟨⟨simple, simplePost⟩, legalBody⟩ := legality
    have covers := (walkAll_carries first body legalBody fenced.block).covers
    have orderlyPost : Orderly (fun _ => False) (fun _ => False) (wayOf info false "" first post) := wayOf_simple simplePost
    exact takes_nil.mpr (Covers.loop (walk_simple simple) (straight_simple simple) condition covers
      (blockWay_orderly legalBody) (walk_simple simplePost) orderlyPost (straight_simple simplePost))
  | .range assigns key value operand body, legality, fenced => by
    simp only [legal, innerLabels] at legality fenced
    have covers := (walkAll_carries first body legality fenced.block).covers
    have targets : Assigns (if assigns then assignAll info (key.toList ++ value.toList) else pure ())
        (if assigns then assignedBy info (key.toList ++ value.toList) else ∅) := by
      cases assigns with
      | true => exact assigns_assignAll _
      | false => exact .nothing
    exact takes_nil.mpr (Covers.range targets covers (blockWay_orderly legality))
  | .select clauses, legality, fenced =>
    takes_nil.mpr (Covers.select (walkComms_covers first clauses legality fenced))
  | .switch init tag clauses, legality, fenced => by
    simp only [legal, innerLabels, Bool.and_eq_true] at legality fenced
    obtain ⟨⟨simple, proper⟩, legalClauses⟩ := legality
    exact takes_nil.mpr (Covers.switch (walk_simple simple) (straight_simple simple) tag proper
      (walkCases_length clauses) (walkCases_covers first clauses legalClauses fenced) wayOfCases_settled)
  | .typeSwitch init guard clauses, legality, fenced => by
    simp only [legal, innerLabels, Bool.and_eq_true] at legality fenced
    obtain ⟨⟨⟨⟨simple, headed⟩, proper⟩, typed⟩, legalClauses⟩ := legality
    exact takes_nil.mpr (Covers.typeSwitch (walk_simple simple) (straight_simple simple) headed proper typed
      (walkCases_covers first clauses legalClauses fenced) wayOfCases_settled)
termination_by structural stmt => stmt

theorem walkAll_carries {visible : List String} (first : Nat) : ∀ (stmts : List Stmt),
    legalAll info visible stmts = true → Fenced visible (innerAll stmts) →
      Carries (walkAll info stmts) (ownLabels stmts) (innerAll stmts) first (Traversal.clausesOfStmts stmts)
        (crossAll info false first stmts)
  | [], _, _ => carries_nil
  | stmt :: rest, legality, fenced => by
    simp only [legalAll, Bool.and_eq_true] at legality
    -- A `goto` in the statement may seek a label of the rest, but never one inside the rest.
    have fenced : Fenced visible (innerLabels stmt ++ innerAll rest) := fenced
    have here := walk_covers "" first stmt legality.1 fenced.left
    rw [ite_self] at here
    have later := walkAll_carries (first + (Traversal.clausesOfStmt stmt).length) rest legality.2 fenced.right
    exact Carries.cons here later (wayOf_silent legality.1 fenced)
      fun elsewhere => crossAll_passes elsewhere
termination_by structural stmts => stmts

theorem walkCases_covers {visible : List String} (first : Nat) : ∀ (clauses : List CaseClause),
    legalCases info visible clauses = true → Fenced visible (labelsOfCases clauses) →
      CoversSections (walkCases info clauses) (labelsOfCases clauses) first clauses
        (wayOfCases info false first clauses)
  | [], _, _ => coversSections_nil
  | ⟨pos, cases, binding, body⟩ :: rest, legality, fenced => by
    simp only [legalCases, labelsOfCases, Bool.and_eq_true] at legality fenced
    have here := (walkAll_carries (first + 1) body legality.1 fenced.left.block).covers
    have later := walkCases_covers (first + 1 + (Traversal.clausesOfStmts body).length) rest legality.2 fenced.right
    have ways : wayOfCases info false first (⟨pos, cases, binding, body⟩ :: rest) =
        waysFrom first (blockWay info (first + 1) body)
          (wayOfCases info false (first + 1 + (Traversal.clausesOfStmts body).length) rest) := by
      funext index
      cases index <;> rfl
    rw [ways]
    -- Behind the last clause there is nothing to fall through to.
    refine CoversSections.cons here later (blockWay_silent legality.1 fenced) ?_ wayOfCases_settled
    intro ended before cursor after
    subst ended
    exact id
termination_by structural clauses => clauses

theorem walkComms_covers {visible : List String} (first : Nat) : ∀ (clauses : List CommClause),
    legalComms info visible clauses = true → Fenced visible (labelsOfComms clauses) →
      CoversAny (walkComms info clauses) (labelsOfComms clauses) first (Traversal.clausesOfComms clauses)
        (wayOfComms info false first clauses)
  | [], _, _ => coversAny_nil
  | ⟨comm, body⟩ :: rest, legality, fenced => by
    simp only [legalComms, labelsOfComms, Bool.and_eq_true] at legality fenced
    obtain ⟨⟨simple, legalBody⟩, legalRest⟩ := legality
    have here := (walkAll_carries first body legalBody fenced.left.block).covers
    have later := walkComms_covers (first + (Traversal.clausesOfStmts body).length) rest legalRest fenced.right
    have comms : Covers (walk info comm) "" [] first [] (wayOf info false "" first comm) := walk_simple simple
    refine CoversAny.cons (comms.andThen (straight_simple simple) here) later ?_
    intro label member before after passed
    rcases passed with ⟨passed, elsewhere⟩ | ⟨middle, _, passed⟩
    · exact elsewhere (straight_simple simple _ _ _ passed)
    · exact blockWay_silent legalBody fenced label member middle after passed
termination_by structural clauses => clauses

end

/-! The outcome for a whole function. -/

def View.start : View := ⟨[], "", 0, [], {∅}, fun _ => ∅⟩

theorem View.start_describes : View.start.Describes ⟨Pass.start Assigned.entry, Walker.start⟩ where
  own := rfl
  here := Assigned.summarizes_entry
  waiting _ := Assigned.summarizes_unreachable

theorem View.start_sound : View.start.Sound where
  fresh _ _ _ := rfl
  frames _ member := by cases member

/-- A destination that branches wait for is listed. -/
theorem mem_dests_of_waiting {pending : Pending Assigned} {label : Label} {stores : Set Store}
    (summary : (merged pending label).Summarizes stores) (waits : stores.Nonempty) :
    some label ∈ pending.dests := by
  by_contra missing
  have none : pending.states (some label) = [] := by
    have absent : pending.entries.find? (·.1 = some label) = none := by
      refine List.find?_eq_none.mpr fun entry member => ?_
      have other : entry.1 ≠ some label := fun same => missing (List.mem_map.mpr ⟨entry, member, same⟩)
      simpa using other
    rw [Pending.states, absent]
  rw [merged, none] at summary
  exact waits.ne_empty (Assigned.summarizes_none.mp summary)

/-- The outcome for a function, as the forward paths through its body have it. -/
structure Result.Reflects (info : Info) (body : List Stmt) (result : Result) : Prop where
  exit : result.exit.Summarizes {store | ForwardPath info body .onward store}
  arrivals : Recorded 0 (Traversal.clausesOfStmts body) result.arrivals
    fun cursor => {store | ForwardPath info body cursor store}
  unresolved : ∀ {label store}, ForwardPath info body (.leaving (.goto (some label))) store →
    some (namedLabel label) ∈ result.unresolved

theorem checkFunction_reflects {body : List Stmt} (formed : WellFormed info body) :
    ∃ result, checkFunction info body = .ok result ∧ result.Reflects info body := by
  have fenced : Fenced [] (allLabels body) := ⟨formed.labels, by simp⟩
  have legality : legalAll info (ownLabels body ++ []) body = true := by
    rw [List.append_nil]
    exact formed.legal
  have covers := (walkAll_carries 0 body legality fenced.block).covers
  obtain ⟨_, session, after, walked, described, here, follows⟩ :=
    covers View.start View.start_sound rfl (fun _ _ => rfl) _ View.start_describes
  have came : outcome View.start.here (blockWay info 0 body) =
      fun cursor => {store | ForwardPath info body cursor store} := by
    funext cursor
    ext store
    simp [outcome, View.start, ForwardPath]
  rw [came] at here follows
  refine ⟨⟨session.pass.state, session.own.arrivals, session.pass.pending.dests⟩, ?_, ?_, ?_, ?_⟩
  · rw [checkFunction, walked]
  · have exits := described.here
    rw [here] at exits
    exact exits
  · obtain ⟨met, listed, recorded⟩ := follows.arrivals
    have own : session.own.arrivals = met := by
      rw [described.own]
      exact listed
    exact own ▸ recorded
  · intro label store path
    refine mem_dests_of_waiting (described.waiting (namedLabel label)) ⟨store, ?_⟩
    rw [follows.waiting]
    exact .inr ⟨.goto (some label), rfl, path⟩

end ClauseReach.Checker
