import ClauseReach.Proofs.Balance
import ClauseReach.Proofs.ClauseHomes
import ClauseReach.Proofs.Totality

/-!
The reports of whole files. Two drivers go through the nodes of the files, each in its own way, and check the functions
that they come to. A check is apart from the literals in its function, so each clause is met once, in its home, and
the two find the same. Sorting the reports by position moves no two reports of one position.
-/

namespace ClauseReach.Checker

open Source

variable {info : Info}

def diagnosticOf (placed : Placed) : Diagnostic := ⟨placed.clause.pos, "case clause is unreachable"⟩

/-- The check of its home meets the clause, behind a head that can be reached, and cannot enter it. -/
def FoundDead (info : Info) (placed : Placed) : Prop :=
  ∃ result, checkFunction info placed.home = .ok result ∧
    ∃ arrival ∈ result.arrivals, arrival.clause = placed.clause ∧ arrival.isDead = true

/-- What the checks of functions report: each clause found dead, once. -/
structure Reports (info : Info) (functions : List (List Stmt)) (reported : List Diagnostic) (dead : List Placed) :
    Prop where
  listed : reported = dead.map diagnosticOf
  once : dead.Sublist (gathered functions)
  complete : ∀ placed ∈ gathered functions, placed ∈ dead ↔ FoundDead info placed

theorem Reports.nil : Reports info [] [] [] := ⟨rfl, .slnil, by simp [gathered]⟩

theorem Reports.found {functions : List (List Stmt)} {reported : List Diagnostic} {dead : List Placed}
    (reports : Reports info functions reported dead) {placed : Placed} (member : placed ∈ dead) :
    FoundDead info placed :=
  (reports.complete placed (reports.once.subset member)).mp member

theorem Reports.append {functions others : List (List Stmt)} {reported more : List Diagnostic}
    {dead further : List Placed}
    (first : Reports info functions reported dead) (second : Reports info others more further) :
    Reports info (functions ++ others) (reported ++ more) (dead ++ further) where
  listed := by rw [first.listed, second.listed, List.map_append]
  once := by
    rw [gathered_append]
    exact first.once.append second.once
  complete := by
    intro placed member
    rw [List.mem_append]
    constructor
    · rintro (here | there)
      · exact first.found here
      · exact second.found there
    · intro found
      rw [gathered_append] at member
      exact (List.mem_append.mp member).imp (fun own => (first.complete placed own).mpr found)
        fun own => (second.complete placed own).mpr found

theorem function_reports {body : List Stmt} {result : Result} (checked : checkFunction info body = .ok result) :
    ∃ dead, Reports info [body] result.diagnostics dead := by
  have met : gathered [body] = result.arrivals.map fun arrival => ⟨body, arrival.clause⟩ := by
    have own : result.arrivals.map Arrival.clause = ownClauses body := (concludes_of_ok checked).met
    rw [gathered_cons, homed, ← ownClauses, ← own, List.map_map]
    exact List.append_nil _
  refine ⟨(result.arrivals.filter Arrival.isDead).map fun arrival => ⟨body, arrival.clause⟩, ?_, ?_, ?_⟩
  · rw [List.map_map]
    rfl
  · rw [met]
    exact List.filter_sublist.map _
  · intro placed member
    rw [met] at member
    obtain ⟨_, _, rfl⟩ := List.mem_map.mp member
    constructor
    · intro reported
      obtain ⟨arrival, kept, same⟩ := List.mem_map.mp reported
      obtain ⟨listed, dead⟩ := List.mem_filter.mp kept
      exact ⟨result, checked, arrival, listed, congrArg Placed.clause same, dead⟩
    · rintro ⟨other, again, arrival, listed, same, dead⟩
      cases checked.symm.trans again
      exact List.mem_map.mpr ⟨arrival, List.mem_filter.mpr ⟨listed, dead⟩, congrArg (Placed.mk body) same⟩

def findings (info : Info) (body : List Stmt) : List Diagnostic :=
  match checkFunction info body with
  | .ok result => result.diagnostics
  | .error _ => []

theorem findings_of_checked {body : List Stmt} {result : Result} (checked : checkFunction info body = .ok result) :
    findings info body = result.diagnostics := by
  rw [findings, checked]

def Checked (info : Info) (body : List Stmt) : Prop := ∃ result, checkFunction info body = .ok result

theorem functions_report {functions : List (List Stmt)} (checked : ∀ body ∈ functions, Checked info body) :
    ∃ dead, Reports info functions (functions.flatMap (findings info)) dead := by
  induction functions with
  | nil => exact ⟨[], .nil⟩
  | cons body rest ih =>
    obtain ⟨⟨result, here⟩, there⟩ := List.forall_mem_cons.mp checked
    obtain ⟨later, reports⟩ := ih there
    obtain ⟨dead, own⟩ := function_reports here
    refine ⟨dead ++ later, ?_⟩
    rw [List.flatMap_cons, findings_of_checked here]
    exact own.append reports

/-! ### Faults -/

theorem checkFunction_fault {body : List Stmt} {fault : Fault} (failed : checkFunction info body = .error fault) :
    fault.isInternal = false := by
  have stays : Stays ⟨[], ""⟩ (walkAll info body) := walkAll_stays body
  unfold checkFunction at failed
  split at failed
  next => cases failed
  next other after ended =>
    cases failed
    exact (stays ⟨Pass.start Assigned.entry, Walker.start⟩ rfl).2 fault after ended

/-- The one fault that would be returned as an error does not occur. -/
theorem checked_of_returns {body : List Stmt} (returns : ∃ outcome, checkBody info (some body) = .ok outcome) :
    Checked info body := by
  obtain ⟨outcome, returned⟩ := returns
  cases ended : checkFunction info body with
  | ok result => exact ⟨result, ended⟩
  | error fault =>
    have apart := checkFunction_fault ended
    have stops : checkBody info (some body) = .error fault := by
      rw [checkBody, Option.getD_some, ended]
      cases fault with
      | unknownDecision node => cases apart
      | _ => rfl
    cases returned.symm.trans stops

/-! ### Drivers -/

def Progress.after (progress : Progress) (info : Info) (functions : List (List Stmt)) : Progress :=
  { progress with diagnostics := progress.diagnostics ++ functions.flatMap (findings info) }

namespace Progress

theorem after_nil (progress : Progress) (info : Info) : progress.after info [] = progress := by
  simp [after]

theorem after_append (progress : Progress) (info : Info) (functions others : List (List Stmt)) :
    progress.after info (functions ++ others) = (progress.after info functions).after info others := by
  simp [after]

end Progress

namespace Driver

open Progress

variable {α β : Type} {progress later : Progress}

theorem bind_ok {act : Driver α} {next : α → Driver β} {value : α} (ended : act progress = .ok (value, later)) :
    (act >>= next) progress = next value later := by
  change (act progress >>= fun ended => next ended.1 ended.2) = _
  rw [ended]
  rfl

theorem lift_checkBody {body : Option (List Stmt)} {result : Result}
    (checked : checkFunction info (body.getD []) = .ok result) :
    (liftM (checkBody info body) : Driver (Except Fault Result)) progress = .ok (.ok result, progress) := by
  have returned : checkBody info body = .ok (.ok result) := by rw [checkBody, checked]
  change (checkBody info body >>= fun outcome => pure (outcome, progress)) = _
  rw [returned]
  rfl

/-! Inspection -/

theorem inspectNode_eq {node : Node} (clear : progress.error = none)
    (checked : ∀ body ∈ node.body?.toList, Checked info body) :
    inspectNode info (some node) progress = .ok (true, progress.after info node.body?.toList) := by
  obtain ⟨diagnostics, error⟩ := progress
  subst clear
  cases node with
  | other => rw [Node.body?, Option.toList_none, after_nil]; rfl
  | function body =>
    obtain ⟨result, ended⟩ := checked (body.getD []) (List.mem_singleton_self _)
    have looked : (get : Driver Progress) ⟨diagnostics, none⟩ = .ok (⟨diagnostics, none⟩, ⟨diagnostics, none⟩) := rfl
    refine (bind_ok looked).trans ((bind_ok (lift_checkBody ended)).trans ?_)
    simp only [Node.body?, Option.toList_some, Progress.after, List.flatMap_singleton, findings_of_checked ended]
    rfl

theorem inspectNode_end (clear : progress.error = none) : inspectNode info none progress = .ok (true, progress) := by
  obtain ⟨diagnostics, error⟩ := progress
  subst clear
  rfl

mutual

theorem inspect_eq (tree : Tree) {progress : Progress} (clear : progress.error = none)
    (checked : ∀ body ∈ tree.functions, Checked info body) :
    tree.inspect (inspectNode info) progress = .ok ((), progress.after info tree.functions) := by
  match tree with
  | .mk root inner =>
    rw [Tree.functions_mk] at checked ⊢
    obtain ⟨own, inside⟩ := List.forall_mem_append.mp checked
    have clearAfter : (progress.after info root.body?.toList).error = none := clear
    refine (bind_ok (inspectNode_eq clear own)).trans ((bind_ok (inspectAll_eq inner clearAfter inside)).trans ?_)
    rw [after_append]
    exact bind_ok (inspectNode_end clear)
termination_by structural tree

theorem inspectAll_eq (trees : List Tree) {progress : Progress} (clear : progress.error = none)
    (checked : ∀ body ∈ Tree.functionsOfAll trees, Checked info body) :
    Tree.inspectAll (inspectNode info) trees progress = .ok ((), progress.after info (Tree.functionsOfAll trees)) := by
  match trees with
  | [] => rw [Tree.functionsOfAll_nil, after_nil]; rfl
  | tree :: rest =>
    rw [Tree.functionsOfAll_cons] at checked ⊢
    obtain ⟨here, there⟩ := List.forall_mem_append.mp checked
    have clearAfter : (progress.after info tree.functions).error = none := clear
    rw [after_append]
    exact (bind_ok (inspect_eq tree clear here)).trans (inspectAll_eq rest clearAfter there)
termination_by structural trees

end

theorem inspectFiles_eq {files : List File} (clear : progress.error = none)
    (checked : ∀ body ∈ files.flatMap File.functions, Checked info body) :
    (files.forM fun file => file.tree.inspect (inspectNode info)) progress =
      .ok ((), progress.after info (files.flatMap File.functions)) := by
  induction files generalizing progress with
  | nil => rw [List.flatMap_nil, after_nil]; rfl
  | cons file rest ih =>
    rw [List.flatMap_cons] at checked ⊢
    obtain ⟨here, there⟩ := List.forall_mem_append.mp checked
    have clearAfter : (progress.after info file.functions).error = none := clear
    rw [after_append]
    exact (bind_ok (inspect_eq file.tree clear here)).trans (ih clearAfter there)

/-! Selection -/

theorem addAll_eq (found : List Diagnostic) :
    (found.forM fun diagnostic => add [diagnostic]) progress =
      .ok ((), { progress with diagnostics := progress.diagnostics ++ found }) := by
  induction found generalizing progress with
  | nil => rw [List.append_nil]; rfl
  | cons first rest ih =>
    have added : add [first] progress = .ok ((), ⟨progress.diagnostics ++ [first], progress.error⟩) := rfl
    refine (bind_ok added).trans (ih.trans ?_)
    rw [List.append_assoc]
    rfl

theorem reportNode_eq {body : Option (List Stmt)} (clear : progress.error = none)
    (checked : Checked info (body.getD [])) :
    reportNode info (.function body) progress = .ok ((), progress.after info [body.getD []]) := by
  obtain ⟨diagnostics, error⟩ := progress
  subst clear
  obtain ⟨result, ended⟩ := checked
  have looked : (get : Driver Progress) ⟨diagnostics, none⟩ = .ok (⟨diagnostics, none⟩, ⟨diagnostics, none⟩) := rfl
  refine (bind_ok looked).trans ((bind_ok (lift_checkBody ended)).trans ((addAll_eq _).trans ?_))
  simp only [Progress.after, List.flatMap_singleton, findings_of_checked ended]

theorem reportNodes_eq {nodes : List Node} (clear : progress.error = none)
    (checked : ∀ body ∈ nodes.filterMap Node.body?, Checked info body) :
    (nodes.filter Node.isFunction).forM (reportNode info) progress =
      .ok ((), progress.after info (nodes.filterMap Node.body?)) := by
  induction nodes generalizing progress with
  | nil => rw [List.filterMap_nil, after_nil]; rfl
  | cons node rest ih =>
    cases node with
    | other => exact ih clear checked
    | function body =>
      obtain ⟨here, there⟩ := List.forall_mem_cons.mp checked
      have clearAfter : (progress.after info [body.getD []]).error = none := clear
      refine (bind_ok (reportNode_eq clear here)).trans ((ih clearAfter there).trans ?_)
      rw [← after_append]
      rfl

end Driver

/-- The same reports by position, those of one position in their order. -/
structure StablySorted (reported sorted : List Diagnostic) : Prop where
  perm : sorted.Perm reported
  ordered : sorted.Pairwise fun left right => left.pos ≤ right.pos
  stable : ∀ pos, sorted.filter (·.pos = pos) = reported.filter (·.pos = pos)

theorem stablySorted_mergeSort (reported : List Diagnostic) :
    StablySorted reported (reported.mergeSort fun left right => decide (left.pos ≤ right.pos)) := by
  have trans (first second third : Diagnostic) : decide (first.pos ≤ second.pos) = true →
      decide (second.pos ≤ third.pos) = true → decide (first.pos ≤ third.pos) = true := by
    simp only [decide_eq_true_eq]
    omega
  have total (first second : Diagnostic) :
      (decide (first.pos ≤ second.pos) || decide (second.pos ≤ first.pos)) = true := by
    simp only [Bool.or_eq_true, decide_eq_true_eq]
    omega
  have perm := List.mergeSort_perm reported fun left right => decide (left.pos ≤ right.pos)
  refine ⟨perm, ?_, fun pos => ?_⟩
  · simpa using List.pairwise_mergeSort trans total reported
  · -- The reports of one position are in order as they stand, so they are found again in this order.
    have level : (reported.filter (·.pos = pos)).Pairwise fun left right => decide (left.pos ≤ right.pos) = true := by
      refine List.pairwise_of_forall_mem_list fun left here right there => ?_
      simp only [List.mem_filter, decide_eq_true_eq] at here there ⊢
      omega
    have kept := (List.sublist_mergeSort trans total level List.filter_sublist).filter (·.pos = pos)
    simp only [List.filter_filter, Bool.and_self] at kept
    exact (kept.eq_of_length (perm.filter _).length_eq.symm).symm

/-- If the check of every function of the files returns, both ways to check the files end without an error. One lists
the reports as they come, the other sorts them. Each clause of the files, at any depth of literals, is reported once if
the check of its home finds it dead, and else not at all. -/
theorem files_reported_once {files : List File}
    (returns : ∀ body ∈ files.flatMap File.functions, ∃ outcome, checkBody info (some body) = .ok outcome) :
    ∃ dead : List Placed, dead.Subperm (files.flatMap File.placed) ∧
      (∀ placed ∈ files.flatMap File.placed, placed ∈ dead ↔ FoundDead info placed) ∧
      analyze info files = .ok (dead.map diagnosticOf, none) ∧
      ∃ sorted, checkFiles info files = .ok (sorted, none) ∧ StablySorted (dead.map diagnosticOf) sorted := by
  have checked : ∀ body ∈ files.flatMap File.functions, Checked info body :=
    fun body member => checked_of_returns (returns body member)
  -- One driver comes to the functions tree by tree, the other picks them from the list of all nodes.
  have listed : (Tree.nodesOfAll (files.map File.tree)).filterMap Node.body? = files.flatMap File.functions := by
    rw [← Tree.functionsOfAll, Tree.functionsOfAll_eq_flatMap, List.flatMap_map]
    rfl
  obtain ⟨dead, reports⟩ := functions_report checked
  have placedPerm := files_placed_perm files
  refine ⟨dead, ?_, ?_, ?_, _, ?_, stablySorted_mergeSort _⟩
  · exact reports.once.subperm.trans placedPerm.symm.subperm
  · exact fun placed member => reports.complete placed (placedPerm.mem_iff.mp member)
  · rw [analyze, StateT.run, Tree.preorder, Driver.reportNodes_eq rfl (listed ▸ checked), listed, ← reports.listed]
    rfl
  · rw [checkFiles, StateT.run, Driver.inspectFiles_eq rfl checked, ← reports.listed]
    rfl

/-- A switch with a literal in its first clause, which has a switch of its own. -/
def nestedSwitches : List File :=
  let constant (value : Int) : Expr := .literal (some (.known none (some (.int value))))
  let onOne (clauses : List CaseClause) : Stmt := .switch .empty (some (constant 1)) clauses
  let inner := onOne [⟨15, some [constant 1], none, []⟩, ⟨20, some [constant 2], none, []⟩]
  let literal : Expr := .function none [inner]
  let outer := onOne [⟨10, some [constant 1], none, [.expr literal]⟩, ⟨30, some [constant 2], none, []⟩]
  [⟨[.function (some [outer]), .function none]⟩]

theorem nestedSwitches_reported :
    (∀ body ∈ nestedSwitches.flatMap File.functions, ∃ outcome, checkBody nothingKnown (some body) = .ok outcome) ∧
    ∃ reported sorted : List Diagnostic, reported.map (·.pos) = [30, 20] ∧
      analyze nothingKnown nestedSwitches = .ok (reported, none) ∧
      checkFiles nothingKnown nestedSwitches = .ok (sorted, none) ∧ StablySorted reported sorted := by
  have shaped : (nestedSwitches.flatMap File.functions).all shapedAll = true := rfl
  have returns : ∀ body ∈ nestedSwitches.flatMap File.functions,
      ∃ outcome, checkBody nothingKnown (some body) = .ok outcome := by
    intro body member
    have shape := List.all_eq_true.mp shaped body member
    obtain ⟨result, ended, _⟩ := concludes_of_shaped nothingKnown shape (.inl trivial)
    exact ⟨.ok result, by rw [checkBody, Option.getD_some, ended]⟩
  have evaluated : (analyze nothingKnown nestedSwitches).toOption.map (·.1.map (·.pos)) = some [30, 20] := by
    decide +kernel
  obtain ⟨dead, _, _, analyzed, sorted, ended, stably⟩ := files_reported_once returns
  rw [analyzed] at evaluated
  exact ⟨returns, _, sorted, Option.some.inj evaluated, analyzed, ended, stably⟩

end ClauseReach.Checker
