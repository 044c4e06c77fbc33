import ClauseReach.Proofs.FunctionWalk
import ClauseReach.Proofs.SwitchVisits

/-!
A statement and what stands around it. A layer is a statement with a gap in which another statement can stand, and any
place in a function body is found through some layers. In a well-formed body no `goto` leads into a statement from
around it, however deep the statement stands.
-/

namespace ClauseReach.Source

open Checker (Fenced)

theorem marksOfAll_append (first second : List Stmt) :
    marksOfAll (first ++ second) = marksOfAll first ++ marksOfAll second := by
  induction first with
  | nil => rfl
  | cons stmt rest ih => simp [marksOfAll, ih]

theorem marksOfCases_append (first second : List CaseClause) :
    marksOfCases (first ++ second) = marksOfCases first ++ marksOfCases second := by
  induction first with
  | nil => rfl
  | cons clause rest ih => simp [marksOfCases_cons, ih]

theorem marksOfComms_append (first second : List CommClause) :
    marksOfComms (first ++ second) = marksOfComms first ++ marksOfComms second := by
  induction first with
  | nil => rfl
  | cons clause rest ih => simp [marksOfComms_cons, ih]

theorem legalAll_append {info : Info} {visible : List String} (first second : List Stmt) :
    legalAll info visible (first ++ second) = (legalAll info visible first && legalAll info visible second) := by
  induction first with
  | nil => rfl
  | cons stmt rest ih => simp [legalAll, ih, Bool.and_assoc]

theorem legalCases_append {info : Info} {visible : List String} (first second : List CaseClause) :
    legalCases info visible (first ++ second) = (legalCases info visible first && legalCases info visible second) := by
  induction first with
  | nil => rfl
  | cons clause rest ih =>
    obtain ⟨pos, cases, binding, body⟩ := clause
    simp [legalCases, ih, Bool.and_assoc]

theorem legalComms_append {info : Info} {visible : List String} (first second : List CommClause) :
    legalComms info visible (first ++ second) = (legalComms info visible first && legalComms info visible second) := by
  induction first with
  | nil => rfl
  | cons clause rest ih =>
    obtain ⟨comm, body⟩ := clause
    simp [legalComms, ih, Bool.and_assoc]

theorem labelsOfCases_append (first second : List CaseClause) :
    labelsOfCases (first ++ second) = labelsOfCases first ++ labelsOfCases second := by
  induction first with
  | nil => rfl
  | cons clause rest ih =>
    obtain ⟨pos, cases, binding, body⟩ := clause
    simp [labelsOfCases, ih]

theorem labelsOfComms_append (first second : List CommClause) :
    labelsOfComms (first ++ second) = labelsOfComms first ++ labelsOfComms second := by
  induction first with
  | nil => rfl
  | cons clause rest ih =>
    obtain ⟨comm, body⟩ := clause
    simp [labelsOfComms, ih]

/-- A statement with a gap in one of its parts. In a list, the statements before the gap and behind it are given. What
stands in the head of a statement is simple and has no gaps. -/
inductive Layer where
  | block (before after : List Stmt)
  | labeled (label : String)
  | whenTrue (init : Stmt) (condition : Expr) (before after : List Stmt) (otherwise : Stmt)
  | whenFalse (init : Stmt) (condition : Expr) (body : List Stmt)
  | loop (init : Stmt) (condition : Option Expr) (post : Stmt) (before after : List Stmt)
  | range (assigns : Bool) (key value : Option Expr) (operand : Expr) (before after : List Stmt)
  | select (earlier : List CommClause) (comm : Stmt) (before after : List Stmt) (later : List CommClause)
  | switch (init : Stmt) (tag : Option Expr) (earlier : List CaseClause) (clause : CaseClause)
      (before after : List Stmt) (later : List CaseClause)
  | typeSwitch (init guard : Stmt) (earlier : List CaseClause) (clause : CaseClause) (before after : List Stmt)
      (later : List CaseClause)

namespace Layer

/-- The clauses of a switch; the body of the one in the middle is given by its parts. -/
def clauses (earlier : List CaseClause) (clause : CaseClause) (before : List Stmt) (stmt : Stmt) (after : List Stmt)
    (later : List CaseClause) : List CaseClause :=
  earlier ++ { clause with body := before ++ stmt :: after } :: later

def fill (stmt : Stmt) : Layer → Stmt
  | .block before after => .block (before ++ stmt :: after)
  | .labeled label => .labeled label stmt
  | .whenTrue init condition before after otherwise => .cond init condition (before ++ stmt :: after) otherwise
  | .whenFalse init condition body => .cond init condition body stmt
  | .loop init condition post before after => .loop init condition post (before ++ stmt :: after)
  | .range assigns key value operand before after => .range assigns key value operand (before ++ stmt :: after)
  | .select earlier comm before after later => .select (earlier ++ ⟨comm, before ++ stmt :: after⟩ :: later)
  | .switch init tag earlier clause before after later =>
    .switch init tag (clauses earlier clause before stmt after later)
  | .typeSwitch init guard earlier clause before after later =>
    .typeSwitch init guard (clauses earlier clause before stmt after later)

/-- The marks around the gap. -/
def marks (layer : Layer) : List Mark := marksOf (layer.fill .empty)

end Layer

/-- A statement inside of layers, the outermost first. -/
def fillAll (stmt : Stmt) (layers : List Layer) : Stmt := layers.foldr (fun layer inner => layer.fill inner) stmt

/-! Labels and the `goto`s that may name them. -/

theorem marksOf_simple {stmt : Stmt} (simple : stmt.isSimple = true) : marksOf stmt = [] := by
  cases stmt with
  | empty | expr | assign | eval => rfl
  | _ => cases simple

theorem marksOf_guarded {guard : Stmt} (guarded : (Checker.TypeSwitchPlan.scrutinee guard).isOk = true) :
    marksOf guard = [] := by
  cases found : Checker.TypeSwitchPlan.scrutinee guard with
  | ok operand => exact Checker.TypeSwitchPlan.marksOf_guard found
  | error fault =>
    rw [found] at guarded
    cases guarded

/-- The marks of a piece of code. Its `goto`s name a label visible to it or one inside, and its labels stand in front of
it or inside. -/
structure Within (visible own inner : List String) (marks : List Mark) : Prop where
  gotos : ∀ label, .goto label ∈ marks → label ∈ visible ∨ label ∈ inner
  labels : ∀ label, .label label ∈ marks → label ∈ own ∨ label ∈ inner

namespace Within

variable {visible own ownRest inner innerRest : List String} {marks rest : List Mark}

theorem nil : Within visible own inner [] :=
  ⟨fun _ found => absurd found List.not_mem_nil, fun _ found => absurd found List.not_mem_nil⟩

theorem append (first : Within visible own inner marks) (second : Within visible ownRest innerRest rest) :
    Within visible (own ++ ownRest) (inner ++ innerRest) (marks ++ rest) := by
  constructor
  · intro label found
    rcases List.mem_append.mp found with early | late
    · exact (first.gotos label early).imp_right (List.mem_append_left _)
    · exact (second.gotos label late).imp_right (List.mem_append_right _)
  · intro label found
    rcases List.mem_append.mp found with early | late
    · exact (first.labels label early).imp (List.mem_append_left _) (List.mem_append_left _)
    · exact (second.labels label late).imp (List.mem_append_right _) (List.mem_append_right _)

theorem block {body : List Stmt} (within : Within (ownLabels body ++ visible) (ownLabels body) (innerAll body) marks) :
    Within visible [] (allLabels body) marks :=
  ⟨fun label found => visible_of_block (within.gotos label found),
    fun label found => .inr (mem_allLabels.mpr (within.labels label found))⟩

theorem clause (within : Within visible own inner marks) (clause : CaseClause) :
    Within visible own inner (.clause clause :: marks) := by
  constructor
  · intro label found
    cases found with
    | tail _ later => exact within.gotos label later
  · intro label found
    cases found with
    | tail _ later => exact within.labels label later

theorem labeled (within : Within visible own inner marks) (name : String) :
    Within visible (name :: own) inner (.label name :: marks) := by
  constructor
  · intro label found
    cases found with
    | tail _ later => exact within.gotos label later
  · intro label found
    cases found with
    | head => exact .inl (List.mem_cons_self ..)
    | tail _ later => exact (within.labels label later).imp_left (List.mem_cons_of_mem _)

end Within

variable {info : Info} {visible : List String}

mutual

theorem marksOf_within : ∀ {visible : List String} (stmt : Stmt), legal info visible stmt = true →
    Within visible stmt.labels (innerLabels stmt) (marksOf stmt)
  | _, .empty, _ | _, .expr _, _ | _, .assign _ _, _ | _, .eval _, _ | _, .declare _ _, _ | _, .return _, _ => .nil
  | _, .jump jump, legality => by
    cases jump with
    | goto target =>
      cases target with
      | none => exact .nil
      | some name =>
        refine ⟨fun label found => .inl ?_, fun label found => absurd found (by simp [marksOf, Jump.marks])⟩
        obtain rfl : label = name := by simpa [marksOf, Jump.marks] using found
        simpa [legal] using legality
    | _ => exact .nil
  | _, .block body, legality => (marksOfAll_within body legality).block
  | _, .labeled label stmt, legality => (marksOf_within stmt legality).labeled label
  | _, .cond init _ body otherwise, legality => by
    simp only [legal, Bool.and_eq_true] at legality
    obtain ⟨⟨⟨simple, legalBody⟩, isElse⟩, legalElse⟩ := legality
    have whenFalse := marksOf_within otherwise legalElse
    rw [Stmt.labels_of_isElse isElse] at whenFalse
    rw [marksOf, marksOf_simple simple]
    exact (marksOfAll_within body legalBody).block.append whenFalse
  | _, .loop init _ post body, legality => by
    simp only [legal, Bool.and_eq_true] at legality
    obtain ⟨⟨simple, simplePost⟩, legalBody⟩ := legality
    rw [marksOf, marksOf_simple simple, marksOf_simple simplePost, List.nil_append, List.append_nil]
    exact (marksOfAll_within body legalBody).block
  | _, .range _ _ _ _ body, legality => (marksOfAll_within body legality).block
  | _, .select clauses, legality => marksOfComms_within clauses legality
  | _, .switch init _ clauses, legality => by
    simp only [legal, Bool.and_eq_true] at legality
    rw [marksOf, marksOf_simple legality.1.1]
    exact marksOfCases_within clauses legality.2
  | _, .typeSwitch init guard clauses, legality => by
    simp only [legal, Bool.and_eq_true] at legality
    obtain ⟨⟨⟨⟨simple, guarded⟩, _⟩, _⟩, legalClauses⟩ := legality
    rw [marksOf, marksOf_simple simple, marksOf_guarded guarded]
    exact marksOfCases_within clauses legalClauses
termination_by structural _ stmt => stmt

theorem marksOfAll_within : ∀ {visible : List String} (stmts : List Stmt), legalAll info visible stmts = true →
    Within visible (ownLabels stmts) (innerAll stmts) (marksOfAll stmts)
  | _, [], _ => .nil
  | _, stmt :: rest, legality => by
    simp only [legalAll, Bool.and_eq_true] at legality
    exact (marksOf_within stmt legality.1).append (marksOfAll_within rest legality.2)
termination_by structural _ stmts => stmts

theorem marksOfCases_within : ∀ {visible : List String} (clauses : List CaseClause),
    legalCases info visible clauses = true → Within visible [] (labelsOfCases clauses) (marksOfCases clauses)
  | _, [], _ => .nil
  | _, ⟨pos, cases, binding, body⟩ :: rest, legality => by
    simp only [legalCases, Bool.and_eq_true] at legality
    have inside := (marksOfAll_within body legality.1).block
    exact (inside.append (marksOfCases_within rest legality.2)).clause ⟨pos, cases, binding, body⟩
termination_by structural _ clauses => clauses

theorem marksOfComms_within : ∀ {visible : List String} (clauses : List CommClause),
    legalComms info visible clauses = true → Within visible [] (labelsOfComms clauses) (marksOfComms clauses)
  | _, [], _ => .nil
  | _, ⟨comm, body⟩ :: rest, legality => by
    simp only [legalComms, Bool.and_eq_true] at legality
    rw [marksOfComms, marksOf_simple legality.1.1]
    exact (marksOfAll_within body legality.1.2).block.append (marksOfComms_within rest legality.2)
termination_by structural _ clauses => clauses

end

/-! A statement in its place. -/

/-- A statement whose own labels are all among those of the code around it. It is legal where it stands, and of the
marks around it no `goto` leads into it. -/
structure Secluded (info : Info) (outer : List String) (stmt : Stmt) (around : List Mark) : Prop where
  legal : ∃ visible, legal info visible stmt = true ∧ Fenced visible (innerLabels stmt)
  inner : ∀ label ∈ innerLabels stmt, label ∈ outer
  apart : ∀ label, .goto label ∈ around → label ∉ innerLabels stmt

namespace Secluded

variable {outer others own : List String} {stmt middle : Stmt} {around marks : List Mark}

theorem alone (legality : Source.legal info visible stmt = true) (fenced : Fenced visible (innerLabels stmt)) :
    Secluded info (innerLabels stmt) stmt [] :=
  ⟨⟨visible, legality, fenced⟩, fun _ inside => inside, fun _ found => absurd found List.not_mem_nil⟩

/-- With other code behind it. -/
theorem followed (secluded : Secluded info outer stmt around) (fenced : Fenced visible (outer ++ others))
    (within : Within visible own others marks) : Secluded info (outer ++ others) stmt (around ++ marks) := by
  refine ⟨secluded.legal, fun label inside => List.mem_append_left _ (secluded.inner label inside), ?_⟩
  intro label found inside
  rcases List.mem_append.mp found with near | far
  · exact secluded.apart label near inside
  · exact fenced.swap.outside (secluded.inner label inside) (within.gotos label far)

/-- With other code in front of it. -/
theorem preceded (secluded : Secluded info outer stmt around) (fenced : Fenced visible (others ++ outer))
    (within : Within visible own others marks) : Secluded info (others ++ outer) stmt (marks ++ around) := by
  refine ⟨secluded.legal, fun label inside => List.mem_append_right _ (secluded.inner label inside), ?_⟩
  intro label found inside
  rcases List.mem_append.mp found with far | near
  · exact fenced.outside (secluded.inner label inside) (within.gotos label far)
  · exact secluded.apart label near inside

theorem clause (secluded : Secluded info outer stmt around) (clause : CaseClause) :
    Secluded info outer stmt (.clause clause :: around) := by
  refine ⟨secluded.legal, secluded.inner, fun label found => ?_⟩
  cases found with
  | tail _ later => exact secluded.apart label later

theorem labeled (secluded : Secluded info outer stmt around) (name : String) :
    Secluded info outer stmt (.label name :: around) := by
  refine ⟨secluded.legal, secluded.inner, fun label found => ?_⟩
  cases found with
  | tail _ later => exact secluded.apart label later

theorem trans (first : Secluded info outer middle around) (second : Secluded info (innerLabels middle) stmt marks) :
    Secluded info outer stmt (around ++ marks) := by
  refine ⟨second.legal, fun label inside => first.inner label (second.inner label inside), ?_⟩
  intro label found inside
  rcases List.mem_append.mp found with far | near
  · exact first.apart label far (second.inner label inside)
  · exact second.apart label near inside

/-- In a statement list. -/
theorem between {before after : List Stmt}
    (legality : legalAll info (ownLabels (before ++ stmt :: after) ++ visible) (before ++ stmt :: after) = true)
    (fenced : Fenced visible (allLabels (before ++ stmt :: after))) :
    Secluded info (allLabels (before ++ stmt :: after)) stmt (marksOfAll before ++ marksOfAll after) := by
  have fencedList := fenced.block
  have inner : innerAll (before ++ stmt :: after) = innerAll before ++ (innerLabels stmt ++ innerAll after) := by
    simp [innerAll]
  rw [inner] at fencedList
  rw [legalAll_append, legalAll, Bool.and_eq_true, Bool.and_eq_true] at legality
  obtain ⟨early, here, late⟩ := legality
  have placed := ((alone here fencedList.right.left).followed fencedList.right (marksOfAll_within after late)).preceded
    fencedList (marksOfAll_within before early)
  refine ⟨placed.legal, fun label inside => mem_allLabels.mpr (.inr ?_), placed.apart⟩
  rw [inner]
  exact placed.inner label inside

/-- In a clause of a switch. -/
theorem case {earlier later : List CaseClause} {clause : CaseClause} {before after : List Stmt}
    (legality : legalCases info visible (Layer.clauses earlier clause before stmt after later) = true)
    (fenced : Fenced visible (labelsOfCases (Layer.clauses earlier clause before stmt after later))) :
    Secluded info (labelsOfCases (Layer.clauses earlier clause before stmt after later)) stmt
      (marksOfCases (Layer.clauses earlier clause before .empty after later)) := by
  simp only [Layer.clauses, legalCases_append, legalCases, labelsOfCases_append, labelsOfCases, Bool.and_eq_true]
    at legality fenced ⊢
  obtain ⟨early, legalBody, late⟩ := legality
  simp only [marksOfCases_append, marksOfCases, marksOfAll_append, marksOfAll]
  have inside := (between legalBody fenced.right.left).followed fenced.right (marksOfCases_within later late)
  exact (inside.clause _).preceded fenced (marksOfCases_within earlier early)

end Secluded

/-- The gap of a layer, by the form of the layer. -/
theorem Layer.secluded {layer : Layer} {stmt : Stmt} (legality : legal info visible (layer.fill stmt) = true)
    (fenced : Fenced visible (innerLabels (layer.fill stmt))) :
    Secluded info (innerLabels (layer.fill stmt)) stmt layer.marks := by
  cases layer with
  | block before after =>
    simp only [marks, fill, marksOf, marksOfAll_append, marksOfAll, List.nil_append]
    exact .between legality fenced
  | labeled label =>
    have inside : Secluded info (innerLabels stmt) stmt [] := .alone legality fenced
    exact inside.labeled label
  | whenTrue init condition before after otherwise =>
    simp only [fill, legal, Bool.and_eq_true] at legality
    obtain ⟨⟨⟨simple, legalBody⟩, _⟩, legalElse⟩ := legality
    simp only [marks, fill, marksOf, marksOf_simple simple, marksOfAll_append, marksOfAll, List.nil_append]
    exact (Secluded.between legalBody fenced.left).followed fenced (marksOf_within otherwise legalElse)
  | whenFalse init condition body =>
    simp only [fill, legal, Bool.and_eq_true] at legality
    obtain ⟨⟨⟨simple, legalBody⟩, _⟩, legalElse⟩ := legality
    simp only [marks, fill, marksOf, marksOf_simple simple, List.nil_append]
    exact (Secluded.alone legalElse fenced.right).preceded fenced (marksOfAll_within body legalBody).block
  | loop init condition post before after =>
    simp only [fill, legal, Bool.and_eq_true] at legality
    obtain ⟨⟨simple, simplePost⟩, legalBody⟩ := legality
    simp only [marks, fill, marksOf, marksOf_simple simple, marksOf_simple simplePost, marksOfAll_append, marksOfAll,
      List.nil_append, List.append_nil]
    exact .between legalBody fenced
  | range assigns key value operand before after =>
    simp only [marks, fill, marksOf, marksOfAll_append, marksOfAll, List.nil_append]
    exact .between legality fenced
  | select earlier comm before after later =>
    simp only [fill, legal, legalComms_append, legalComms, innerLabels, labelsOfComms_append, labelsOfComms,
      Bool.and_eq_true] at legality fenced ⊢
    obtain ⟨early, ⟨simple, legalBody⟩, late⟩ := legality
    simp only [marks, fill, marksOf, marksOfComms_append, marksOfComms, marksOf_simple simple, marksOfAll_append,
      marksOfAll, List.nil_append]
    exact ((Secluded.between legalBody fenced.right.left).followed fenced.right
      (marksOfComms_within later late)).preceded fenced (marksOfComms_within earlier early)
  | switch init tag earlier clause before after later =>
    simp only [fill, clauses, legal, Bool.and_eq_true] at legality
    simp only [marks, fill, clauses, marksOf, marksOf_simple legality.1.1, List.nil_append]
    exact .case legality.2 fenced
  | typeSwitch init guard earlier clause before after later =>
    simp only [fill, clauses, legal, Bool.and_eq_true] at legality
    obtain ⟨⟨⟨⟨simple, guarded⟩, _⟩, _⟩, legalClauses⟩ := legality
    simp only [marks, fill, clauses, marksOf, marksOf_simple simple, marksOf_guarded guarded, List.nil_append]
    exact .case legalClauses fenced

/-- A place inside of many layers. -/
theorem secluded_layers {stmt : Stmt} {layers : List Layer} {visible : List String}
    (legality : legal info visible (fillAll stmt layers) = true)
    (fenced : Fenced visible (innerLabels (fillAll stmt layers))) :
    Secluded info (innerLabels (fillAll stmt layers)) stmt (layers.flatMap Layer.marks) := by
  induction layers generalizing visible with
  | nil => exact .alone legality fenced
  | cons layer rest ih =>
    have outermost : Secluded info (innerLabels (fillAll stmt (layer :: rest))) (fillAll stmt rest) layer.marks :=
      Layer.secluded legality fenced
    obtain ⟨_, legalRest, fencedRest⟩ := outermost.legal
    exact outermost.trans (ih legalRest fencedRest)

end ClauseReach.Source
