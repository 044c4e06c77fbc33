import ClauseReach.Proofs.Invariant
import ClauseReach.Proofs.Layers

/-!
The walk around a statement. A walk comes to a place in a function body once, whatever stands there, and goes on from
there in a way that does not depend on it. What lasts through the walk of the code around holds there.
-/

namespace ClauseReach.Checker

open Source StateAlgebra

variable {info : Info} {stmt : Stmt} {act : CheckM Unit}

/-! The walk around a gap. -/

def walkBetween (info : Info) (before : List Stmt) (act : CheckM Unit) (after : List Stmt) : CheckM Unit := do
  walkAll info before
  act
  walkAll info after

/-- The walk of a layer with this statement in the gap, where `act` takes the place of the walk of the statement. -/
def walkLayer (info : Info) (stmt : Stmt) (act : CheckM Unit) : Layer → CheckM Unit
  | .block before after => walkBetween info before act after
  | .labeled label => labeled label (takesLabel stmt) act
  | .whenTrue init condition before after otherwise => do
    walk info init
    choose condition (walkBetween info before act after) (walk info otherwise)
  | .whenFalse init condition body => do
    walk info init
    choose condition (walkAll info body) act
  | .loop init condition post before after =>
    loop (walk info init) condition (walkBetween info before act after) (walk info post)
  | .range assigns key value _ before after =>
    range (if assigns then assignAll info (key.toList ++ value.toList) else pure ())
      (walkBetween info before act after)
  | .select earlier comm before after later =>
    select (walkComms info earlier ++ (do walk info comm; walkBetween info before act after) :: walkComms info later)
  | .switch init tag earlier clause before after later =>
    switch (walk info init) tag (Layer.clauses earlier clause before stmt after later)
      (walkCases info earlier ++ walkBetween info before act after :: walkCases info later)
  | .typeSwitch init guard earlier clause before after later =>
    typeSwitch info (walk info init) guard (Layer.clauses earlier clause before stmt after later)
      (walkCases info earlier ++ walkBetween info before act after :: walkCases info later)

def walkLayers (info : Info) (stmt : Stmt) (act : CheckM Unit) : List Layer → CheckM Unit
  | [] => act
  | layer :: rest => walkLayer info (fillAll stmt rest) (walkLayers info stmt act rest) layer

theorem walkAll_append (first second : List Stmt) :
    walkAll info (first ++ second) = (do walkAll info first; walkAll info second) := by
  induction first with
  | nil => simp [walkAll]
  | cons stmt rest ih => simp [walkAll, ih, bind_assoc]

theorem walkBetween_walk (before after : List Stmt) :
    walkBetween info before (walk info stmt) after = walkAll info (before ++ stmt :: after) :=
  (walkAll_append before (stmt :: after)).symm

theorem walkCases_append (first second : List CaseClause) :
    walkCases info (first ++ second) = walkCases info first ++ walkCases info second := by
  induction first with
  | nil => rfl
  | cons clause rest ih =>
    obtain ⟨pos, cases, binding, body⟩ := clause
    simp [walkCases, ih]

theorem walkComms_append (first second : List CommClause) :
    walkComms info (first ++ second) = walkComms info first ++ walkComms info second := by
  induction first with
  | nil => rfl
  | cons clause rest ih =>
    obtain ⟨comm, body⟩ := clause
    simp [walkComms, ih]

theorem walkLayer_walk (layer : Layer) :
    walkLayer info stmt (walk info stmt) layer = walk info (layer.fill stmt) := by
  cases layer <;>
    simp only [walkLayer, Layer.fill, Layer.clauses, walk, walkBetween_walk, walkCases_append, walkComms_append,
      walkCases, walkComms]

theorem walkLayers_walk (layers : List Layer) :
    walkLayers info stmt (walk info stmt) layers = walk info (fillAll stmt layers) := by
  induction layers with
  | nil => rfl
  | cons layer rest ih =>
    rw [walkLayers, ih, walkLayer_walk]
    rfl

/-! Coming to the gap. -/

/-- Whatever takes place in the gap, the computation comes to it in the session `here` and goes on the same way. -/
def Comes {α : Type} (context : CheckM Unit → CheckM α) (start here : Session Assigned Walker) : Prop :=
  ∃ later : Unit → CheckM α, ∀ act, context act start = (act >>= later) here

/-- From any session the computation comes to the gap, unless there is a fault before. -/
def Reaches {α : Type} (context : CheckM Unit → CheckM α) : Prop :=
  ∀ start, (∃ fault after, ∀ act, context act start = .error fault after) ∨ ∃ here, Comes context start here

namespace Reaches

variable {α β : Type} {context : CheckM Unit → CheckM α} {next : α → CheckM β}

theorem gap : Reaches fun act => act :=
  fun start => .inr ⟨start, pure, fun act => by rw [bind_pure]⟩

theorem fault (fault : Fault) : Reaches fun _ => (throw fault : CheckM α) :=
  fun start => .inl ⟨fault, start, fun _ => rfl⟩

theorem behind (reaches : Reaches context) : Reaches fun act => context act >>= next := by
  intro start
  rcases reaches start with ⟨fault, after, failed⟩ | ⟨here, later, comes⟩
  · exact .inl ⟨fault, after, fun act => Analysis.bind_error (failed act)⟩
  · refine .inr ⟨here, fun value => later value >>= next, fun act => ?_⟩
    rw [← bind_assoc]
    change EStateM.bind (context act) next start = EStateM.bind (act >>= later) next here
    rw [EStateM.bind, EStateM.bind, comes act]

theorem before {first : CheckM α} {contexts : α → CheckM Unit → CheckM β}
    (reaches : ∀ value, Reaches (contexts value)) :
    Reaches fun act => first >>= fun value => contexts value act := by
  intro start
  cases began : first start with
  | error fault after => exact .inl ⟨fault, after, fun act => Analysis.bind_error began⟩
  | ok value middle =>
    rcases reaches value middle with ⟨fault, after, failed⟩ | ⟨here, later, comes⟩
    · exact .inl ⟨fault, after, fun act => (Analysis.bind_ok began).trans (failed act)⟩
    · exact .inr ⟨here, later, fun act => (Analysis.bind_ok began).trans (comes act)⟩

/-- A gap inside the gap. -/
theorem inside {inner : CheckM Unit → CheckM Unit} (reaches : Reaches context) (reachesInner : Reaches inner) :
    Reaches fun act => context (inner act) := by
  intro start
  rcases reaches start with ⟨fault, after, failed⟩ | ⟨middle, later, comes⟩
  · exact .inl ⟨fault, after, fun act => failed (inner act)⟩
  · rcases @behind _ _ inner later reachesInner middle with ⟨fault, after, failed⟩ | ⟨here, last, arrives⟩
    · exact .inl ⟨fault, after, fun act => (comes (inner act)).trans (failed act)⟩
    · exact .inr ⟨here, last, fun act => (comes (inner act)).trans (arrives act)⟩

end Reaches

theorem reaches_between (before after : List Stmt) : Reaches fun act => walkBetween info before act after :=
  .before fun _ => .behind .gap

theorem reaches_choose_true (condition : Expr) {context : CheckM Unit → CheckM Unit} (reaches : Reaches context)
    (second : CheckM Unit) : Reaches fun act => choose condition (context act) second :=
  .before fun _ => .before fun _ => .behind reaches

theorem reaches_choose_false (condition : Expr) (first : CheckM Unit) : Reaches fun act => choose condition first act :=
  .before fun _ => .before fun _ => .before fun _ => .before fun _ => .before fun _ => .behind .gap

theorem reaches_backEdge {context : CheckM Unit → CheckM Unit} (reaches : Reaches context) (frame : Frame)
    (post : CheckM Unit) : Reaches fun act => backEdge frame (context act) post :=
  .behind (.before fun _ => .behind reaches)

theorem reaches_alternatives {context : CheckM Unit → CheckM Unit} (reaches : Reaches context)
    (earlier later : List (CheckM Unit)) (entry exits : Assigned) :
    Reaches fun act => alternatives entry exits (earlier ++ context act :: later) := by
  induction earlier generalizing exits with
  | nil => exact .before fun _ => .behind reaches
  | cons first rest ih => exact .before fun _ => .before fun _ => .before fun state => ih _

theorem reaches_runSections {context : CheckM Unit → CheckM Unit} (reaches : Reaches context)
    {earlier later : List (CheckM Unit)} {entrances : List Entrance}
    (complete : earlier.length < entrances.length) (index : Nat) (exits : Assigned) :
    Reaches fun act => Switch.runSections exits
      (((entrances.zip (earlier ++ context act :: later)).zipIdx index).map sectionOf) := by
  induction earlier generalizing entrances index exits with
  | nil =>
    cases entrances with
    | nil => cases complete
    | cons entrance rest =>
      have entered : Reaches fun act => (do arrive index entrance.clause; context act) := .before fun _ => reaches
      change Reaches fun act => Analysis.setUnreachable >>= fun _ => Analysis.resolveAll (entrance.labels.map some) >>=
        fun _ => (do arrive index entrance.clause; context act) >>= fun _ => Analysis.current >>= fun state =>
          Switch.runSections (merge exits state) (((rest.zip later).zipIdx (index + 1)).map sectionOf)
      exact .before fun _ => .before fun _ => .behind entered
  | cons first rest ih =>
    cases entrances with
    | nil => cases complete
    | cons entrance others =>
      refine .before fun _ => .before fun _ => .before fun _ => .before fun state => ?_
      exact ih (Nat.lt_of_succ_lt_succ complete) _ _

section Switches

/-! One of the clauses of a switch has the gap. -/

variable {context : CheckM Unit → CheckM Unit} {earlier later : List (CheckM Unit)} {entrances : List Entrance}

theorem reaches_finish (reaches : Reaches context) (whole : (earlier ++ pure () :: later).length = entrances.length)
    (passing : Assigned) (brk : Dest) :
    Reaches fun act => Switch.finish passing (sections entrances (earlier ++ context act :: later)) brk := by
  refine .behind (reaches_runSections reaches ?_ 0 _)
  rw [← whole]
  simp

theorem reaches_jumpSwitch (reaches : Reaches context) (whole : (earlier ++ pure () :: later).length = entrances.length)
    (brk goal : Dest) : Reaches fun act => JumpSwitch.run {
      scrutinee := pure ()
      sections := sections entrances (earlier ++ context act :: later)
      brk
      target := goal } := by
  have finish (passing : Assigned) : Reaches fun act => (do
      Analysis.setUnreachable
      Switch.finish passing (sections entrances (earlier ++ context act :: later)) brk) :=
    .before fun _ => reaches_finish reaches whole passing brk
  refine .before fun _ => .before fun entry => ?_
  cases goal with
  | none =>
    have labels (act : CheckM Unit) : (sections entrances (earlier ++ context act :: later)).flatMap (·.labels) =
        (entrances.flatMap (·.labels)).map some := by
      apply sections_labels
      rw [← whole]
      simp
    simp only [labels]
    exact .before fun default => finish _
  | some label =>
    by_cases past : some label = brk
    · simp only [past, if_true]
      exact finish _
    · simp only [past, if_false]
      exact .before fun _ => finish _

theorem reaches_treeSwitch (reaches : Reaches context) (whole : (earlier ++ pure () :: later).length = entrances.length)
    (tree : Decision Expr ObjectId) (fallback brk : Dest) (complete : Bool) :
    Reaches fun act => TreeSwitch.run matcher {
      scrutinee := pure ()
      known := none
      tree
      fallback
      complete
      sections := sections entrances (earlier ++ context act :: later)
      brk } := by
  simp only [TreeSwitch.run]
  refine .before fun _ => .before fun entry => .before fun _ => ?_
  have finish := reaches_finish reaches whole (if complete then unreachable else clone entry) brk
  cases fallback with
  | none =>
    simp only [Option.isSome_none, Bool.false_eq_true, if_false]
    exact finish
  | some label =>
    simp only [Option.isSome_some, if_true]
    exact .before fun state => .before fun _ => finish

end Switches

theorem walkCases_complete {earlier later : List CaseClause} {clause : CaseClause} {entrances : List Entrance}
    (listed : entrances.map (·.clause) = earlier ++ clause :: later) :
    (walkCases info earlier ++ pure () :: walkCases info later).length = entrances.length := by
  rw [← entrances.length_map Entrance.clause, listed]
  simp [walkCases_length]

/-- A walk comes to the gap of a layer, by the form of the layer. -/
theorem walkLayer_reaches (layer : Layer) : Reaches fun act => walkLayer info stmt act layer := by
  cases layer with
  | block before after => exact reaches_between before after
  | labeled label =>
    refine .before fun _ => ?_
    split
    · exact .before fun _ => .gap
    · exact .gap
  | whenTrue init condition before after otherwise =>
    exact .before fun _ => reaches_choose_true condition (reaches_between before after) _
  | whenFalse init condition body => exact .before fun _ => reaches_choose_false condition _
  | loop init condition post before after =>
    refine .before fun _ => .before fun _ => .before fun frame => .before fun entry => .before fun _ => ?_
    exact .behind (reaches_backEdge (reaches_between before after) frame _)
  | range assigns key value operand before after =>
    refine .before fun _ => .before fun entry => .before fun frame => .before fun _ => ?_
    exact .behind (reaches_backEdge (reaches_between before after) frame _)
  | select earlier comm before after later =>
    have clause : Reaches fun act => (do walk info comm; walkBetween info before act after) :=
      .before fun _ => reaches_between before after
    refine .before fun name => .before fun serial => .before fun entry => .before fun _ => ?_
    exact .behind (reaches_alternatives clause _ _ entry _)
  | switch init tag earlier clause before after later =>
    refine .before fun name => .before fun _ => .before fun serial => .before fun frame => ?_
    refine .before fun _ => .behind (reaches_jumpSwitch (reaches_between before after) ?_ _ _)
    exact walkCases_complete entrancesFrom_listed
  | typeSwitch init guard earlier clause before after later =>
    refine .before fun name => .before fun _ => .before fun serial => ?_
    rcases TypeSwitchPlan.make_cases info serial name guard (Layer.clauses earlier clause before stmt after later) with
      ⟨_, fault, plan⟩ | ⟨_, complete, plan⟩
    · simp only [plan]
      exact .fault fault
    · simp only [plan]
      refine .before fun frame => .before fun _ => .behind ?_
      refine reaches_treeSwitch (reaches_between before after) ?_ _ _ _ _
      exact walkCases_complete (typeSwitchPlan_layout (serial + 1)).listed

theorem walkLayers_reaches (layers : List Layer) : Reaches fun act => walkLayers info stmt act layers := by
  induction layers with
  | nil => exact .gap
  | cons layer rest ih => exact (walkLayer_reaches layer).inside ih

/-! What lasts around the gap. -/

section Lasting

variable {inv : Invariant}

theorem lasting_between {before after : List Stmt} (first : ∀ mark ∈ marksOfAll before, inv.admits mark)
    (last : ∀ mark ∈ marksOfAll after, inv.admits mark) (inside : Lasting inv act) :
    Lasting inv (walkBetween info before act after) :=
  lasting_andThen (walkAll_lasting before first) (lasting_andThen inside (walkAll_lasting after last))

theorem lasting_clauses {earlier later : List CaseClause} {clause : CaseClause} {before after : List Stmt}
    (admitted : ∀ mark ∈ marksOfCases (Layer.clauses earlier clause before .empty after later), inv.admits mark)
    (inside : Lasting inv act) :
    ∀ body ∈ walkCases info earlier ++ walkBetween info before act after :: walkCases info later, Lasting inv body := by
  simp only [Layer.clauses, marksOfCases_append, marksOfCases, marksOfAll_append, marksOfAll, List.forall_mem_append,
    List.forall_mem_cons] at admitted
  obtain ⟨early, _, ⟨front, _, back⟩, late⟩ := admitted
  refine List.forall_mem_append.mpr ⟨walkCases_lasting earlier early, ?_⟩
  exact List.forall_mem_cons.mpr ⟨lasting_between front back inside, walkCases_lasting later late⟩

theorem walkLayer_lasting {layer : Layer} (admitted : ∀ mark ∈ layer.marks, inv.admits mark)
    (inside : Lasting inv act) : Lasting inv (walkLayer info stmt act layer) := by
  cases layer with
  | block before after =>
    simp only [Layer.marks, Layer.fill, marksOf, marksOfAll_append, marksOfAll, List.forall_mem_append] at admitted
    exact lasting_between admitted.1 admitted.2.2 inside
  | labeled label =>
    simp only [Layer.marks, Layer.fill, marksOf, List.forall_mem_cons] at admitted
    exact lasting_labeled _ admitted.1 inside
  | whenTrue init condition before after otherwise =>
    simp only [Layer.marks, Layer.fill, marksOf, marksOfAll_append, marksOfAll, List.forall_mem_append] at admitted
    obtain ⟨first, ⟨early, _, late⟩, last⟩ := admitted
    exact lasting_andThen (walk_lasting init first)
      (lasting_choose condition (lasting_between early late inside) (walk_lasting otherwise last))
  | whenFalse init condition body =>
    simp only [Layer.marks, Layer.fill, marksOf, List.forall_mem_append] at admitted
    exact lasting_andThen (walk_lasting init admitted.1)
      (lasting_choose condition (walkAll_lasting body admitted.2.1) inside)
  | loop init condition post before after =>
    simp only [Layer.marks, Layer.fill, marksOf, marksOfAll_append, marksOfAll, List.forall_mem_append] at admitted
    obtain ⟨first, ⟨early, _, late⟩, last⟩ := admitted
    exact lasting_loop condition (walk_lasting init first) (lasting_between early late inside) (walk_lasting post last)
  | range assigns key value operand before after =>
    simp only [Layer.marks, Layer.fill, marksOf, marksOfAll_append, marksOfAll, List.forall_mem_append] at admitted
    refine lasting_range ?_ (lasting_between admitted.1 admitted.2.2 inside)
    split
    · exact lasting_assignAll _
    · exact fun _ => .pure trivial
  | select earlier comm before after later =>
    simp only [Layer.marks, Layer.fill, marksOf, marksOfComms_append, marksOfComms, marksOfAll_append, marksOfAll,
      List.forall_mem_append] at admitted
    obtain ⟨first, ⟨communicates, early, _, late⟩, last⟩ := admitted
    have clause : Lasting inv (do walk info comm; walkBetween info before act after) :=
      lasting_andThen (walk_lasting comm communicates) (lasting_between early late inside)
    refine lasting_select (List.forall_mem_append.mpr ⟨walkComms_lasting earlier first, ?_⟩)
    exact List.forall_mem_cons.mpr ⟨clause, walkComms_lasting later last⟩
  | switch init tag earlier clause before after later =>
    simp only [Layer.marks, Layer.fill, marksOf, List.forall_mem_append] at admitted
    refine lasting_switch (walk_lasting init admitted.1) (lasting_clauses admitted.2 inside) ?_
    simp [Layer.clauses, walkCases_length]
  | typeSwitch init guard earlier clause before after later =>
    simp only [Layer.marks, Layer.fill, marksOf, List.forall_mem_append] at admitted
    exact lasting_typeSwitch (walk_lasting init admitted.1) (lasting_clauses admitted.2.2 inside)

theorem walkLayers_lasting {layers : List Layer}
    (admitted : ∀ mark ∈ layers.flatMap Layer.marks, inv.admits mark) (inside : Lasting inv act) :
    Lasting inv (walkLayers info stmt act layers) := by
  induction layers with
  | nil => exact inside
  | cons layer rest ih =>
    rw [List.flatMap_cons, List.forall_mem_append] at admitted
    exact walkLayer_lasting admitted.1 (ih admitted.2)

/-- What lasts around a place holds where the computation comes to it: a fault there would find it. -/
theorem Comes.holds {α : Type} {context : CheckM Unit → CheckM α} {start here : Session Assigned Walker}
    (comes : Comes context start here) {post : α → Prop}
    (lasts : ∀ act, Lasting inv act → Lasts inv 0 (context act) post) (holds : inv.holds start) : inv.holds here := by
  obtain ⟨later, goes⟩ := comes
  refine (lasts (throw .clauseAlone) (fun _ => .fault _) start holds (Nat.zero_le _)).2 .clauseAlone here ?_
  rw [goes]
  rfl

end Lasting

end ClauseReach.Checker
