import ClauseReach.Proofs.DispatchPlan
import ClauseReach.Proofs.SectionWalk

/-!
Walks of switches. Dispatch sends what comes to the head of a switch to the labels of the clauses that it may
choose; the sections do the rest.
-/

namespace ClauseReach.Checker

open Source StateAlgebra Paths

variable {serial count first : Nat} {name : String} {clauses : List CaseClause} {entrances : List Entrance}
  {ways : Nat → Way} {bodies : List (CheckM Unit)} {inner : List String}

def newSwitch (serial : Nat) (name : String) (entrances : List Entrance) (live : Bool) : Frame :=
  { label := name, brk := ⟨serial, .break, name⟩, sections := entrances.map (·.labels), live }

theorem newSwitch_new (layout : Layout (serial + 1) count clauses entrances) (live : Bool) :
    (newSwitch serial name entrances live).New serial (serial + (1 + count)) := by
  have labels : (newSwitch serial name entrances live).labels =
      ⟨serial, .break, name⟩ :: entrances.flatMap (·.labels) := by
    simp [newSwitch, Frame.labels, List.flatMap_def]
  constructor
  · rw [labels]
    have first : serial < serial + (1 + count) := by omega
    refine List.forall_mem_cons.mpr ⟨⟨by simp, Nat.le_refl _, first⟩, fun label member => ?_⟩
    have := layout.reserved member
    exact ⟨this.1, by omega, by omega⟩
  · intro empty
    obtain ⟨entrance, member, none⟩ := List.mem_map.mp empty
    exact layout.filled entrance member none
  · rw [labels, List.nodup_cons]
    refine ⟨fun member => ?_, layout.distinct⟩
    have := (layout.reserved member).2.1
    simp only at this
    omega

theorem Layout.unused {view : View} (layout : Layout (view.serial + 1) count clauses entrances)
    (sound : view.Sound) : ∀ label ∈ entrances.flatMap (·.labels), view.waiting label = ∅ := by
  intro label member
  have reserved := layout.reserved member
  exact sound.fresh label reserved.1 (by omega)

theorem runs_switchFrame {view : View} {brk : Label} {post : Frame → View → Prop}
    (holds : ∀ live : Bool, (live = true ↔ view.here.Nonempty) →
      post { label := name, brk, sections := entrances.map (·.labels), live } view) :
    Runs (switchFrame name brk entrances) view post :=
  .bind (runs_current fun _ summary => .pure (holds _ summary.reachable))

/-- A switch behind its dispatch: if what waits at each entrance is what dispatch chose for it, the rest of
the walk covers the ways of the switch. -/
theorem runs_dispatched {view : View} {live : Bool} {dispatch : Store → Option Nat → Store → Prop}
    {here : Set Store} {waiting : Waiting} {passing : Assigned}
    (layout : Layout (view.serial + 1) count clauses entrances)
    (covers : CoversSections bodies inner first clauses ways)
    (settled : Settled ways) (sound : view.Sound)
    (detached : view.attached = "") (closed : Closed inner view.waiting)
    (reached : live = true ↔ view.here.Nonempty)
    (sent : ∀ index, entered entrances waiting index = doors view.here dispatch index)
    (kept : ∀ label ∉ entrances.flatMap (·.labels), waiting label = view.waiting label)
    (passes : passing.Summarizes {after | ∃ before ∈ view.here, dispatch before none after}) :
    Runs (Switch.finish passing (sections entrances bodies) (some ⟨view.serial, .break, name⟩))
      { view with
        serial := view.serial + (1 + count)
        frames := newSwitch view.serial name entrances live :: view.frames
        here := here
        waiting := waiting }
      fun _ behind => Runs pop behind fun _ after =>
        after.here = outcome view.here (switching name (headNumbers first clauses) dispatch ways) .onward ∧
          Follows view view.waiting first (Traversal.clausesOfCases clauses)
            (outcome view.here (switching name (headNumbers first clauses) dispatch ways)) after := by
  have new : (newSwitch view.serial name entrances live).New view.serial (view.serial + (1 + count)) :=
    newSwitch_new layout live
  have foreign {label : Label} (outside : label.kind = .user ∨ view.serial + (1 + count) ≤ label.serial) :
      waiting label = view.waiting label := by
    refine kept label fun member => ?_
    have := layout.reserved member
    rcases outside with user | late
    · exact this.1 user
    · omega
  have soundInside : View.Sound { view with
      serial := view.serial + (1 + count)
      frames := newSwitch view.serial name entrances live :: view.frames
      here := here
      waiting := waiting } := by
    refine ⟨fun label reserved fresh => ?_, (sound.enter new here).frames⟩
    exact (foreign (.inr fresh)).trans (sound.fresh label reserved (new.grows.trans fresh))
  have closedInside : Closed inner waiting := fun label member =>
    (foreign (.inl rfl)).trans (closed label member)
  let stage : Stage := ⟨view, newSwitch view.serial name entrances live, _, view.here, sound, new, rfl, reached⟩
  have inside : newSwitch view.serial name entrances live :: view.frames = stage.frames 0 := rfl
  have ran := runs_finish stage covers settled layout.listed rfl inside soundInside detached closedInside
    rfl kept passes
  refine ran.mono fun _ behind popped => popped.mono ?_
  have same : entered entrances waiting = doors view.here dispatch := funext sent
  rw [same]
  intro _ after given
  obtain ⟨hereAfter, follows⟩ := given
  constructor
  · rw [hereAfter, outcome_switching]
    simp only [true_and]
    rfl
  · refine follows.congr fun cursor elsewhere => ?_
    rw [outcome_switching]
    simp only [elsewhere, false_and, Set.ofPred_false, Set.empty_union]
    rfl

/-! Switches over expressions. -/

section Entering

variable {waiting : Waiting} {stores : Set Store} {door : Nat}

theorem entered_none (unused : ∀ label ∈ entrances.flatMap (·.labels), waiting label = ∅) :
    entered entrances waiting door = ∅ := by
  refine Set.eq_empty_of_forall_notMem fun store => ?_
  intro given
  obtain ⟨entrance, found, label, own, waits⟩ := given
  rw [unused label (LeadsInto.mem ⟨entrance, found, own⟩)] at waits
  exact waits

theorem entered_one (layout : Layout serial count clauses entrances)
    (unused : ∀ label ∈ entrances.flatMap (·.labels), waiting label = ∅) {label : Label} {index : Nat}
    (leads : LeadsInto entrances label index) :
    entered entrances (sending label stores waiting) door = {store | door = index ∧ store ∈ stores} := by
  ext store
  constructor
  · intro given
    obtain ⟨entrance, found, other, own, waits⟩ := given
    have also : LeadsInto entrances other door := ⟨entrance, found, own⟩
    rw [sending, unused other also.mem] at waits
    split at waits
    next same => exact ⟨leadsInto_unique layout.distinct also (same ▸ leads), by simpa using waits⟩
    next => cases waits
  · intro given
    obtain ⟨same, member⟩ := given
    obtain ⟨entrance, found, own⟩ := leads
    exact ⟨entrance, same ▸ found, label, own, by simp [sending, member]⟩

theorem entered_all (layout : Layout serial count clauses entrances)
    (unused : ∀ label ∈ entrances.flatMap (·.labels), waiting label = ∅) :
    entered entrances (fun label => if label ∈ entrances.flatMap (·.labels) then waiting label ∪ stores
        else waiting label) door = {store | door < clauses.length ∧ store ∈ stores} := by
  have length : entrances.length = clauses.length := by rw [← layout.listed, List.length_map]
  ext store
  constructor
  · intro given
    obtain ⟨entrance, found, label, own, waits⟩ := given
    have among := LeadsInto.mem ⟨entrance, found, own⟩
    simp only [if_pos among, unused label among, Set.empty_union] at waits
    obtain ⟨inside, _⟩ := List.getElem?_eq_some_iff.mp found
    exact ⟨length ▸ inside, waits⟩
  · intro given
    obtain ⟨inside, member⟩ := given
    have inside : door < entrances.length := length ▸ inside
    obtain ⟨label, own⟩ := List.exists_mem_of_ne_nil _ (layout.filled entrances[door] (by simp))
    have leads : LeadsInto entrances label door := ⟨entrances[door], by simp, own⟩
    refine ⟨entrances[door], by simp, label, own, ?_⟩
    simp [leads.mem, member]

end Entering

theorem runs_branchAll {view : View} (labels : List Label) {seen : Bool} {post : Bool → View → Prop}
    (holds : post (seen || labels.any (·.kind = .default)) { view with
      waiting := fun label => if label ∈ labels then view.waiting label ∪ view.here else view.waiting label }) :
    Runs (Switch.branchAll seen (labels.map some)) view post := by
  induction labels generalizing view seen with
  | nil => exact .pure (by simpa using holds)
  | cons label rest ih =>
    have together : (fun other => if other ∈ rest then sending label view.here view.waiting other ∪ view.here
          else sending label view.here view.waiting other) =
        fun other => if other ∈ label :: rest then view.waiting other ∪ view.here else view.waiting other := by
      funext other
      simp only [sending, List.mem_cons]
      by_cases later : other ∈ rest <;> by_cases same : other = label <;> simp [later, same, Set.union_assoc]
    refine .bind (runs_branch ?_)
    cases seen with
    | true =>
      refine ih ?_
      simp only [together]
      simpa using holds
    | false =>
      refine ih ?_
      simp only [together]
      simpa using holds

section Jumping

variable {view : View} {parts : List (Section Assigned Walker)} {brk : Label} {post : Unit → View → Prop}

theorem runs_jumpAnywhere {labels : List Label} (listed : parts.flatMap (·.labels) = labels.map some)
    (holds : ∀ passing : Assigned,
      passing.Summarizes {store | labels.any (·.kind = .default) = false ∧ store ∈ view.here} →
      Runs (Switch.finish passing parts (some brk)) { view with
        here := ∅
        waiting := fun label => if label ∈ labels then view.waiting label ∪ view.here else view.waiting label } post) :
    Runs (JumpSwitch.run ⟨pure (), parts, some brk, none⟩) view post := by
  refine .bind (.pure (.bind (runs_current fun state summary => .bind ?_)))
  simp only [listed]
  refine runs_branchAll labels (.bind (runs_setUnreachable (holds _ ?_)))
  cases labels.any (·.kind = .default) with
  | true => simpa using Assigned.summarizes_unreachable
  | false => simpa [TransparentClone.clone_eq] using summary

theorem runs_jumpPast
    (holds : ∀ passing : Assigned, passing.Summarizes view.here →
      Runs (Switch.finish passing parts (some brk)) { view with here := ∅ } post) :
    Runs (JumpSwitch.run ⟨pure (), parts, some brk, some brk⟩) view post := by
  refine .bind (.pure (.bind (runs_current fun state summary => ?_)))
  simp only [if_true]
  refine .bind (runs_setUnreachable (holds _ ?_))
  rwa [TransparentClone.clone_eq]

theorem runs_jumpInto {label : Label} (other : label ≠ brk)
    (holds : Runs (Switch.finish unreachable parts (some brk)) { view with
      here := ∅
      waiting := sending label view.here view.waiting } post) :
    Runs (JumpSwitch.run ⟨pure (), parts, some brk, some label⟩) view post := by
  refine .bind (.pure (.bind (runs_current fun state summary => ?_)))
  have elsewhere : ¬some label = some brk := by simpa using other
  simp only [if_neg elsewhere]
  exact .bind (runs_branch (.bind (runs_setUnreachable holds)))

end Jumping

theorem sections_labels (complete : bodies.length = entrances.length) :
    (sections entrances bodies).flatMap (·.labels) = (entrances.flatMap (·.labels)).map some := by
  have walked (index : Nat) : (((entrances.zip bodies).zipIdx index).map sectionOf).flatMap (·.labels) =
      (entrances.flatMap (·.labels)).map some := by
    induction entrances generalizing bodies index with
    | nil => rfl
    | cons entrance rest ih =>
      cases bodies with
      | nil => cases complete
      | cons body bodies =>
        have later := ih (by simpa using complete) (index + 1)
        simp only [List.zip_cons_cons, List.zipIdx_cons, List.map_cons, List.flatMap_cons, later, sectionOf,
          List.map_append]
  exact walked 0

theorem Layout.any_default (layout : Layout serial count clauses entrances) :
    (entrances.flatMap (·.labels)).any (·.kind = .default) = clauses.any (·.cases.isNone) := by
  rw [← layout.listed, Bool.eq_iff_iff]
  simp only [List.any_eq_true, List.mem_flatMap, List.mem_map, decide_eq_true_eq]
  constructor
  · intro given
    obtain ⟨label, ⟨entrance, member, own⟩, kind⟩ := given
    refine ⟨entrance.clause, ⟨entrance, member, rfl⟩, ?_⟩
    rw [layout.kinds entrance member label own] at kind
    by_contra cases
    simp [cases] at kind
  · intro given
    obtain ⟨clause, ⟨entrance, member, same⟩, default⟩ := given
    obtain ⟨label, own⟩ := List.exists_mem_of_ne_nil _ (layout.filled entrance member)
    refine ⟨label, ⟨entrance, member, own⟩, ?_⟩
    rw [layout.kinds entrance member label own, same, if_pos default]

/-- A switch over an expression behind its head, by where its plan and its meaning let it go. -/
theorem runs_jumpSwitch {view : View} {live : Bool} {tag : Option Expr} {target : Dest}
    (layout : Layout (view.serial + 1) count clauses entrances) (complete : bodies.length = clauses.length)
    (known : Option.Rel (Leads ⟨view.serial, .break, name⟩ entrances) target (staticChoice tag clauses))
    (covers : CoversSections bodies inner first clauses ways)
    (settled : Settled ways) (sound : view.Sound)
    (detached : view.attached = "") (closed : Closed inner view.waiting)
    (reached : live = true ↔ view.here.Nonempty) :
    Runs (JumpSwitch.run ⟨pure (), sections entrances bodies, some ⟨view.serial, .break, name⟩, target⟩)
      { view with
        serial := view.serial + (1 + count)
        frames := newSwitch view.serial name entrances live :: view.frames }
      fun _ behind => Runs pop behind fun _ after =>
        after.here = outcome view.here (switching name (headNumbers first clauses)
            (fun before choice after => Chooses tag clauses choice ∧ after = before) ways) .onward ∧
          Follows view view.waiting first (Traversal.clausesOfCases clauses)
            (outcome view.here (switching name (headNumbers first clauses)
              (fun before choice after => Chooses tag clauses choice ∧ after = before) ways)) after := by
  have unused := layout.unused sound
  have length : bodies.length = entrances.length := by
    rw [complete, ← layout.listed, List.length_map]
  cases fixed : staticChoice tag clauses with
  | none =>
    -- Any clause may be chosen, and none if there is no default clause.
    rw [fixed] at known
    cases known
    refine runs_jumpAnywhere (sections_labels length) fun passing summary => ?_
    refine runs_dispatched layout covers settled sound detached closed reached ?_ ?_ ?_
    · intro index
      rw [entered_all layout unused]
      simp [doors, Chooses, fixed, and_comm]
    · intro label foreign
      simp [foreign]
    · rw [layout.any_default] at summary
      convert summary using 1
      ext store
      simp [Chooses, fixed, and_comm, Option.isSome_iff_ne_none]
  | some choice =>
    rw [fixed] at known
    cases known with
    | @some label _ leads =>
    cases choice with
    | none =>
      obtain rfl : label = ⟨view.serial, .break, name⟩ := leads
      refine runs_jumpPast fun passing summary => ?_
      refine runs_dispatched layout covers settled sound detached closed reached ?_ ?_ ?_
      · intro index
        rw [entered_none unused]
        simp [doors, Chooses, fixed]
      · intro label _
        rfl
      · simpa [Chooses, fixed] using summary
    | some index =>
      have among := LeadsInto.mem leads
      have other : label ≠ ⟨view.serial, .break, name⟩ := by
        rintro rfl
        exact absurd (layout.reserved among).2.1 (Nat.not_succ_le_self _)
      refine runs_jumpInto other ?_
      refine runs_dispatched layout covers settled sound detached closed reached ?_ ?_ ?_
      · intro door
        rw [entered_one layout unused leads]
        ext store
        simp [doors, Chooses, fixed, and_comm]
      · intro foreign outside
        have different : foreign ≠ label := fun same => outside (same ▸ among)
        simp [sending, different]
      · simpa [Chooses, fixed] using Assigned.summarizes_unreachable

theorem Covers.switch {init : CheckM Unit} {way : Way} (initial : Covers init "" [] first [] way)
    (straight : Straight way) (tag : Option Expr)
    (proper : properClauses clauses = true) (complete : bodies.length = clauses.length)
    (covers : CoversSections bodies inner first clauses ways)
    (settled : Settled ways) :
    Covers (Checker.switch init tag clauses bodies) name inner first (Traversal.clausesOfCases clauses)
      (Paths.andThen way (switching name (headNumbers first clauses)
        (fun before choice after => Chooses tag clauses choice ∧ after = before) ways)) := by
  refine Covers.detached (initial.andThen straight ?_)
  intro view sound detached closed
  have once : (clauses.filter (·.cases.isNone)).length ≤ 1 := by
    simp only [properClauses, Bool.and_eq_true, decide_eq_true_eq] at proper
    exact proper.1
  have layout := switchPlan_layout proper (view.serial + 1)
  have known := knownTarget_rel layout once switchPlan_aligned tag ⟨view.serial, .break, name⟩
  refine .bind (runs_reserve (.bind (runs_switchFrame fun live reached => .bind (runs_push (.bind ?_)))))
  exact runs_jumpSwitch layout complete known covers settled sound detached closed reached

end ClauseReach.Checker
