import ClauseReach.Proofs.PathOrder

/-!
Paths that go back, against paths that do not. As long as no `goto` goes back, the two are the same; so a
path is a forward path, or it begins with a forward path to a `goto` that goes back.
-/

namespace ClauseReach.Paths

open Source

/-- `free` ways may go back to these labels where `forward` ways stop short. -/
structure Agree (labels : List String) (free forward : Way) : Prop where
  forward_or_back : ∀ {before cursor after}, free before cursor after →
    forward before cursor after ∨
      ∃ label ∈ labels, ∃ store, forward before (.leaving (.goto (some label))) store
  free_of_forward : ∀ {before cursor after}, forward before cursor after →
    cursor.seeks labels = false → free before cursor after

/-- The same for crossings. -/
structure AgreeCrossing (labels : List String) (free forward : Crossing) : Prop where
  forward_or_back : ∀ {cursor before stand after}, free cursor before stand after →
    forward cursor before stand after ∨
      ∃ label ∈ labels, ∃ store, forward cursor before (.leaving (.goto (some label))) store
  free_of_forward : ∀ {cursor before stand after}, forward cursor before stand after →
    stand.seeks labels = false → free cursor before stand after

variable {labels wider : List String} {free forward first second body post : Way}
  {freeNext forwardNext freePost forwardPost : Way}

theorem Cursor.exists_of_seeks {cursor : Cursor} (seeking : cursor.seeks labels = true) :
    ∃ label ∈ labels, cursor = .leaving (.goto (some label)) := by
  unfold Cursor.seeks at seeking
  split at seeking
  · exact ⟨_, by simpa using seeking, rfl⟩
  · cases seeking

theorem Cursor.seeks_mono {cursor : Cursor} (included : labels ⊆ wider)
    (away : cursor.seeks wider = false) : cursor.seeks labels = false := by
  unfold Cursor.seeks at away ⊢
  split
  · simp only [List.contains_eq_mem, decide_eq_false_iff_not] at away ⊢
    exact fun member => away (included member)
  · rfl

theorem Agree.mono (agree : Agree labels free forward) (included : labels ⊆ wider) :
    Agree wider free forward where
  forward_or_back way := (agree.forward_or_back way).imp_right
    fun ⟨label, member, store, back⟩ => ⟨label, included member, store, back⟩
  free_of_forward way away := agree.free_of_forward way (Cursor.seeks_mono included away)

theorem Agree.refl (labels : List String) (way : Way) : Agree labels way way :=
  ⟨.inl, fun way _ => way⟩

theorem Agree.andThen (agree : Agree labels free forward) (later : Agree labels freeNext forwardNext) :
    Agree labels (andThen free freeNext) (andThen forward forwardNext) where
  forward_or_back := by
    intro before cursor after passed
    rcases passed with ⟨way, stays⟩ | ⟨middle, way, rest⟩
    · rcases agree.forward_or_back way with found | ⟨label, member, store, back⟩
      · exact .inl (.inl ⟨found, stays⟩)
      · exact .inr ⟨label, member, store, .inl ⟨back, by simp⟩⟩
    · rcases agree.forward_or_back way with found | ⟨label, member, store, back⟩
      · rcases later.forward_or_back rest with further | ⟨label, member, store, back⟩
        · exact .inl (.inr ⟨middle, found, further⟩)
        · exact .inr ⟨label, member, store, .inr ⟨middle, found, back⟩⟩
      · exact .inr ⟨label, member, store, .inl ⟨back, by simp⟩⟩
  free_of_forward := by
    intro before cursor after passed away
    rcases passed with ⟨way, stays⟩ | ⟨middle, way, rest⟩
    · exact .inl ⟨agree.free_of_forward way away, stays⟩
    · exact .inr ⟨middle, agree.free_of_forward way rfl, later.free_of_forward rest away⟩

theorem Agree.either (condition : Expr) (whenTrue : Agree labels free forward)
    (whenFalse : Agree labels freeNext forwardNext) :
    Agree labels (either condition free freeNext) (either condition forward forwardNext) where
  forward_or_back := by
    intro before cursor after passed
    rcases passed with ⟨may, way⟩ | ⟨may, way⟩
    · rcases whenTrue.forward_or_back way with found | ⟨label, member, store, back⟩
      · exact .inl (.inl ⟨may, found⟩)
      · exact .inr ⟨label, member, store, .inl ⟨may, back⟩⟩
    · rcases whenFalse.forward_or_back way with found | ⟨label, member, store, back⟩
      · exact .inl (.inr ⟨may, found⟩)
      · exact .inr ⟨label, member, store, .inr ⟨may, back⟩⟩
  free_of_forward := by
    intro before cursor after passed away
    rcases passed with ⟨may, way⟩ | ⟨may, way⟩
    · exact .inl ⟨may, whenTrue.free_of_forward way away⟩
    · exact .inr ⟨may, whenFalse.free_of_forward way away⟩

theorem Cursor.out_goto (name : String) (loop : Bool) (label : Option String) :
    (Cursor.leaving (.goto label)).out name loop = some (.leaving (.goto label)) := rfl

/-- A path on its way to a label is so outside of every statement it leaves. -/
theorem Cursor.seeks_of_out {name : String} {loop : Bool} {stand cursor : Cursor}
    (out : stand.out name loop = some cursor) (away : cursor.seeks labels = false) :
    stand.seeks labels = false := by
  unfold Cursor.seeks
  split
  · cases out
    exact away
  · rfl

theorem Agree.leaving (name : String) (loop : Bool) (agree : Agree labels free forward) :
    Agree labels (leaving name loop free) (leaving name loop forward) where
  forward_or_back := by
    intro before cursor after passed
    obtain ⟨stand, way, out⟩ := passed
    rcases agree.forward_or_back way with found | ⟨label, member, store, back⟩
    · exact .inl ⟨stand, found, out⟩
    · exact .inr ⟨label, member, store, _, back, Cursor.out_goto name loop _⟩
  free_of_forward := by
    intro before cursor after passed away
    obtain ⟨stand, way, out⟩ := passed
    exact ⟨stand, agree.free_of_forward way (Cursor.seeks_of_out out away), out⟩

theorem Cursor.seeks_of_resumes {name : String} {stand : Cursor} (resumes : stand.resumes name = true) :
    stand.seeks labels = false := by
  unfold Cursor.seeks
  split
  · simp [Cursor.resumes, Jump.continues] at resumes
  · rfl

theorem Agree.looping (name : String) (mayEnter mayLeave : Bool) (agree : Agree labels free forward)
    (posts : Agree [] freePost forwardPost) :
    Agree labels (looping name mayEnter mayLeave free freePost)
      (looping name mayEnter mayLeave forward forwardPost) where
  forward_or_back := by
    intro before cursor after passed
    obtain ⟨head, rounds, out⟩ := passed
    -- The first round with a jump back is reached by forward rounds only.
    have reached : Relation.ReflTransGen
          (fun head next => mayEnter = true ∧ Round name forward forwardPost head next) before head ∨
        ∃ label ∈ labels, ∃ store,
          Paths.looping name mayEnter mayLeave forward forwardPost before
            (.leaving (.goto (some label))) store := by
      clear out
      induction rounds with
      | refl => exact .inl .refl
      | tail _ step ih =>
        obtain ⟨may, stand, middle, way, resumes, last⟩ := step
        rcases ih with heads | back
        · rcases agree.forward_or_back way with found | ⟨label, member, store, back⟩
          · rcases posts.forward_or_back last with kept | ⟨label, impossible, _⟩
            · exact .inl (heads.tail ⟨may, stand, middle, found, resumes, kept⟩)
            · cases impossible
          · exact .inr ⟨label, member, store, _, heads,
              .inr ⟨may, _, back, Cursor.out_goto name true _⟩⟩
        · exact .inr back
    rcases reached with heads | back
    · rcases out with ⟨may, same, kept⟩ | ⟨may, way⟩
      · exact .inl ⟨head, heads, .inl ⟨may, same, kept⟩⟩
      · rcases (agree.leaving name true).forward_or_back way with found | ⟨label, member, store, back⟩
        · exact .inl ⟨head, heads, .inr ⟨may, found⟩⟩
        · exact .inr ⟨label, member, store, head, heads, .inr ⟨may, back⟩⟩
    · exact .inr back
  free_of_forward := by
    intro before cursor after passed away
    obtain ⟨head, rounds, out⟩ := passed
    refine ⟨head, Relation.ReflTransGen.mono ?_ _ _ rounds, ?_⟩
    · intro head next passed
      obtain ⟨may, stand, middle, way, resumes, last⟩ := passed
      exact ⟨may, stand, middle, agree.free_of_forward way (Cursor.seeks_of_resumes resumes), resumes,
        posts.free_of_forward last rfl⟩
    · rcases out with ⟨may, same, kept⟩ | ⟨may, way⟩
      · exact .inl ⟨may, same, kept⟩
      · exact .inr ⟨may, (agree.leaving name true).free_of_forward way away⟩

theorem Agree.switching (name : String) (heads : List Nat) (dispatch : Store → Option Nat → Store → Prop)
    {freeInside forwardInside : Nat → Way}
    (agree : ∀ index, Agree labels (freeInside index) (forwardInside index)) :
    Agree labels (switching name heads dispatch freeInside)
      (switching name heads dispatch forwardInside) where
  forward_or_back := by
    intro before cursor after passed
    rcases passed with stops | passes | ⟨index, entered, enters, way⟩
    · exact .inl (.inl stops)
    · exact .inl (.inr (.inl passes))
    · rcases ((agree index).leaving name false).forward_or_back way with found | ⟨label, member, store, back⟩
      · exact .inl (.inr (.inr ⟨index, entered, enters, found⟩))
      · exact .inr ⟨label, member, store, .inr (.inr ⟨index, entered, enters, back⟩)⟩
  free_of_forward := by
    intro before cursor after passed away
    rcases passed with stops | passes | ⟨index, entered, enters, way⟩
    · exact .inl stops
    · exact .inr (.inl passes)
    · exact .inr (.inr ⟨index, entered, enters, ((agree index).leaving name false).free_of_forward way away⟩)

theorem Agree.clause (number : Nat) (agree : Agree labels free forward)
    (later : Agree labels freeNext forwardNext) :
    Agree labels (clause number free freeNext) (clause number forward forwardNext) where
  forward_or_back := by
    intro before cursor after passed
    rcases passed with stops | ⟨way, stays⟩ | ⟨middle, way, rest⟩
    · exact .inl (.inl stops)
    · rcases agree.forward_or_back way with found | ⟨label, member, store, back⟩
      · exact .inl (.inr (.inl ⟨found, stays⟩))
      · exact .inr ⟨label, member, store, .inr (.inl ⟨back, by simp⟩)⟩
    · rcases agree.forward_or_back way with found | ⟨label, member, store, back⟩
      · rcases later.forward_or_back rest with further | ⟨label, member, store, back⟩
        · exact .inl (.inr (.inr ⟨middle, found, further⟩))
        · exact .inr ⟨label, member, store, .inr (.inr ⟨middle, found, back⟩)⟩
      · exact .inr ⟨label, member, store, .inr (.inl ⟨back, by simp⟩)⟩
  free_of_forward := by
    intro before cursor after passed away
    rcases passed with stops | ⟨way, stays⟩ | ⟨middle, way, rest⟩
    · exact .inl stops
    · exact .inr (.inl ⟨agree.free_of_forward way away, stays⟩)
    · exact .inr (.inr ⟨middle, agree.free_of_forward way rfl, later.free_of_forward rest away⟩)

theorem Agree.crossing (front : List String) (agree : Agree labels free forward) :
    AgreeCrossing labels (crossing front free) (crossing front forward) where
  forward_or_back := by
    intro cursor before stand after way
    simp only [Paths.crossing] at way ⊢
    split
    · exact agree.forward_or_back (by simpa [*] using way)
    · exact .inl (by simpa [*] using way)
  free_of_forward := by
    intro cursor before stand after way away
    simp only [Paths.crossing] at way ⊢
    split
    · exact agree.free_of_forward (by simpa [*] using way) away
    · simpa [*] using way

/-- A jump back that the block could answer is a jump back for forward paths. -/
theorem AgreeCrossing.block {freePass forwardPass : Crossing} {own all : List String}
    (agree : AgreeCrossing labels freePass forwardPass) (ownIn : own ⊆ all) (innerIn : labels ⊆ all) :
    Agree all (block true own freePass) (block false own forwardPass) where
  forward_or_back := by
    intro before cursor after rounds
    have once {stand after} (passed : forwardPass .onward before stand after) :
        Paths.block false own forwardPass before stand after := .last passed (by simp)
    rcases rounds with ⟨passed, _⟩ | @⟨_, _, middle, store, _, _, _, passed, returns, _⟩
    · rcases agree.forward_or_back passed with found | ⟨label, member, store, back⟩
      · exact .inl (once found)
      · exact .inr ⟨label, innerIn member, store, once back⟩
    · right
      rcases agree.forward_or_back passed with found | ⟨label, member, store, back⟩
      · obtain ⟨label, member, rfl⟩ := Cursor.exists_of_seeks returns
        exact ⟨label, ownIn member, store, once found⟩
      · exact ⟨label, innerIn member, store, once back⟩
  free_of_forward := by
    intro before cursor after rounds away
    rcases rounds with ⟨passed, _⟩ | ⟨impossible, _⟩
    · exact .last (agree.free_of_forward passed (Cursor.seeks_mono innerIn away))
        fun _ => Cursor.seeks_mono ownIn away
    · cases impossible

variable {info : Info}

theorem wayOf_simple_back {back : Bool} {name : String} {first : Nat} {stmt : Stmt}
    (simple : stmt.isSimple = true) : wayOf info true name first stmt = wayOf info back name first stmt := by
  cases stmt with
  | empty | expr | assign | eval => rfl
  | _ => cases simple

theorem agree_simple {name : String} {first : Nat} {stmt : Stmt} (simple : stmt.isSimple = true) :
    Agree labels (wayOf info true name first stmt) (wayOf info false name first stmt) := by
  rw [wayOf_simple_back simple]
  exact .refl labels _

/-- A path with no business in a statement list passes by it. -/
theorem crossAll_passes {back : Bool} {first : Nat} {stmts : List Stmt} {cursor : Cursor} {store : Store}
    (elsewhere : cursor.enters (ownLabels stmts) = false) {stand : Cursor} {after : Store} :
    crossAll info back first stmts cursor store stand after ↔ stand = cursor ∧ after = store := by
  induction stmts generalizing first with
  | nil => exact Iff.rfl
  | cons stmt rest ih =>
    have apart : cursor.enters stmt.labels = false ∧ cursor.enters (ownLabels rest) = false := by
      unfold Cursor.enters Cursor.seeks at elsewhere ⊢
      simp only [ownLabels, List.flatMap_cons] at elsewhere
      split at elsewhere
      · cases elsewhere
      · split at elsewhere <;> simp_all [ownLabels]
    simp only [crossAll, crossing, apart.1, Bool.false_eq_true, if_false]
    constructor
    · rintro ⟨middle, between, ⟨rfl, rfl⟩, further⟩
      exact (ih apart.2).mp further
    · intro same
      exact ⟨cursor, store, ⟨rfl, rfl⟩, (ih apart.2).mpr same⟩

theorem goto_elsewhere {label : String} (absent : label ∉ labels) :
    (Cursor.leaving (.goto (some label))).enters labels = false := by
  simpa [Cursor.enters, Cursor.seeks] using absent

theorem AgreeCrossing.stmts {first : Nat} {stmts : List Stmt}
    (agree : AgreeCrossing (innerAll stmts) (crossAll info true first stmts) (crossAll info false first stmts)) :
    Agree (allLabels stmts) (Paths.block true (ownLabels stmts) (crossAll info true first stmts))
      (Paths.block false (ownLabels stmts) (crossAll info false first stmts)) :=
  agree.block (fun _ member => mem_allLabels.mpr (.inl member)) fun _ member =>
    mem_allLabels.mpr (.inr member)

mutual

theorem wayOf_agree {visible : List String} (name : String) (first : Nat) : ∀ (stmt : Stmt),
    legal info visible stmt = true → (innerLabels stmt).Nodup →
      Agree (innerLabels stmt) (wayOf info true name first stmt) (wayOf info false name first stmt)
  | .empty, _, _ | .assign _ _, _, _ | .eval _, _, _ | .return _, _, _ | .jump _, _, _
  | .declare .variables _, _, _ | .declare .other _, _, _ => .refl _ _
  | .expr _, _, _ => agree_simple rfl
  | .labeled label stmt, legality, distinct =>
    wayOf_agree label first stmt (by simpa [legal] using legality) (by simpa [innerLabels] using distinct)
  | .block body, legality, distinct =>
    (crossAll_agree first body (by simpa [legal] using legality)
      (by simpa [innerLabels] using distinct)).stmts
  | .cond init condition body otherwise, legality, distinct => by
    simp only [legal, Bool.and_eq_true] at legality
    simp only [innerLabels, List.nodup_append] at distinct ⊢
    have bodyAgree := (crossAll_agree first body legality.1.1.2 distinct.1).stmts
    have elseAgree := wayOf_agree "" (first + (Traversal.clausesOfStmts body).length) otherwise
      legality.2 distinct.2.1
    exact (agree_simple legality.1.1.1).andThen
      (.either condition (bodyAgree.mono (by simp)) (elseAgree.mono (by simp)))
  | .loop init condition post body, legality, distinct => by
    simp only [legal, Bool.and_eq_true] at legality
    have bodyAgree := (crossAll_agree first body legality.2 (by simpa [innerLabels] using distinct)).stmts
    exact (agree_simple legality.1.1).andThen (bodyAgree.looping name _ _ (agree_simple legality.1.2))
  | .range assigns key value subject body, legality, distinct => by
    have bodyAgree := (crossAll_agree first body (by simpa [legal] using legality)
      (by simpa [innerLabels] using distinct)).stmts
    exact ((Agree.refl _ _).andThen bodyAgree).looping name _ _ (.refl _ _)
  | .select clauses, legality, distinct =>
    (wayOfComms_agree first clauses (by simpa [legal] using legality)
      (by simpa [innerLabels] using distinct)).leaving name false
  | .switch init tag clauses, legality, distinct => by
    simp only [legal, Bool.and_eq_true] at legality
    exact (agree_simple legality.1.1).andThen (.switching name _ _ fun index =>
      wayOfCases_agree first clauses index legality.2 (by simpa [innerLabels] using distinct))
  | .typeSwitch init guard clauses, legality, distinct => by
    simp only [legal, Bool.and_eq_true] at legality
    exact (agree_simple legality.1.1.1.1).andThen (.switching name _ _ fun index =>
      wayOfCases_agree first clauses index legality.2 (by simpa [innerLabels] using distinct))
termination_by structural stmt => stmt

theorem crossAll_agree {visible : List String} (first : Nat) : ∀ (stmts : List Stmt),
    legalAll info visible stmts = true → (allLabels stmts).Nodup →
      AgreeCrossing (innerAll stmts) (crossAll info true first stmts) (crossAll info false first stmts)
  | [], _, _ => ⟨.inl, fun passed _ => passed⟩
  | stmt :: rest, legality, distinct => by
    simp only [legalAll, Bool.and_eq_true] at legality
    simp only [allLabels, List.nodup_append] at distinct
    obtain ⟨_, ⟨innerDistinct, restDistinct, apart⟩, _⟩ := distinct
    have here := (wayOf_agree "" first stmt legality.1 innerDistinct).crossing stmt.labels
    have later := crossAll_agree (first + (Traversal.clausesOfStmt stmt).length) rest legality.2 restDistinct
    -- A label inside the statement is no label of the rest, so a jump to it passes by the rest.
    have passes {label : String} (inside : label ∈ innerLabels stmt) :
        (Cursor.leaving (.goto (some label))).enters (ownLabels rest) = false :=
      goto_elsewhere fun own => apart label inside label (mem_allLabels.mpr (.inl own)) rfl
    constructor
    · intro cursor before stand after passed
      obtain ⟨middle, store, way, further⟩ := passed
      rcases here.forward_or_back way with found | ⟨label, member, store, back⟩
      · rcases later.forward_or_back further with kept | ⟨label, member, store', back⟩
        · exact .inl ⟨middle, store, found, kept⟩
        · exact .inr ⟨label, by simp [innerAll] at member ⊢; exact .inr member, store', middle, store, found, back⟩
      · exact .inr ⟨label, by simp [innerAll, member], store, _, store, back,
          (crossAll_passes (passes member)).mpr ⟨rfl, rfl⟩⟩
    · intro cursor before stand after passed away
      obtain ⟨middle, store, way, further⟩ := passed
      refine ⟨middle, store, here.free_of_forward way ?_,
        later.free_of_forward further (Cursor.seeks_mono (by simp [innerAll]) away)⟩
      by_contra seeking
      obtain ⟨label, member, rfl⟩ := Cursor.exists_of_seeks (by simpa using seeking)
      obtain ⟨rfl, rfl⟩ := (crossAll_passes (passes member)).mp further
      simp [Cursor.seeks, innerAll, member] at away
termination_by structural stmts => stmts

theorem wayOfCases_agree {visible : List String} (first : Nat) : ∀ (clauses : List CaseClause) (index : Nat),
    legalCases info visible clauses = true → (labelsOfCases clauses).Nodup →
      Agree (labelsOfCases clauses) (wayOfCases info true first clauses index)
        (wayOfCases info false first clauses index)
  | [], _, _, _ => .refl _ _
  | ⟨_, _, _, body⟩ :: rest, index, legality, distinct => by
    simp only [legalCases, Bool.and_eq_true] at legality
    simp only [labelsOfCases, List.nodup_append] at distinct ⊢
    have here := (crossAll_agree (first + 1) body legality.1 distinct.1).stmts
    have later index := wayOfCases_agree (first + 1 + (Traversal.clausesOfStmts body).length) rest index
      legality.2 distinct.2.1
    cases index with
    | zero => exact .clause first (here.mono (by simp)) ((later 0).mono (by simp))
    | succ index => exact (later index).mono (by simp)
termination_by structural clauses => clauses

theorem wayOfComms_agree {visible : List String} (first : Nat) : ∀ (clauses : List CommClause),
    legalComms info visible clauses = true → (labelsOfComms clauses).Nodup →
      Agree (labelsOfComms clauses) (wayOfComms info true first clauses) (wayOfComms info false first clauses)
  | [], _, _ => .refl _ _
  | ⟨comm, body⟩ :: rest, legality, distinct => by
    simp only [legalComms, Bool.and_eq_true] at legality
    simp only [labelsOfComms, List.nodup_append] at distinct ⊢
    have bodyAgree := (crossAll_agree first body legality.1.2 distinct.1).stmts
    have here : Agree _ (andThen (wayOf info true "" first comm) _) (andThen (wayOf info false "" first comm) _) :=
      (agree_simple legality.1.1).andThen bodyAgree
    have later := wayOfComms_agree (first + (Traversal.clausesOfStmts body).length) rest legality.2 distinct.2.1
    constructor
    · intro before cursor after passed
      rcases passed with way | way
      · rcases here.forward_or_back way with found | ⟨label, member, store, back⟩
        · exact .inl (.inl found)
        · exact .inr ⟨label, by simp [member], store, .inl back⟩
      · rcases later.forward_or_back way with found | ⟨label, member, store, back⟩
        · exact .inl (.inr found)
        · exact .inr ⟨label, by simp [member], store, .inr back⟩
    · intro before cursor after passed away
      rcases passed with way | way
      · exact .inl (here.free_of_forward way (Cursor.seeks_mono (by simp) away))
      · exact .inr (later.free_of_forward way (Cursor.seeks_mono (by simp) away))
termination_by structural clauses => clauses

end

end Paths

open Paths Source

/-- A path that is not a forward path begins with one that leads to a `goto` back. -/
theorem Path.forward_or_back {info : Info} {body : List Stmt} (formed : WellFormed info body)
    {cursor : Cursor} {store : Store} (path : Path info body cursor store) :
    ForwardPath info body cursor store ∨
      ∃ label ∈ allLabels body, ∃ store, ForwardPath info body (.leaving (.goto (some label))) store :=
  (crossAll_agree 0 body formed.legal formed.labels).stmts.forward_or_back path

/-- Forward paths are paths, except those that stand before a `goto` back. -/
theorem ForwardPath.path {info : Info} {body : List Stmt} (formed : WellFormed info body)
    {cursor : Cursor} {store : Store} (path : ForwardPath info body cursor store)
    (away : cursor.seeks (allLabels body) = false) : Path info body cursor store :=
  (crossAll_agree 0 body formed.legal formed.labels).stmts.free_of_forward path away

end ClauseReach
