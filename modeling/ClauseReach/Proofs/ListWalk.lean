import ClauseReach.Proofs.Cover

/-!
Walks of statement lists. A `goto` may lead over some statements of a list to a label further on; the walk
meets the label later and takes up the paths that wait for it. So a list carries along more than one kind of
path, and a statement in it takes up those that seek one of its labels.
-/

namespace ClauseReach.Checker

open Source StateAlgebra Paths

variable {first : Nat} {clauses later : List CaseClause} {attached : String} {act next : CheckM Unit}
  {way : Way} {labels inner innerRest : List String} {pass : Crossing}

/-- The same for a statement with labels in front: the paths under way to them come in as well. -/
def Takes (act : CheckM Unit) (attached : String) (labels inner : List String) (first : Nat)
    (clauses : List CaseClause) (way : Way) : Prop :=
  ∀ view : View, view.Sound → view.attached = attached → Closed inner view.waiting →
    Runs act view fun _ after =>
      after.here = outcome (view.receive (labels.map namedLabel)).here way .onward ∧
        Follows view (view.receive (labels.map namedLabel)).waiting first clauses
          (outcome (view.receive (labels.map namedLabel)).here way) after

theorem takes_nil : Takes act attached [] inner first clauses way ↔ Covers act attached inner first clauses way := by
  simp only [Takes, Covers, List.map_nil, View.receive_nil]

theorem Takes.labeled {label : String} {named : Bool}
    (takes : Takes act (if named then label else "") labels inner first clauses way) :
    Takes (labeled label named act) "" (label :: labels) inner first clauses way := by
  intro view sound detached closed
  -- The label is resolved first, so the rest begins with what has arrived there.
  have entered : view.receive ((label :: labels).map namedLabel) =
      (view.receive [namedLabel label]).receive (labels.map namedLabel) := by
    rw [View.receive_append]
    rfl
  rw [entered]
  unfold Checker.labeled
  refine .bind (runs_resolve fun _ => ?_)
  have soundHere := sound.receive [namedLabel label]
  have closedHere := closed.without [namedLabel label]
  cases named with
  | false =>
    refine (takes _ soundHere detached closedHere).mono ?_
    intro _ after given
    obtain ⟨here, follows⟩ := given
    exact ⟨here, follows.rebase rfl rfl rfl⟩
  | true =>
    refine .bind (runs_attach ?_)
    have ran := takes { view.receive [namedLabel label] with attached := label }
      ⟨soundHere.fresh, soundHere.frames⟩ rfl closedHere
    refine ran.mono ?_
    intro _ after given
    obtain ⟨here, follows⟩ := given
    exact ⟨here, follows.rebase rfl rfl rfl⟩

/-- The paths that come to a statement list with these labels: those at the current point, and those under
way to a label. -/
def entering (stores : Set Store) (waiting : Waiting) (labels : List String) : Cursor → Set Store :=
  fun cursor => {store | (cursor = .onward ∧ store ∈ stores) ∨
    ∃ label ∈ labels, cursor = .leaving (.goto (some label)) ∧ store ∈ waiting (namedLabel label)}

def crossed (pass : Crossing) (coming : Cursor → Set Store) : Cursor → Set Store := fun stand =>
  {after | ∃ cursor, ∃ before ∈ coming cursor, pass cursor before stand after}

/-- The walk of a statement list carries along the paths that wait for its labels. -/
def Carries (act : CheckM Unit) (labels inner : List String) (first : Nat) (clauses : List CaseClause)
    (pass : Crossing) : Prop :=
  ∀ view : View, view.Sound → view.attached = "" → Closed inner view.waiting →
    Runs act view fun _ after =>
      after.here = crossed pass (entering view.here view.waiting labels) .onward ∧
        Follows view (without (labels.map namedLabel) view.waiting) first clauses
          (crossed pass (entering view.here view.waiting labels)) after

theorem carries_nil :
    Carries (pure ()) [] [] first [] (fun cursor before stand after => stand = cursor ∧ after = before) := by
  intro view _ detached _
  have came (stand : Cursor) :
      crossed (fun cursor before stand after => stand = cursor ∧ after = before)
        (entering view.here view.waiting []) stand = {store | stand = .onward ∧ store ∈ view.here} := by
    ext store
    simp [crossed, entering]
  have kept : without [] view.waiting = view.waiting := by
    funext label
    simp [without]
  refine .pure ⟨by simp [came], ?_⟩
  rw [List.map_nil, kept]
  exact .stay view.here detached fun cursor elsewhere => by simp [came, elsewhere]

theorem Carries.block (carries : Carries act labels inner first clauses pass) :
    Covers act "" (labels ++ inner) first clauses (Paths.block false labels pass) := by
  intro view sound detached closed
  obtain ⟨closedOwn, closedInner⟩ := closed_append.mp closed
  have kept : without (labels.map namedLabel) view.waiting = view.waiting := by
    funext label
    unfold without
    split
    next member =>
      obtain ⟨name, own, rfl⟩ := List.mem_map.mp member
      exact (closedOwn name own).symm
    next => rfl
  have came : crossed pass (entering view.here view.waiting labels) =
      outcome view.here (Paths.block false labels pass) := by
    funext stand
    ext after
    constructor
    · intro given
      obtain ⟨cursor, before, coming, passed⟩ := given
      rcases coming with ⟨rfl, member⟩ | ⟨label, own, rfl, member⟩
      · exact ⟨before, member, .last passed (by simp)⟩
      · rw [closedOwn label own] at member
        cases member
    · intro given
      obtain ⟨before, member, crossed⟩ := given
      cases crossed with
      | last passed gone => exact ⟨.onward, before, .inl ⟨rfl, member⟩, passed⟩
      | again allowed => cases allowed
  refine (carries view sound detached closedInner).mono ?_
  intro _ after ends
  rwa [kept, came] at ends

/-! A statement, then the rest of the list. -/

section Sequence

variable {front : List String} {stores : Set Store} {waiting : Waiting} {came : Cursor → Set Store}

def passingBy (front labels : List String) (waiting : Waiting) : Cursor → Set Store := fun cursor =>
  {store | ∃ label ∈ labels, label ∉ front ∧ cursor = .leaving (.goto (some label)) ∧
    store ∈ waiting (namedLabel label)}

theorem crossed_front :
    crossed (crossing front way) (entering stores waiting (front ++ labels)) =
      fun middle => outcome (stores ∪ arriving waiting (front.map namedLabel)) way middle ∪
        passingBy front labels waiting middle := by
  funext middle
  ext store
  constructor
  · intro given
    obtain ⟨cursor, before, coming, crosses⟩ := given
    by_cases enters : cursor.enters front = true
    · rw [crossing, if_pos enters] at crosses
      refine .inl ⟨before, ?_, crosses⟩
      rcases coming with ⟨_, member⟩ | ⟨label, _, rfl, member⟩
      · exact .inl member
      · have inFront : label ∈ front := by simpa [Cursor.enters, Cursor.seeks] using enters
        exact .inr ⟨_, List.mem_map_of_mem inFront, member⟩
    · rw [crossing, if_neg enters] at crosses
      obtain ⟨rfl, rfl⟩ := crosses
      rcases coming with ⟨rfl, _⟩ | ⟨label, member, rfl, waits⟩
      · exact absurd rfl enters
      · have notFront : label ∉ front := by simpa [Cursor.enters, Cursor.seeks] using enters
        exact .inr ⟨label, by simpa [notFront] using member, notFront, rfl, waits⟩
  · intro found
    rcases found with ⟨before, origin, crosses⟩ | ⟨label, member, notFront, rfl, waits⟩
    · rcases origin with here | ⟨_, mapped, waits⟩
      · exact ⟨.onward, before, .inl ⟨rfl, here⟩, crosses⟩
      · obtain ⟨label, inFront, rfl⟩ := List.mem_map.mp mapped
        refine ⟨_, before, .inr ⟨label, by simp [inFront], rfl, waits⟩, ?_⟩
        rwa [crossing, if_pos (by simpa [Cursor.enters, Cursor.seeks] using inFront)]
    · refine ⟨_, store, .inr ⟨label, by simp [member], rfl, waits⟩, ?_⟩
      rw [crossing, if_neg (by simpa [Cursor.enters, Cursor.seeks] using notFront)]
      exact ⟨rfl, rfl⟩

theorem entering_spread {view : View} (sound : view.Sound) :
    entering (came .onward) (spread view.frames (without (front.map namedLabel) waiting) came) labels =
      fun cursor => {store | cursor.enters labels = true ∧ store ∈ came cursor} ∪
        passingBy front labels waiting cursor := by
  funext cursor
  ext store
  have distinct {label name : String} : namedLabel label = namedLabel name ↔ label = name := by simp [namedLabel]
  constructor
  · intro coming
    rcases coming with ⟨rfl, member⟩ | ⟨label, own, rfl, waits | ⟨jump, found, left⟩⟩
    · exact .inl ⟨rfl, member⟩
    · unfold without at waits
      split at waits
      · cases waits
      next notFront => exact .inr ⟨label, own, by simpa [distinct] using notFront, rfl, waits⟩
    · rw [sound.target_named found] at left
      exact .inl ⟨by simpa [Cursor.enters, Cursor.seeks] using own, left⟩
  · intro coming
    rcases coming with ⟨enters, member⟩ | ⟨label, own, notFront, rfl, waits⟩
    · cases cursor with
      | onward => exact .inl ⟨rfl, member⟩
      | stopped place => cases enters
      | leaving jump =>
        obtain ⟨label, own, same⟩ := Cursor.exists_of_seeks enters
        rw [same] at member ⊢
        exact .inr ⟨label, own, rfl, .inr ⟨_, rfl, member⟩⟩
    · refine .inr ⟨label, own, rfl, .inl ?_⟩
      rw [without, if_neg (by simpa [distinct] using notFront)]
      exact waits

def inTurn (first second : Crossing) : Crossing := fun cursor before stand after =>
  ∃ middle store, first cursor before middle store ∧ second middle store stand after

/-- Behind a statement, the rest of the list takes up what goes on and what seeks its labels; all else passes
by. -/
theorem crossed_inTurn {view : View} (sound : view.Sound) (came : Cursor → Set Store)
    (origin : came = outcome (view.receive (front.map namedLabel)).here way)
    (passes : ∀ {cursor store stand after}, cursor.enters labels = false →
      (pass cursor store stand after ↔ stand = cursor ∧ after = store)) (stand : Cursor) :
    crossed (inTurn (crossing front way) pass) (entering view.here view.waiting (front ++ labels)) stand =
      {store | stand.enters labels = false ∧ store ∈ came stand} ∪
        crossed pass (entering (came .onward)
          (spread view.frames (view.receive (front.map namedLabel)).waiting came) labels) stand := by
  have behind : crossed (inTurn (crossing front way) pass) (entering view.here view.waiting (front ++ labels)) =
      crossed pass (crossed (crossing front way) (entering view.here view.waiting (front ++ labels))) := by
    funext stand
    ext after
    simp only [crossed, inTurn, Set.mem_ofPred_eq]
    grind
  have split : crossed (crossing front way) (entering view.here view.waiting (front ++ labels)) =
      fun middle => came middle ∪ passingBy front labels view.waiting middle := origin ▸ crossed_front
  rw [behind, split, View.receive, entering_spread sound]
  ext after
  constructor
  · intro given
    obtain ⟨middle, store, coming, passed⟩ := given
    rcases coming with came | byStatement
    · by_cases enters : middle.enters labels = true
      · exact .inr ⟨middle, store, .inl ⟨enters, came⟩, passed⟩
      · have aside : middle.enters labels = false := by simpa using enters
        obtain ⟨rfl, rfl⟩ := (passes aside).mp passed
        exact .inl ⟨aside, came⟩
    · exact .inr ⟨middle, store, .inr byStatement, passed⟩
  · intro found
    rcases found with ⟨aside, came⟩ | ⟨middle, store, ⟨_, came⟩ | byStatement, passed⟩
    · exact ⟨stand, after, .inl came, (passes aside).mpr ⟨rfl, rfl⟩⟩
    · exact ⟨middle, store, .inl came, passed⟩
    · exact ⟨middle, store, .inr byStatement, passed⟩

theorem without_without (first second : List Label) (waiting : Waiting) :
    without second (without first waiting) = without (first ++ second) waiting := by
  funext label
  simp only [without, List.mem_append]
  grind

theorem spread_inTurn {view : View} (sound : view.Sound) {rest whole : Cursor → Set Store}
    (split : ∀ stand, whole stand = {store | stand.enters labels = false ∧ store ∈ came stand} ∪ rest stand) :
    spread view.frames (without (labels.map namedLabel) (spread view.frames waiting came)) rest =
      spread view.frames (without (labels.map namedLabel) waiting) whole := by
  funext label
  ext store
  by_cases own : label ∈ labels.map namedLabel
  · obtain ⟨name, member, rfl⟩ := List.mem_map.mp own
    have enters {jump : Jump} (found : target view.frames jump = some (namedLabel name)) :
        (Cursor.leaving jump).enters labels = true := by
      rw [sound.target_named found]
      simpa [Cursor.enters, Cursor.seeks] using member
    simp only [spread, without, if_pos own, split, Set.mem_union, Set.mem_ofPred_eq, Set.mem_empty_iff_false]
    grind
  · have aside {jump : Jump} (found : target view.frames jump = some label) :
        (Cursor.leaving jump).enters labels = false := by
      by_contra enters
      obtain ⟨name, member, same⟩ := Cursor.exists_of_seeks (by simpa [Cursor.enters] using enters)
      obtain rfl : jump = .goto (some name) := by simpa using same
      cases found
      exact own (List.mem_map_of_mem member)
    simp only [spread, without, if_neg own, split, Set.mem_union, Set.mem_ofPred_eq]
    grind

theorem Carries.cons (takes : Takes act "" front inner first clauses way)
    (carries : Carries next labels innerRest (first + clauses.length) later pass)
    (silent : Silent innerRest way)
    (passes : ∀ {cursor store stand after}, cursor.enters labels = false →
      (pass cursor store stand after ↔ stand = cursor ∧ after = store)) :
    Carries (act >>= fun _ => next) (front ++ labels) (inner ++ innerRest) first (clauses ++ later)
      (inTurn (crossing front way) pass) := by
  intro view sound detached closed
  obtain ⟨closedHere, closedRest⟩ := closed_append.mp closed
  refine .bind ((takes view sound detached closedHere).mono ?_)
  intro _ middle given
  obtain ⟨here, follows⟩ := given
  have soundMiddle := sound.follows (sound.receive _).fresh follows
  refine (carries middle soundMiddle follows.attached ?_).mono ?_
  · exact (closedRest.without _).follows sound silent follows
  intro _ after given
  obtain ⟨hereAfter, further⟩ := given
  have split := crossed_inTurn sound (outcome (view.receive (front.map namedLabel)).here way) rfl passes
  rw [here, follows.waiting] at hereAfter further
  refine ⟨?_, further.frames.trans follows.frames, further.attached, follows.serial.trans further.serial, ?_, ?_⟩
  · rw [hereAfter, split]
    simp [Cursor.enters]
  · rw [further.waiting, follows.frames, spread_inTurn sound split, View.receive, without_without,
      List.map_append]
  · obtain ⟨met, early, recorded⟩ := follows.arrivals
    obtain ⟨next, late, recordedNext⟩ := further.arrivals
    refine ⟨met ++ next, by rw [late, early, List.append_assoc], ?_⟩
    refine (recorded.append recordedNext).congr fun place => ?_
    rw [split]
    simp [Cursor.enters, Cursor.seeks]

end Sequence

end ClauseReach.Checker
