import ClauseReach.Checker.Assigned
import ClauseReach.Proofs.ElementSets

/-!
The order of flow states. A state is below another one if merging it in adds nothing there. For assigned objects this
means that the lower state is unreachable, or that it has more objects assigned; where two ways meet, merging finds
the lowest state above both.
-/

namespace ClauseReach

open StateAlgebra

variable {σ : Type}

/-- A way taken twice is one way. -/
class IdempotentMerge (σ : Type) [StateAlgebra σ] : Prop extends LawfulMerge σ, TransparentClone σ where
  merge_self (state : σ) : merge state state = state

/-- The state adds nothing to the other one. -/
def Below [StateAlgebra σ] (state other : σ) : Prop := merge state other = other

instance [StateAlgebra σ] [DecidableEq σ] (state other : σ) : Decidable (Below state other) :=
  inferInstanceAs (Decidable (merge state other = other))

namespace Below

variable [StateAlgebra σ] [IdempotentMerge σ]

theorem refl (state : σ) : Below state state := IdempotentMerge.merge_self state

theorem of_unreachable (state : σ) : Below unreachable state := LawfulMerge.unreachable_merge state

theorem clone_clone {state other : σ} (near : Below state other) : Below (clone state) (clone other) := by
  rw [TransparentClone.clone_eq, TransparentClone.clone_eq]
  exact near

theorem merge_merge {first second more other : σ} (near : Below first second) (further : Below more other) :
    Below (merge first more) (merge second other) := by
  unfold Below
  calc merge (merge first more) (merge second other)
      = merge (merge first second) (merge more other) := by
        rw [LawfulMerge.merge_assoc, LawfulMerge.merge_assoc, ← LawfulMerge.merge_assoc more,
          LawfulMerge.merge_comm more second, LawfulMerge.merge_assoc second]
    _ = merge second other := by rw [near, further]

theorem merge_right {state other : σ} (near : Below state other) (more : σ) :
    Below state (merge other more) := by
  have wider := near.merge_merge (of_unreachable more)
  rwa [LawfulMerge.merge_unreachable] at wider

theorem merge_least {first second bound : σ} (near : Below first bound) (further : Below second bound) :
    Below (merge first second) bound := by
  have both := near.merge_merge further
  rwa [IdempotentMerge.merge_self] at both

theorem trans {first second third : σ} (near : Below first second) (further : Below second third) :
    Below first third := by
  unfold Below
  rw [← further, ← LawfulMerge.merge_assoc, near]

theorem antisymm {state other : σ} (near : Below state other) (back : Below other state) : state = other := by
  rw [← near, LawfulMerge.merge_comm, back]

end Below

/-- The laws of merging, where states count by what `same` tells of them: ways may meet in any order and more than
once, and they meet in the lowest state above them all. -/
structure MergeLaws [StateAlgebra σ] (same under : σ → σ → Prop) : Prop where
  equivalence : Equivalence same
  congr {first second more other : σ} : same first second → same more other →
    same (merge first more) (merge second other)
  comm (left right : σ) : same (merge left right) (merge right left)
  assoc (first second third : σ) : same (merge (merge first second) third) (merge first (merge second third))
  idem (state : σ) : same (merge state state) state
  unreachable_merge (state : σ) : same (merge unreachable state) state
  merge_unreachable (state : σ) : same (merge state unreachable) state
  under_of_same {left right : σ} : same left right → under left right
  under_trans {first second third : σ} : under first second → under second third → under first third
  under_antisymm {left right : σ} : under left right → under right left → same left right
  least (state : σ) : under unreachable state
  left_under (left right : σ) : under left (merge left right)
  right_under (left right : σ) : under right (merge left right)
  lowest {left right bound : σ} : under left bound → under right bound → under (merge left right) bound

/-- The laws hold up to equality wherever a way taken twice is one way. -/
theorem mergeLaws_of_idempotent [StateAlgebra σ] [IdempotentMerge σ] :
    MergeLaws (fun left right : σ => left = right) Below where
  equivalence := ⟨fun _ => rfl, Eq.symm, Eq.trans⟩
  congr := fun near further => near ▸ further ▸ rfl
  comm := LawfulMerge.merge_comm
  assoc := LawfulMerge.merge_assoc
  idem := IdempotentMerge.merge_self
  unreachable_merge := LawfulMerge.unreachable_merge
  merge_unreachable := LawfulMerge.merge_unreachable
  under_of_same := fun same => same ▸ Below.refl _
  under_trans := Below.trans
  under_antisymm := Below.antisymm
  least := Below.of_unreachable
  left_under left right := (Below.refl left).merge_right right
  right_under left right := LawfulMerge.merge_comm right left ▸ (Below.refl right).merge_right left
  lowest := Below.merge_least

theorem mergeReached_self {β : Type} {join : β → β → β} (idempotent : ∀ state, join state state = state)
    (state : Option β) : mergeReached join state state = state := by
  cases state with
  | none => rfl
  | some state => exact congrArg some (idempotent state)

/-- What is done to every fact set alike may be done before two of them are merged. -/
theorem mergeReached_map {β : Type} {join : β → β → β} {change : β → β}
    (distributes : ∀ left right, change (join left right) = join (change left) (change right))
    (left right : Option β) :
    (mergeReached join left right).map change = mergeReached join (left.map change) (right.map change) := by
  cases left with
  | none => cases right <;> rfl
  | some left =>
    cases right with
    | none => rfl
    | some right => exact congrArg some (distributes left right)

section Facts

variable {α : Type} [LT α] [LE α] [DecidableLT α] [Std.IsLinearOrder α] [Std.LawfulOrderLT α]

instance : IdempotentMerge (May α) where
  merge_self state := congrArg May.mk (mergeReached_self (fun _ => FactSet.ext fun _ => by simp) state.facts)

instance [DecidableEq α] : IdempotentMerge (Must α) where
  merge_self state := congrArg Must.mk (mergeReached_self (fun _ => FactSet.ext fun _ => by simp) state.facts)

end Facts

namespace Checker

open Source

theorem isReachable_assign (state : Assigned) (objects : List (Option ObjectId)) :
    (state.assign objects).isReachable = state.isReachable := by
  simp [Assigned.assign, Assigned.isReachable]

theorem isReachable_merge (left right : Assigned) :
    (merge left right).isReachable = (left.isReachable || right.isReachable) := by
  obtain ⟨_ | leftFacts⟩ := left
  · exact congrArg Assigned.isReachable (LawfulMerge.unreachable_merge right)
  · cases right with
    | mk facts => cases facts <;> rfl

namespace Assigned

/-- What it takes for another way into a point to change nothing: where the other way is open, the point is
reached already, and nothing is assigned there but what is assigned on the other way too. -/
theorem merge_eq_left {floor state : Assigned} : merge floor state = floor ↔
    ∀ facts, state.facts = some facts → ∃ least, floor.facts = some least ∧ ∀ object ∈ least, object ∈ facts := by
  obtain ⟨_ | least⟩ := floor <;> obtain ⟨_ | facts⟩ := state
  · simp [merge, mergeReached]
  · simp [merge, mergeReached]
  · simp [merge, mergeReached]
  · have same : least.inter facts = least ↔ ∀ object ∈ least, object ∈ facts := by
      constructor
      · intro same object member
        rw [← same] at member
        exact (FactSet.mem_inter.mp member).2
      · intro among
        exact FactSet.ext fun object => by simpa using among object
    simpa [merge, mergeReached] using same

theorem objects_of_merge_eq {floor state : Assigned} (fits : merge floor state = floor)
    (reached : state.isReachable = true) :
    floor.isReachable = true ∧ ∀ object ∈ floor.objects, object ∈ state.objects := by
  obtain ⟨facts, known⟩ := Option.isSome_iff_exists.mp reached
  obtain ⟨least, floored, among⟩ := merge_eq_left.mp fits facts known
  simp only [isReachable, objects, known, floored]
  exact ⟨rfl, among⟩

/-- Nothing that is assigned is lost. -/
theorem merge_assign {floor state : Assigned} (fits : merge floor state = floor) (objects : List (Option ObjectId)) :
    merge floor (state.assign objects) = floor := by
  rw [merge_eq_left] at fits ⊢
  intro facts assigned
  obtain ⟨before, reached, rfl⟩ := Option.map_eq_some_iff.mp assigned
  obtain ⟨least, floored, among⟩ := fits before reached
  exact ⟨least, floored, fun object member => FactSet.mem_insertAll.mpr (.inr (among object member))⟩

theorem contains_iff {state : Assigned} {object : ObjectId} :
    state.contains object = true ↔ object ∈ state.objects := List.contains_iff_mem

theorem nodup_objects (state : Assigned) : state.objects.Nodup := by
  obtain ⟨_ | facts⟩ := state
  · exact List.nodup_nil
  · exact facts.ascending.imp Nat.ne_of_lt

/-- A state has no more to it than whether it is reached and what is assigned there. -/
theorem ext {left right : Assigned} (reached : left.isReachable = right.isReachable)
    (assigned : ∀ object, object ∈ left.objects ↔ object ∈ right.objects) : left = right := by
  obtain ⟨_ | leftFacts⟩ := left <;> obtain ⟨_ | rightFacts⟩ := right
  · rfl
  · cases reached
  · cases reached
  · exact congrArg (fun facts => Must.mk (some facts)) (FactSet.ext assigned)

/-- The objects may be listed in any order. -/
theorem agree_of_perm {left right : Assigned} (reachedLeft : left.isReachable = true)
    (reachedRight : right.isReachable = true) {first second : List ObjectId} (listedLeft : first.Perm left.objects)
    (listedRight : second.Perm right.objects) : Elements.agree first second = left.equal right := by
  have distinct : first.Nodup := listedLeft.nodup_iff.mpr left.nodup_objects
  rw [equal, reachedLeft, reachedRight, Bool.and_self, if_pos rfl, Bool.eq_iff_iff, Elements.agree_iff_perm distinct,
    Elements.agree_iff_perm left.nodup_objects, listedLeft.congr_left, listedRight.congr_right]

theorem objects_eq_nil {state : Assigned} (unreached : state.isReachable = false) : state.objects = [] := by
  obtain ⟨_ | facts⟩ := state
  · rfl
  · cases unreached

theorem equal_iff_eq {left right : Assigned} : left.equal right = true ↔ left = right := by
  constructor
  · intro same
    unfold equal at same
    split at same
    · rename_i reached
      rw [Bool.and_eq_true] at reached
      have permuted := (Elements.agree_iff_perm left.nodup_objects).mp same
      exact ext (reached.1.trans reached.2.symm) fun object => permuted.mem_iff
    · rename_i unreached
      have reached : left.isReachable = right.isReachable := eq_of_beq same
      rw [← reached, Bool.and_self, Bool.not_eq_true] at unreached
      refine ext reached fun object => ?_
      rw [objects_eq_nil unreached, objects_eq_nil (reached ▸ unreached)]
  · intro same
    subst same
    simp [equal, Elements.agree, Elements.included]

theorem equal_self (state : Assigned) : state.equal state = true := equal_iff_eq.mpr rfl

theorem equal_iff {left right : Assigned} : left.equal right = true ↔ left.isReachable = right.isReachable ∧
    (left.isReachable = true → ∀ object, left.contains object = right.contains object) := by
  rw [equal_iff_eq]
  constructor
  · intro same
    subst same
    exact ⟨rfl, fun _ _ => rfl⟩
  · intro given
    obtain ⟨reached, assigned⟩ := given
    refine ext reached fun object => ?_
    cases live : left.isReachable with
    | false => rw [objects_eq_nil live, objects_eq_nil (reached ▸ live)]
    | true => rw [← contains_iff, ← contains_iff, assigned live]

/-- The order by what is assigned: lowest is what is not reached, and elsewhere the more is assigned, the lower. -/
def Under (left right : Assigned) : Prop :=
  left.isReachable = true → right.isReachable = true ∧
    ∀ object, right.contains object = true → left.contains object = true

theorem under_iff_below {left right : Assigned} : left.Under right ↔ Below left right := by
  rw [Below, LawfulMerge.merge_comm]
  constructor
  · intro under
    refine merge_eq_left.mpr fun facts known => ?_
    obtain ⟨reached, assigned⟩ := under (by rw [isReachable, known]; rfl)
    obtain ⟨least, floored⟩ := Option.isSome_iff_exists.mp reached
    refine ⟨least, floored, fun object member => ?_⟩
    have among := assigned object
    simp only [contains_iff, objects, known, floored, FactSet.mem_toList] at among
    exact among member
  · intro fits reached
    obtain ⟨live, among⟩ := objects_of_merge_eq fits reached
    refine ⟨live, fun object member => ?_⟩
    exact contains_iff.mpr (among object (contains_iff.mp member))

theorem contains_assign {state : Assigned} {objects : List (Option ObjectId)} {object : ObjectId} :
    (state.assign objects).contains object = true ↔
      state.isReachable = true ∧ (some object ∈ objects ∨ state.contains object = true) := by
  obtain ⟨_ | facts⟩ := state
  · simp [contains, Assigned.objects, assign, isReachable]
  · simp [contains, Assigned.objects, assign, isReachable, FactSet.mem_toList]

theorem assign_merge (left right : Assigned) (objects : List (Option ObjectId)) :
    (merge left right).assign objects = merge (left.assign objects) (right.assign objects) := by
  refine congrArg Must.mk (mergeReached_map (fun first second => FactSet.ext fun object => ?_) left.facts right.facts)
  simp only [FactSet.mem_insertAll, FactSet.mem_inter]
  exact or_and_left

/-- States are equal if they tell the same, in whatever order their objects are listed, and up to this equality merging
is lawful. Objects assigned where ways have met might as well be assigned on each of them. -/
theorem merge_lawful :
    (∀ left right : Assigned, left.equal right = true ↔ left.isReachable = right.isReachable ∧
      (left.isReachable = true → ∀ object, left.contains object = right.contains object)) ∧
    (∀ left right : Assigned, left.isReachable = true → right.isReachable = true →
      ∀ first second : List ObjectId, first.Perm left.objects → second.Perm right.objects →
        Elements.agree first second = left.equal right) ∧
    MergeLaws (fun left right : Assigned => left.equal right = true) Under ∧
    (∀ (state : Assigned) (objects : List (Option ObjectId)),
      (state.assign objects).isReachable = state.isReachable ∧
      ∀ object, (state.assign objects).contains object = true ↔
        state.isReachable = true ∧ (some object ∈ objects ∨ state.contains object = true)) ∧
    ∀ (left right : Assigned) (objects : List (Option ObjectId)),
      ((merge left right).assign objects).equal (merge (left.assign objects) (right.assign objects)) = true := by
  have same : (fun left right : Assigned => left.equal right = true) = fun left right => left = right := by
    funext left right
    exact propext equal_iff_eq
  have order : Under = Below := by
    funext left right
    exact propext under_iff_below
  refine ⟨fun left right => equal_iff, ?_, ?_, ?_, ?_⟩
  · intro left right reachedLeft reachedRight first second listedLeft listedRight
    exact agree_of_perm reachedLeft reachedRight listedLeft listedRight
  · rw [same, order]
    exact mergeLaws_of_idempotent
  · intro state objects
    exact ⟨isReachable_assign state objects, fun object => contains_assign⟩
  · intro left right objects
    rw [equal_iff_eq]
    exact assign_merge left right objects

/-- Objects assigned in another order, and one of them twice: the states are equal however the objects are listed, and
so is what is merged from them and a third one. -/
theorem reordered_equal :
    let first := entry.assign [some 2, none, some 1]
    let second := entry.assign [some 1, some 2, some 1]
    let third := entry.assign [some 3, some 2]
    Elements.agree [2, 1] [1, 2] = first.equal second ∧ first.equal second = true ∧
      (merge first third).equal (merge second third) = true := by
  intro first second third
  have same : first.equal second = true := by decide
  obtain ⟨_, listed, laws, _⟩ := merge_lawful
  refine ⟨listed first second rfl rfl [2, 1] [1, 2] ?_ ?_, same, laws.congr same (equal_self third)⟩
  · decide
  · decide

end Assigned

end Checker

end ClauseReach
