/-!
Finite sets over a linear order, held as strictly ascending lists, so that sets with the same
members are equal.
-/

namespace ClauseReach

structure FactSet (α : Type) [LT α] where
  toList : List α
  ascending : toList.Pairwise (· < ·)

namespace FactSet

variable {α : Type} [LT α]

instance : Membership α (FactSet α) := ⟨fun set fact => fact ∈ set.toList⟩

theorem mem_toList {set : FactSet α} {fact : α} : fact ∈ set.toList ↔ fact ∈ set := Iff.rfl

instance [DecidableEq α] (fact : α) (set : FactSet α) : Decidable (fact ∈ set) :=
  inferInstanceAs (Decidable (fact ∈ set.toList))

instance [DecidableEq α] : DecidableEq (FactSet α) := fun left right =>
  decidable_of_iff (left.toList = right.toList)
    ⟨fun same => by cases left; cases right; cases same; rfl, fun same => same ▸ rfl⟩

def empty : FactSet α := ⟨[], .nil⟩

def contains [DecidableEq α] (set : FactSet α) (fact : α) : Bool := set.toList.contains fact

def filter (keep : α → Bool) (set : FactSet α) : FactSet α :=
  ⟨set.toList.filter keep, set.ascending.filter keep⟩

def inter [DecidableEq α] (left right : FactSet α) : FactSet α := left.filter right.contains

/-- Puts a fact into an ascending list at its place, unless it is there already. -/
def place [DecidableLT α] (fact : α) : List α → List α
  | [] => [fact]
  | first :: rest =>
    if fact < first then fact :: first :: rest
    else if first < fact then first :: place fact rest
    else first :: rest

section Order

variable [LE α] [DecidableLT α] [Std.IsLinearOrder α] [Std.LawfulOrderLT α]

theorem mem_place {fact other : α} {list : List α} :
    other ∈ place fact list ↔ other = fact ∨ other ∈ list := by
  induction list with
  | nil => simp [place]
  | cons first rest ih =>
    unfold place
    split
    · simp
    · split
      · simp only [List.mem_cons, ih]
        grind
      · rename_i notBelow notAbove
        have same : first = fact := Std.le_antisymm (Std.not_lt.mp notBelow) (Std.not_lt.mp notAbove)
        subst same
        simp

theorem place_ascending (fact : α) {list : List α} (ascending : list.Pairwise (· < ·)) :
    (place fact list).Pairwise (· < ·) := by
  induction list with
  | nil => simp [place]
  | cons first rest ih =>
    obtain ⟨least, tail⟩ := List.pairwise_cons.mp ascending
    unfold place
    split
    · rename_i below
      refine List.pairwise_cons.mpr ⟨fun other member => ?_, ascending⟩
      rcases List.mem_cons.mp member with rfl | later
      · exact below
      · exact Std.lt_trans below (least _ later)
    · split
      · rename_i above
        refine List.pairwise_cons.mpr ⟨fun other member => ?_, ih tail⟩
        rcases mem_place.mp member with rfl | later
        · exact above
        · exact least _ later
      · exact ascending

def insert (set : FactSet α) (fact : α) : FactSet α :=
  ⟨place fact set.toList, place_ascending fact set.ascending⟩

def insertAll (set : FactSet α) (facts : List α) : FactSet α := facts.foldl insert set

def ofList (facts : List α) : FactSet α := empty.insertAll facts

def union (left right : FactSet α) : FactSet α := left.insertAll right.toList

@[simp] theorem mem_insert {set : FactSet α} {fact other : α} :
    other ∈ set.insert fact ↔ other = fact ∨ other ∈ set := mem_place

@[simp] theorem mem_insertAll {set : FactSet α} {facts : List α} {other : α} :
    other ∈ set.insertAll facts ↔ other ∈ facts ∨ other ∈ set := by
  induction facts generalizing set with
  | nil => simp [insertAll]
  | cons fact rest ih =>
    have step : other ∈ (set.insert fact).insertAll rest ↔ _ := ih
    simp only [insertAll, List.foldl_cons] at step ⊢
    rw [step]
    simp only [mem_insert, List.mem_cons]
    grind

@[simp] theorem mem_union {left right : FactSet α} {other : α} :
    other ∈ left.union right ↔ other ∈ left ∨ other ∈ right := by
  simp only [union, mem_insertAll, mem_toList]
  exact Or.comm

omit [DecidableLT α] in
theorem ascending_ext {left right : List α} (ascendingLeft : left.Pairwise (· < ·))
    (ascendingRight : right.Pairwise (· < ·)) (same : ∀ fact, fact ∈ left ↔ fact ∈ right) :
    left = right := by
  induction left generalizing right with
  | nil =>
    cases right with
    | nil => rfl
    | cons first rest => exact absurd ((same first).mpr (by simp)) (by simp)
  | cons first rest ih =>
    cases right with
    | nil => exact absurd ((same first).mp (by simp)) (by simp)
    | cons other others =>
      obtain ⟨leastLeft, tailLeft⟩ := List.pairwise_cons.mp ascendingLeft
      obtain ⟨leastRight, tailRight⟩ := List.pairwise_cons.mp ascendingRight
      have heads : first = other := by
        rcases List.mem_cons.mp ((same first).mp (by simp)) with equal | inRight
        · exact equal
        rcases List.mem_cons.mp ((same other).mpr (by simp)) with equal | inLeft
        · exact equal.symm
        exact absurd (Std.lt_trans (leastLeft _ inLeft) (leastRight _ inRight)) Std.lt_irrefl
      subst heads
      rw [ih tailLeft tailRight]
      intro fact
      constructor
      · intro member
        rcases List.mem_cons.mp ((same fact).mp (by simp [member])) with rfl | found
        · exact absurd (leastLeft _ member) Std.lt_irrefl
        · exact found
      · intro member
        rcases List.mem_cons.mp ((same fact).mpr (by simp [member])) with rfl | found
        · exact absurd (leastRight _ member) Std.lt_irrefl
        · exact found

omit [DecidableLT α] in
theorem ext {left right : FactSet α} (same : ∀ fact, fact ∈ left ↔ fact ∈ right) : left = right := by
  obtain ⟨left, ascendingLeft⟩ := left
  obtain ⟨right, ascendingRight⟩ := right
  have := ascending_ext ascendingLeft ascendingRight same
  subst this
  rfl

end Order

@[simp] theorem not_mem_empty {fact : α} : fact ∉ (empty : FactSet α) := by
  intro member
  cases (member : fact ∈ ([] : List α))

@[simp] theorem mem_filter {keep : α → Bool} {set : FactSet α} {fact : α} :
    fact ∈ set.filter keep ↔ fact ∈ set ∧ keep fact = true := List.mem_filter

@[simp] theorem contains_iff [DecidableEq α] {set : FactSet α} {fact : α} :
    set.contains fact = true ↔ fact ∈ set := by
  simp [contains, mem_toList]

@[simp] theorem mem_inter [DecidableEq α] {left right : FactSet α} {fact : α} :
    fact ∈ left.inter right ↔ fact ∈ left ∧ fact ∈ right := by
  simp [inter]

end FactSet

end ClauseReach
