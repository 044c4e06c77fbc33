import Mathlib.Algebra.Order.BigOperators.Group.List
import Mathlib.Algebra.Order.Group.Nat
import ClauseReach.Queue

/-!
Draining a queue that its visitor refills. The elements in the queue form the first round, and what is pushed while one
round is popped forms the next; a drain ends after the first round that pushes nothing. A text that comes back with one
mark less comes back as often as it has marks, so there is such a round. A journal of all that is done to a queue shows
that it gives out its elements in the order in which they were pushed.
-/

namespace ClauseReach.Queue

variable {α β : Type}

/-! Pops and single turns of a drain -/

theorem eq_empty {queue : Queue α} (nothing : queue.toList = []) : queue = .empty := by
  obtain ⟨front, back⟩ := queue
  obtain ⟨noFront, noBack⟩ := List.append_eq_nil_iff.mp nothing
  rw [List.reverse_eq_nil_iff] at noBack
  exact congrArg₂ Queue.mk noFront noBack

theorem pop?_cases (queue : Queue α) : (queue.pop? = none ∧ queue.toList = []) ∨
    ∃ element rest, queue.pop? = some (element, rest) ∧ queue.toList = element :: rest.toList := by
  have view := pop?_eq queue
  cases elements : queue.toList with
  | nil => exact .inl ⟨by simpa [elements] using view, rfl⟩
  | cons element others =>
    rw [elements, List.head?_cons, List.tail_cons, Option.map_some, Option.map_eq_some_iff] at view
    obtain ⟨⟨first, rest⟩, popped, same⟩ := view
    obtain ⟨rfl, rfl⟩ := Prod.mk.inj same
    exact .inr ⟨first, rest, popped, rfl⟩

theorem toList_of_pop? {queue rest : Queue α} {element : α} (popped : queue.pop? = some (element, rest)) :
    queue.toList = element :: rest.toList := by
  obtain ⟨stuck, _⟩ | ⟨first, others, found, listed⟩ := pop?_cases queue
  · rw [stuck] at popped
    cases popped
  · rw [found] at popped
    cases popped
    exact listed

theorem pop?_of_cons {queue : Queue α} {element : α} {others : List α} (listed : queue.toList = element :: others) :
    ∃ rest, queue.pop? = some (element, rest) ∧ rest.toList = others := by
  obtain ⟨_, nothing⟩ | ⟨first, rest, popped, found⟩ := pop?_cases queue
  · rw [nothing] at listed
    cases listed
  · rw [found] at listed
    cases listed
    exact ⟨rest, popped, rfl⟩

variable {visit : α → Queue α → β → Queue α × β}

theorem drain_empty (kept : β) : (empty : Queue α).drain visit kept = some (.empty, kept) := by
  rw [drain]
  rfl

theorem drain_pop {queue rest : Queue α} {element : α} (popped : queue.pop? = some (element, rest)) (kept : β) :
    queue.drain visit kept = (visit element rest kept).1.drain visit (visit element rest kept).2 := by
  rw [drain, popped]

/-- What every turn keeps holds of what is left behind, and that is an empty queue. -/
theorem drain_keeps (holds : Queue α → β → Prop)
    (turn : ∀ {queue rest element kept}, queue.pop? = some (element, rest) → holds queue kept →
      holds (visit element rest kept).1 (visit element rest kept).2)
    {queue : Queue α} {kept : β} {after : Queue α × β} (start : holds queue kept)
    (ended : queue.drain visit kept = some after) : after.1 = .empty ∧ holds after.1 after.2 := by
  refine drain.partial_correctness visit
    (fun queue kept after => holds queue kept → after.1 = .empty ∧ holds after.1 after.2) ?_ queue kept after ended start
  intro later ih queue kept after ended start
  obtain ⟨stuck, nothing⟩ | ⟨element, rest, popped, _⟩ := pop?_cases queue
  · rw [stuck] at ended
    cases ended
    exact ⟨eq_empty nothing, start⟩
  · rw [popped] at ended
    exact ih _ _ _ ended (turn popped start)

/-! Rounds -/

/-- The visit pushes what is fresh from an element and notes the element in what it keeps. -/
structure Feeds (visit : α → Queue α → β → Queue α × β) (fresh : α → List α) (note : β → α → β) : Prop where
  toList_visit (element : α) (queue : Queue α) (kept : β) :
    (visit element queue kept).1.toList = queue.toList ++ fresh element
  kept_visit (element : α) (queue : Queue α) (kept : β) : (visit element queue kept).2 = note kept element

def generation (fresh : α → List α) : Nat → List α → List α
  | 0, elements => elements
  | count + 1, elements => generation fresh count (elements.flatMap fresh)

namespace Feeds

variable {fresh : α → List α} {note : β → α → β}

/-- The first elements are popped one by one, while what they push gathers behind the others. -/
theorem drain_round (feeds : Feeds visit fresh note) {queue : Queue α} {first others : List α}
    (listed : queue.toList = first ++ others) (kept : β) :
    ∃ after : Queue α, after.toList = others ++ first.flatMap fresh ∧
      queue.drain visit kept = after.drain visit (first.foldl note kept) := by
  induction first generalizing queue others kept with
  | nil => exact ⟨queue, by simpa using listed, rfl⟩
  | cons element later ih =>
    obtain ⟨rest, popped, left⟩ := pop?_of_cons listed
    have behind : (visit element rest kept).1.toList = later ++ (others ++ fresh element) := by
      rw [feeds.toList_visit, left]
      exact List.append_assoc later others (fresh element)
    obtain ⟨after, gathered, same⟩ := ih behind (visit element rest kept).2
    refine ⟨after, ?_, ?_⟩
    · rw [gathered, List.flatMap_cons, List.append_assoc]
    · rw [drain_pop popped, same, feeds.kept_visit, List.foldl_cons]

/-- Round by round until nothing is left. The induction is on the number of rounds; no number of elements would do, since
the queue may grow within a round. -/
theorem drain_generations (feeds : Feeds visit fresh note) {bound : Nat} {queue : Queue α}
    (last : generation fresh bound queue.toList = []) (kept : β) :
    queue.drain visit kept = some (.empty,
      ((List.range bound).flatMap fun count => generation fresh count queue.toList).foldl note kept) := by
  induction bound generalizing queue kept with
  | zero =>
    rw [eq_empty last, drain_empty]
    rfl
  | succ bound ih =>
    obtain ⟨after, gathered, same⟩ := feeds.drain_round (List.append_nil queue.toList).symm kept
    rw [List.nil_append] at gathered
    rw [List.range_succ_eq_map, List.flatMap_cons, List.foldl_append, List.flatMap_map, same, ih (gathered ▸ last),
      gathered]
    rfl

end Feeds

/-! Marked texts -/

def marks (text : String) : Nat := (text.toList.takeWhile (· = '+')).length

def stripped (count : Nat) (text : String) : String := String.ofList (text.toList.drop count)

/-- The texts with at least so many marks, in their order and without these marks. -/
def level (texts : List String) (count : Nat) : List String :=
  (texts.filter (count ≤ marks ·)).map (stripped count)

theorem unmark?_cases (text : String) : (unmark? text = none ∧ marks text = 0) ∨
    ∃ next, unmark? text = some next ∧ marks text = marks next + 1 ∧
      ∀ count, stripped (count + 1) text = stripped count next := by
  unfold unmark?
  split
  · rename_i rest marked
    refine .inr ⟨String.ofList rest, rfl, ?_, fun count => ?_⟩
    · simp [marks, marked]
    · simp [stripped, marked]
  · rename_i unmarked
    refine .inl ⟨rfl, ?_⟩
    unfold marks
    cases characters : text.toList with
    | nil => rfl
    | cons first rest =>
      have other : first ≠ '+' := fun same => unmarked rest (same ▸ characters)
      simp [other]

theorem level_unmark (text : String) (count : Nat) :
    level (unmark? text).toList count = level [text] (count + 1) := by
  obtain ⟨stays, unmarked⟩ | ⟨next, pushed, more, rest⟩ := unmark?_cases text
  · simp [level, stays, unmarked]
  · by_cases enough : count ≤ marks next
    · simp [level, pushed, more, enough, rest]
    · simp [level, pushed, more, enough]

theorem level_append (texts others : List String) (count : Nat) :
    level (texts ++ others) count = level texts count ++ level others count := by
  simp [level]

theorem generation_unmark (texts : List String) (count : Nat) :
    generation (fun text => (unmark? text).toList) count texts = level texts count := by
  induction count generalizing texts with
  | zero =>
    have whole : stripped 0 = id := funext fun text => by simp [stripped]
    simp [generation, level, whole]
  | succ count ih =>
    rw [generation, ih]
    induction texts with
    | nil => rfl
    | cons text texts rest =>
      rw [List.flatMap_cons, level_append, rest, level_unmark, ← level_append, List.singleton_append]

theorem level_eq_nil {texts : List String} {bound : Nat} (few : ∀ text ∈ texts, marks text < bound) :
    level texts bound = [] := by
  rw [level, List.map_eq_nil_iff, List.filter_eq_nil_iff]
  intro text member
  simpa using few text member

/-! Journals -/

inductive Event (α : Type) where
  | pushed (element : α)
  | popped (element : α)

def Event.pushed? : Event α → Option α
  | .pushed element => some element
  | .popped _ => none

def Event.popped? : Event α → Option α
  | .pushed _ => none
  | .popped element => some element

def pushes (journal : List (Event α)) : List α := journal.filterMap Event.pushed?

def pops (journal : List (Event α)) : List α := journal.filterMap Event.popped?

theorem pushes_append (journal later : List (Event α)) : pushes (journal ++ later) = pushes journal ++ pushes later :=
  List.filterMap_append

theorem pops_append (journal later : List (Event α)) : pops (journal ++ later) = pops journal ++ pops later :=
  List.filterMap_append

/-- The journal tells all that was done to the queue since it was made. -/
inductive Tells : List (Event α) → Queue α → Prop
  | made : Tells [] .empty
  | push {journal : List (Event α)} {queue : Queue α} (told : Tells journal queue) (element : α) :
    Tells (journal ++ [.pushed element]) (queue.push element)
  | pop {journal : List (Event α)} {queue rest : Queue α} {element : α} (told : Tells journal queue)
    (popped : queue.pop? = some (element, rest)) : Tells (journal ++ [.popped element]) rest

namespace Tells

variable {journal : List (Event α)} {queue : Queue α}

/-- First in, first out: what was pushed has been popped, or is still in the queue behind all that has been popped. -/
theorem pushes_eq (told : Tells journal queue) : pushes journal = pops journal ++ queue.toList := by
  induction told with
  | made => rfl
  | push told element ih =>
    rw [pushes_append, pops_append, ih, toList_push]
    simp [pushes, pops, Event.pushed?, Event.popped?]
  | pop told popped ih =>
    rw [pushes_append, pops_append, ih, toList_of_pop? popped]
    simp [pushes, pops, Event.pushed?, Event.popped?]

theorem pushAll (told : Tells journal queue) (elements : List α) :
    Tells (journal ++ elements.map .pushed) ⟨queue.front, elements.reverse ++ queue.back⟩ := by
  induction elements generalizing journal queue with
  | nil => simpa using told
  | cons element later ih => simpa [Queue.push] using ih (told.push element)

theorem refill (told : Tells journal queue) (again : α → Option α) (element : α) :
    Tells (journal ++ (again element).toList.map .pushed) (queue.refill again element) := by
  unfold Queue.refill
  cases again element with
  | none => simpa using told
  | some next => exact told.push next

end Tells

/-- Every queue can be made. Its front list comes from a pop that turned the back list around. -/
theorem exists_tells (queue : Queue α) : ∃ journal, Tells journal queue := by
  obtain ⟨front, back⟩ := queue
  obtain ⟨journal, told⟩ : ∃ journal, Tells journal ⟨front, []⟩ := by
    cases front with
    | nil => exact ⟨[], .made⟩
    | cons first later =>
      have popped : (⟨[], (first :: first :: later).reverse⟩ : Queue α).pop? = some (first, ⟨first :: later, []⟩) := by
        simp [pop?]
      have filled := Tells.made.pushAll (first :: first :: later)
      rw [Queue.empty, List.append_nil] at filled
      exact ⟨_, filled.pop popped⟩
  exact ⟨_, by simpa using told.pushAll back.reverse⟩

/-! Visits that refill the queue -/

def entry (again : α → Option α) (element : α) : List (Event α) :=
  .popped element :: (again element).toList.map .pushed

def recording (again : α → Option α) (element : α) (queue : Queue α) (journal : List (Event α)) :
    Queue α × List (Event α) :=
  (queue.refill again element, journal ++ entry again element)

theorem toList_refill (again : α → Option α) (element : α) (queue : Queue α) :
    (queue.refill again element).toList = queue.toList ++ (again element).toList := by
  unfold refill
  cases again element <;> simp

theorem feeds_collecting (again : α → Option α) :
    Feeds (collecting again) (fun element => (again element).toList) (fun seen element => seen ++ [element]) :=
  ⟨fun element queue _ => toList_refill again element queue, fun _ _ _ => rfl⟩

theorem feeds_recording (again : α → Option α) :
    Feeds (recording again) (fun element => (again element).toList)
      (fun journal element => journal ++ entry again element) :=
  ⟨fun element queue _ => toList_refill again element queue, fun _ _ _ => rfl⟩

theorem pops_entries (again : α → Option α) (elements : List α) : pops (elements.flatMap (entry again)) = elements := by
  have once (element : α) : (entry again element).filterMap Event.popped? = [element] := by
    simp [entry, Event.popped?]
  rw [pops, List.filterMap_flatMap]
  simp only [once, List.flatMap_singleton']

/-- The journal goes on telling all that is done while the queue is drained. When the drain has ended, whatever came back
meanwhile, everything has been popped in the order in which it was pushed. -/
theorem Tells.drain {again : α → Option α} {queue : Queue α} {journal : List (Event α)}
    {after : Queue α × List (Event α)} (told : Tells journal queue)
    (ended : queue.drain (recording again) journal = some after) :
    Tells after.2 .empty ∧ pops after.2 = pushes after.2 := by
  obtain ⟨nothing, tells⟩ : after.1 = .empty ∧ Tells after.2 after.1 := by
    apply drain_keeps (fun queue journal => Tells journal queue) _ told ended
    intro queue rest element journal popped told
    have refilled := (told.pop popped).refill again element
    rw [List.append_assoc] at refilled
    exact refilled
  rw [nothing] at tells
  have balanced := tells.pushes_eq
  rw [toList_empty, List.append_nil] at balanced
  exact ⟨tells, balanced.symm⟩

theorem Feeds.drain_levels {γ : Type} {visit : String → Queue String → List γ → Queue String × List γ}
    {entry : String → List γ}
    (feeds : Feeds visit (fun text => (unmark? text).toList) fun kept text => kept ++ entry text) {queue : Queue String}
    {bound : Nat} (few : ∀ text ∈ queue.toList, marks text < bound) (kept : List γ) :
    queue.drain visit kept =
      some (.empty, kept ++ ((List.range bound).flatMap (level queue.toList)).flatMap entry) := by
  have last : generation (fun text => (unmark? text).toList) bound queue.toList = [] := by
    rw [generation_unmark, level_eq_nil few]
  rw [feeds.drain_generations last, List.foldl_append_eq_append, ← List.flatMap_def]
  simp only [generation_unmark]

/-- A queue of texts that come back with one mark less is drained level by level until it is empty: first all texts, then
those with a mark, without it, and so on. By the journal of the queue, which goes back to when it was made, everything that
was ever pushed has then been popped once, in the order of the pushes. -/
theorem drain_unmarking_by_level (queue : Queue String) :
    ∃ seen, queue.drain (collecting unmark?) [] = some (.empty, seen) ∧
      (∀ bound, (∀ text ∈ queue.toList, marks text < bound) →
        seen = (List.range bound).flatMap (level queue.toList)) ∧
      (∃ journal, Tells journal queue) ∧
      ∀ journal, Tells journal queue → ∃ during,
        queue.drain (recording unmark?) journal = some (.empty, journal ++ during) ∧
          pops during = seen ∧ Tells (journal ++ during) .empty ∧
          pops (journal ++ during) = pushes (journal ++ during) := by
  have collected {bound : Nat} (few : ∀ text ∈ queue.toList, marks text < bound) :
      queue.drain (collecting unmark?) [] = some (.empty, (List.range bound).flatMap (level queue.toList)) := by
    rw [(feeds_collecting unmark?).drain_levels few, List.flatMap_singleton', List.nil_append]
  -- No text has more marks than all of them together.
  have few : ∀ text ∈ queue.toList, marks text < (queue.toList.map marks).sum + 1 := by
    intro text member
    exact Nat.lt_succ_of_le (List.le_sum_of_mem (List.mem_map_of_mem member))
  refine ⟨_, collected few, ?_, exists_tells queue, ?_⟩
  · intro bound enough
    have same := (collected few).symm.trans (collected enough)
    exact congrArg Prod.snd (Option.some.inj same)
  · intro journal told
    have recorded := (feeds_recording unmark?).drain_levels few journal
    exact ⟨_, recorded, pops_entries unmark? _, told.drain recorded⟩

/-- A queue that has been used before: one text is gone already, and one was pushed after that. -/
def usedQueue : Queue String := ⟨["++a", "b"], ["+c"]⟩

def usedJournal : List (Event String) := [.pushed "z", .pushed "++a", .pushed "b", .popped "z", .pushed "+c"]

theorem usedQueue_tells : Tells usedJournal usedQueue := by
  have filled := ((Tells.made.push "z").push "++a").push "b"
  exact (filled.pop rfl).push "+c"

theorem usedQueue_drained :
    usedQueue.drain (collecting unmark?) [] = some (.empty, ["++a", "b", "+c", "+a", "c", "a"]) ∧
      ∃ during, usedQueue.drain (recording unmark?) usedJournal = some (.empty, usedJournal ++ during) ∧
        pops (usedJournal ++ during) = ["z", "++a", "b", "+c", "+a", "c", "a"] ∧
        pushes (usedJournal ++ during) = ["z", "++a", "b", "+c", "+a", "c", "a"] := by
  obtain ⟨seen, ended, levels, _, journals⟩ := drain_unmarking_by_level usedQueue
  have listed : seen = ["++a", "b", "+c", "+a", "c", "a"] := (levels 3 (by decide)).trans (by decide)
  obtain ⟨during, recorded, popped, _, balanced⟩ := journals usedJournal usedQueue_tells
  have whole : pops (usedJournal ++ during) = ["z", "++a", "b", "+c", "+a", "c", "a"] := by
    rw [pops_append, popped, listed]
    rfl
  exact ⟨listed ▸ ended, during, recorded, whole, balanced ▸ whole⟩

end ClauseReach.Queue
