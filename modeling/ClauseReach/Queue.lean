/-!
First-in first-out queues. The front list holds the oldest elements in order, the back list the
newest ones in reverse; `toList` is the meaning, oldest first.
-/

namespace ClauseReach

structure Queue (α : Type) where
  front : List α
  back : List α
  deriving Repr

namespace Queue

variable {α β : Type}

def empty : Queue α := ⟨[], []⟩

def toList (queue : Queue α) : List α := queue.front ++ queue.back.reverse

def ofList (elements : List α) : Queue α := ⟨elements, []⟩

def size (queue : Queue α) : Nat := queue.front.length + queue.back.length

def isEmpty (queue : Queue α) : Bool := queue.front.isEmpty && queue.back.isEmpty

def push (queue : Queue α) (element : α) : Queue α := ⟨queue.front, element :: queue.back⟩

def pop? (queue : Queue α) : Option (α × Queue α) :=
  match queue.front, queue.back.reverse with
  | element :: front, _ => some (element, ⟨front, queue.back⟩)
  | [], element :: front => some (element, ⟨front, []⟩)
  | [], [] => none

@[simp] theorem toList_empty : (empty : Queue α).toList = [] := rfl

@[simp] theorem toList_ofList (elements : List α) : (ofList elements).toList = elements := by
  simp [ofList, toList]

@[simp] theorem toList_push (queue : Queue α) (element : α) :
    (queue.push element).toList = queue.toList ++ [element] := by
  simp [push, toList]

@[simp] theorem size_eq (queue : Queue α) : queue.size = queue.toList.length := by
  simp [size, toList]

@[simp] theorem isEmpty_iff (queue : Queue α) : queue.isEmpty = true ↔ queue.toList = [] := by
  simp [isEmpty, toList]

theorem pop?_eq (queue : Queue α) :
    (queue.pop?).map (fun popped => (popped.1, popped.2.toList)) =
      queue.toList.head?.map fun element => (element, queue.toList.tail) := by
  unfold pop? toList
  split <;> simp_all

/-- Pops until nothing is left and hands each element to `visit`, with the queue it was taken from and
what was kept so far. What `visit` pushes is popped later in the same call; a queue that never runs
empty has no result. -/
def drain (visit : α → Queue α → β → Queue α × β) (queue : Queue α) (kept : β) :
    Option (Queue α × β) :=
  match queue.pop? with
  | none => some (queue, kept)
  | some (element, rest) =>
    let after := visit element rest kept
    after.1 |>.drain visit after.2
partial_fixpoint

def refill (again : α → Option α) (element : α) (queue : Queue α) : Queue α :=
  (again element).elim queue queue.push

def collecting (again : α → Option α) (element : α) (queue : Queue α) (seen : List α) :
    Queue α × List α :=
  (queue.refill again element, seen ++ [element])

/-- A text marked with a leading `+`, without that mark. -/
def unmark? (text : String) : Option String :=
  match text.toList with
  | '+' :: rest => some (String.ofList rest)
  | _ => none

end Queue

end ClauseReach
