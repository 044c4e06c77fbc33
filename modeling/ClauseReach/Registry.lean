import ClauseReach.Pass

/-!
How a pass keeps its branches: a table of queues, the destinations in the order of their first branch, and counts of
the branches that have arrived. Nothing in the types keeps the three in step with each other; the operations do.
-/

namespace ClauseReach

open StateAlgebra

structure Registry (σ : Type) where
  state : σ
  queues : Dest → Option (Queue σ)
  order : List Dest
  resolved : Dest → Nat

namespace Registry

variable {σ : Type}

def start (entry : σ) : Registry σ := ⟨entry, fun _ => none, [], fun _ => 0⟩

def withState (registry : Registry σ) (state : σ) : Registry σ := { registry with state }

def setQueue (registry : Registry σ) (dest : Dest) (queue : Option (Queue σ)) : Registry σ :=
  { registry with queues := fun other => if other = dest then queue else registry.queues other }

/-- The queue of a destination. One that has none gets an empty queue, and is listed. -/
def opened (registry : Registry σ) (dest : Dest) : Queue σ × Registry σ :=
  match registry.queues dest with
  | some queue => (queue, registry)
  | none => (.empty, { registry.setQueue dest (some .empty) with order := registry.order ++ [dest] })

def record (registry : Registry σ) (dest : Dest) (state : σ) : Registry σ :=
  let (queue, registry) := registry.opened dest
  registry.setQueue dest (some (queue.push state))

/-- Takes the destination off the table and the list, where it is struck out once, and counts its branches. -/
def close (registry : Registry σ) (dest : Dest) (count : Nat) : Registry σ :=
  { registry.setQueue dest none with
    order := registry.order.erase dest
    resolved := fun other => if other = dest then registry.resolved dest + count else registry.resolved other }

variable [StateAlgebra σ]

def join (registry : Registry σ) (state : σ) : Registry σ := registry.withState (merge registry.state state)

def resolve (registry : Registry σ) (dest : Dest) : Option (Nat × Registry σ) :=
  match registry.queues dest with
  | none => some (0, registry)
  | some queue => do
    let (_, joined) ← queue.drain (fun state rest registry => (rest, registry.join state)) registry
    return (queue.size, joined.close dest queue.size)

end Registry

end ClauseReach
