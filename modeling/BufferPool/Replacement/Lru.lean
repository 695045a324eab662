/-! # Least recently unpinned

The evictable entries in the order in which they were unpinned. An entry that
is unpinned twice keeps its first place.
-/

namespace BufferPool

/-- The evictable entries, the next victim first. More of them than the capacity are kept all the
same. -/
structure Lru (α : Type) where
  capacity : Nat
  queue : List α := []

namespace Lru

variable {α : Type} [DecidableEq α]

def pin (r : Lru α) (a : α) : Lru α := { r with queue := r.queue.erase a }

/-- Puts an entry at the back of the queue, unless it already waits there. -/
def unpin (r : Lru α) (a : α) : Lru α :=
  if a ∈ r.queue then r else { r with queue := r.queue ++ [a] }

def remove (r : Lru α) (a : α) : Lru α := r.pin a

def peek (r : Lru α) : Option α := r.queue.head?

def victim (r : Lru α) : Option α × Lru α := (r.peek, { r with queue := r.queue.tail })

def isEvictable (r : Lru α) (a : α) : Bool := r.queue.contains a

def size (r : Lru α) : Nat := r.queue.length

end Lru

end BufferPool
