import BufferPool.Replacement.Lru
import BufferPool.Replacement.LruK

/-! # Replacement policies

A policy is chosen by a configuration. A replacer is the state of a policy at
work: it knows which entries may be evicted and which one goes next.
-/

namespace BufferPool

inductive Policy where
  | lru
  | lruK (k : Nat)
  deriving DecidableEq, Repr

inductive PolicyError where
  | zeroK
  deriving DecidableEq, Repr

def PolicyError.message : PolicyError → String
  | zeroK => "LRU-K needs k >= 1"

inductive Replacer (α : Type) where
  | lru (r : Lru α)
  | lruK (r : LruK α)

namespace Replacer

variable {α : Type} [DecidableEq α]

def ofPolicy (capacity : Nat) : Policy → Except PolicyError (Replacer α)
  | .lru => .ok (.lru { capacity })
  | .lruK k => if h : 0 < k then .ok (.lruK { k, k_pos := h }) else .error .zeroK

def pin : Replacer α → α → Replacer α
  | lru r, a => lru (r.pin a)
  | lruK r, a => lruK (r.pin a)

def unpin : Replacer α → α → Replacer α
  | lru r, a => lru (r.unpin a)
  | lruK r, a => lruK (r.unpin a)

def remove : Replacer α → α → Replacer α
  | lru r, a => lru (r.remove a)
  | lruK r, a => lruK (r.remove a)

/-- The next victim, which stays where it is. -/
def peek : Replacer α → Option α
  | lru r => r.peek
  | lruK r => r.peek

def victim : Replacer α → Option α × Replacer α
  | lru r => (r.victim.1, lru r.victim.2)
  | lruK r => (r.victim.1, lruK r.victim.2)

def isEvictable : Replacer α → α → Bool
  | lru r, a => r.isEvictable a
  | lruK r, a => r.isEvictable a

def size : Replacer α → Nat
  | lru r => r.size
  | lruK r => r.size

end Replacer

end BufferPool
