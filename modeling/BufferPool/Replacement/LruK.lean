/-! # LRU-K

Every pin is an access. The victim is the evictable entry whose `k`-th most
recent access is oldest. Entries with fewer than `k` accesses go first, among
them the one whose oldest access is oldest.
-/

namespace BufferPool

namespace LruK

/-- The times of the latest accesses of an entry, the most recent first, and whether it may be
evicted. -/
structure Node where
  history : List Nat := []
  evictable : Bool := false
  deriving DecidableEq, Repr

end LruK

/-- The tracked entries and the time of the next access. The entries stand in the order of their
first accesses, but the choice of a victim does not depend on it. -/
structure LruK (α : Type) where
  k : Nat
  k_pos : 0 < k
  nodes : List (α × LruK.Node) := []
  clock : Nat := 0
  evictableCount : Nat := 0

namespace LruK

variable {α : Type} [DecidableEq α]

def node? (r : LruK α) (a : α) : Option Node := r.nodes.lookup a

def setNode (r : LruK α) (a : α) (x : Node) : LruK α :=
  { r with nodes := r.nodes.map fun (b, y) => if b = a then (b, x) else (b, y) }

/-- Notes an access now. Only the latest `k` accesses are remembered. -/
def access (r : LruK α) (a : α) : LruK α :=
  let visit (x : Node) : Node := { x with history := (r.clock :: x.history).take r.k }
  let r' := { r with clock := r.clock + 1 }
  match r.node? a with
  | some x => r'.setNode a (visit x)
  | none => { r' with nodes := r.nodes ++ [(a, visit {})] }

def pin (r : LruK α) (a : α) : LruK α :=
  let r := r.access a
  match r.node? a with
  | some x =>
    if x.evictable then
      { r.setNode a { x with evictable := false } with evictableCount := r.evictableCount - 1 }
    else r
  | none => r

/-- Unpinning an entry that is not tracked counts as its first access. -/
def unpin (r : LruK α) (a : α) : LruK α :=
  let r := if (r.node? a).isSome then r else r.access a
  match r.node? a with
  | some x =>
    if x.evictable then r
    else { r.setNode a { x with evictable := true } with evictableCount := r.evictableCount + 1 }
  | none => r

def remove (r : LruK α) (a : α) : LruK α :=
  match r.node? a with
  | some x => { r with
      nodes := r.nodes.filter fun (b, _) => b ≠ a
      evictableCount := if x.evictable then r.evictableCount - 1 else r.evictableCount }
  | none => r

/-- The time of the `k`-th most recent access, if there were so many. -/
def Node.kthAccess (k : Nat) (x : Node) : Option Nat := x.history[k - 1]?

def Node.firstAccess (x : Node) : Nat := x.history.getLast?.getD 0

def best (entries : List (α × Nat)) : Option α :=
  (entries.foldl (fun found (a, score) =>
    match found with
    | some (b, top) => if top < score then some (a, score) else some (b, top)
    | none => some (a, score)) none).map Prod.fst

/-- The evictable entries with fewer than `k` accesses, and the age of the first one. -/
def newcomers (r : LruK α) : List (α × Nat) :=
  r.nodes.filterMap fun (a, x) =>
    if x.evictable ∧ x.kthAccess r.k = none then some (a, r.clock - x.firstAccess) else none

/-- The evictable entries with at least `k` accesses, and the age of the `k`-th most recent. -/
def veterans (r : LruK α) : List (α × Nat) :=
  r.nodes.filterMap fun (a, x) =>
    if x.evictable then (x.kthAccess r.k).map fun time => (a, r.clock - time) else none

def peek (r : LruK α) : Option α :=
  if r.evictableCount = 0 then none
  else (best r.newcomers).or (best r.veterans)

def victim (r : LruK α) : Option α × LruK α :=
  match r.peek with
  | some a => (some a, r.remove a)
  | none => (none, r)

def isEvictable (r : LruK α) (a : α) : Bool := (r.node? a).any Node.evictable

def size (r : LruK α) : Nat := r.evictableCount

end LruK

end BufferPool
