/-! # Pool statistics

Counters of what a pool did since it was built.
-/

namespace BufferPool

/-- An eviction takes a frame from one page for another, and a write-back puts the bytes of a dirty
page on the device. -/
structure Stats where
  fetches : Nat := 0
  hits : Nat := 0
  misses : Nat := 0
  evictions : Nat := 0
  writeBacks : Nat := 0
  allocations : Nat := 0
  deletions : Nat := 0
  deriving DecidableEq, Repr

/-- The fraction of fetches that found their page in the pool, and 0 if there were none. -/
def Stats.hitRatio (s : Stats) : Float :=
  if s.fetches = 0 then 0 else s.hits.toFloat / s.fetches.toFloat

end BufferPool
