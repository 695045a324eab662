import BufferPool.Disk.Error

/-! # Pool errors

What the pool was doing for which page when its device failed.
-/

namespace BufferPool

/-- What failed for a page. An id is released if it was found for a new page but could not be used.
-/
inductive PoolError where
  | reading (page : PageId) (cause : DiskError)
  | allocating (cause : DiskError)
  | releasing (page : PageId) (cause : DiskError)
  | writingBack (page : PageId) (cause : DiskError)
  | deallocating (page : PageId) (cause : DiskError)
  deriving DecidableEq, Repr

namespace PoolError

def cause : PoolError → DiskError
  | reading _ e | allocating e | releasing _ e | writingBack _ e | deallocating _ e => e

def context : PoolError → String
  | reading p _ => s!"failed to read page {p}"
  | allocating _ => "failed to allocate a new page"
  | releasing p _ => s!"failed to release page {p}"
  | writingBack p _ => s!"failed to write back page {p}"
  | deallocating p _ => s!"failed to deallocate page {p}"

def message (e : PoolError) : String := ": ".intercalate (e.context :: e.cause.chain)

end PoolError

end BufferPool
