import BufferPool.Page
import BufferPool.Place

/-! # Disk errors

Why a device refuses a request, and the text of each reason. A failure of the
system below the device is passed on as its cause.
-/

namespace BufferPool

inductive DiskError where
  | notAllocated (page : PageId)
  | deallocated (page : PageId)
  | invalidPageId
  | bufferSize (length : Nat)
  | io (cause : IoError)
  deriving DecidableEq, Repr

namespace DiskError

/-- The page does not exist on the device: it was never allocated, or it was released. -/
def isMissing : DiskError → Bool
  | notAllocated _ | deallocated _ => true
  | _ => false

def message : DiskError → String
  | notAllocated p => s!"page {p} has not been allocated"
  | deallocated p => s!"page {p} has been deallocated"
  | invalidPageId => "the invalid page id cannot be used for I/O"
  | bufferSize n => s!"buffer of {n} bytes does not match the page size of {Page.size}"
  | io e => s!"disk I/O error: {e.message}"

/-- The error and what caused it, outermost first. -/
def chain (e : DiskError) : List String :=
  e.message :: match e with
    | io cause => [cause.message]
    | _ => []

end DiskError

end BufferPool
