import BufferPool.Disk.Error

/-! # Block devices

A device stores pages under ids that it hands out itself. Every request
answers and leaves the device in its next state, also when it fails. Requests
with a raw buffer are refused unless the buffer has the size of a page.
-/

namespace BufferPool

class Device (δ : Type) where
  read : PageId → δ → Except DiskError Page × δ
  write : PageId → Page → δ → Except DiskError Unit × δ
  allocate : δ → Except DiskError PageId × δ
  deallocate : PageId → δ → Except DiskError Unit × δ

namespace Device

variable {δ : Type} [Device δ]

/-- Reads into a buffer of `length` bytes. -/
def readBuffer (p : PageId) (length : Nat) (d : δ) : Except DiskError Bytes × δ :=
  if length = Page.size then
    let (answer, d) := read p d
    (answer.map Page.bytes, d)
  else (.error (.bufferSize length), d)

def writeBuffer (p : PageId) (buffer : Bytes) (d : δ) : Except DiskError Unit × δ :=
  match Page.ofBytes? buffer with
  | some page => write p page d
  | none => (.error (.bufferSize buffer.length), d)

end Device

end BufferPool
