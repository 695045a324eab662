import Std.Data.ExtTreeMap
import BufferPool.Disk.Device

/-! # The memory disk

Pages kept in memory. The disk counts its reads and writes and records every
request that it carries out, in order. Released ids are handed out again, the
longest released first.
-/

namespace BufferPool

/-- One request that a memory disk carried out. -/
inductive DiskEvent where
  | read (page : PageId)
  | write (page : PageId)
  | allocate (page : PageId)
  | deallocate (page : PageId)
  deriving DecidableEq, Repr

/-- The allocated pages, the first id that was never handed out, and the released ones, which are
handed out again in the order of `freeIds`. -/
structure MemoryDisk where
  pages : Std.ExtTreeMap PageId Page := ∅
  next : PageId := 0
  freeIds : List PageId := []
  writes : Std.ExtTreeMap PageId Nat := ∅
  readCount : Nat := 0
  writeCount : Nat := 0
  history : List DiskEvent := []

namespace MemoryDisk

def empty : MemoryDisk := {}

def isAllocated (d : MemoryDisk) (p : PageId) : Bool := d.pages.contains p

/-- The stored bytes of a page. The look is neither counted nor recorded. -/
def snapshot (d : MemoryDisk) (p : PageId) : Option Page := d.pages[p]?

def writesFor (d : MemoryDisk) (p : PageId) : Nat := d.writes.getD p 0

def clearHistory (d : MemoryDisk) : MemoryDisk := { d with history := [] }

def record (d : MemoryDisk) (e : DiskEvent) : MemoryDisk := { d with history := d.history ++ [e] }

def missing (d : MemoryDisk) (p : PageId) : DiskError :=
  if p < d.next then .deallocated p else .notAllocated p

def read (p : PageId) (d : MemoryDisk) : Except DiskError Page × MemoryDisk :=
  if p = PageId.invalid then (.error .invalidPageId, d)
  else match d.pages[p]? with
    | some page => (.ok page, { d with readCount := d.readCount + 1 }.record (.read p))
    | none => (.error (d.missing p), d)

def write (p : PageId) (page : Page) (d : MemoryDisk) : Except DiskError Unit × MemoryDisk :=
  if p = PageId.invalid then (.error .invalidPageId, d)
  else if d.isAllocated p then
    (.ok (), { d with
      pages := d.pages.insert p page
      writes := d.writes.insert p (d.writesFor p + 1)
      writeCount := d.writeCount + 1 }.record (.write p))
  else (.error (d.missing p), d)

def install (d : MemoryDisk) (p : PageId) : MemoryDisk :=
  { d with pages := d.pages.insert p Page.zero }.record (.allocate p)

/-- Hands out the longest released id, or else the first one never handed out. -/
def allocate (d : MemoryDisk) : Except DiskError PageId × MemoryDisk :=
  match d.freeIds with
  | p :: rest => (.ok p, { d with freeIds := rest }.install p)
  | [] =>
    let advanced := { d with next := d.next + 1 }
    if d.next = PageId.invalid then (.error .invalidPageId, advanced)
    else (.ok d.next, advanced.install d.next)

/-- Releases a page. Releasing one that is not allocated is recorded and does nothing. -/
def deallocate (p : PageId) (d : MemoryDisk) : Except DiskError Unit × MemoryDisk :=
  let d := d.record (.deallocate p)
  if d.isAllocated p then
    (.ok (), { d with pages := d.pages.erase p, freeIds := d.freeIds ++ [p] })
  else (.ok (), d)

instance : Device MemoryDisk := ⟨read, write, allocate, deallocate⟩

end MemoryDisk

end BufferPool
