import Std.Data.ExtTreeMap
import BufferPool.Disk.Device

/-! # The file disk

Pages kept in one file. A known page is live and has an offset in the file, or
it is dead and its slot waits to be handed out again, the longest dead first.
An allocated page takes no room in the file before it is written.
-/

namespace BufferPool

/-- A file, up to its present end. Every known page has the offset of its slot, or `none` if it is
dead, and the slots of dead pages are used again in the order of `freeSlots`. -/
structure FileDisk where
  bytes : Bytes
  slots : Std.ExtTreeMap PageId (Option Nat)
  freeSlots : List (PageId × Nat) := []
  readCount : Nat := 0
  writeCount : Nat := 0

namespace FileDisk

def offset (p : PageId) : Nat := p.toNat * Page.size

def slotsBelow (n : Nat) : Std.ExtTreeMap PageId (Option Nat) :=
  (List.range n).foldl (fun slots i => slots.insert (UInt32.ofNat i) (some (i * Page.size))) ∅

/-- A disk on a file with these contents. Every whole page in the file is live. -/
def ofBytes (bytes : Bytes) : FileDisk where
  bytes := bytes
  slots := slotsBelow (bytes.length / Page.size)

/-- Opens the file at a place, creating it if needed. -/
def openAt (place : Place) : Except DiskError FileDisk :=
  match place.openOrCreate with
  | .ok bytes => .ok (ofBytes bytes)
  | .error e => .error (.io e)

def liveCount (d : FileDisk) : Nat := (d.slots.values.filter Option.isSome).length

def locate (d : FileDisk) (p : PageId) : Except DiskError Nat :=
  if p = PageId.invalid then .error .invalidPageId
  else match d.slots[p]? with
    | some (some offset) => .ok offset
    | some none => .error (.deallocated p)
    | none => .error (.notAllocated p)

/-- What lies behind the end of the file reads as zeros. -/
def read (p : PageId) (d : FileDisk) : Except DiskError Page × FileDisk :=
  match d.locate p with
  | .ok offset =>
    (.ok (Page.ofStart (d.bytes.drop offset)), { d with readCount := d.readCount + 1 })
  | .error e => (.error e, d)

/-- A page behind the end of the file extends it. -/
def write (p : PageId) (page : Page) (d : FileDisk) : Except DiskError Unit × FileDisk :=
  match d.locate p with
  | .ok offset => (.ok (), { d with
      bytes := d.bytes.overlay offset page.bytes
      writeCount := d.writeCount + 1 })
  | .error e => (.error e, d)

/-- Hands out the slot that is dead the longest, or else the first unknown id. -/
def allocate (d : FileDisk) : Except DiskError PageId × FileDisk :=
  match d.freeSlots with
  | (p, offset) :: rest =>
    (.ok p, { d with slots := d.slots.insert p (some offset), freeSlots := rest })
  | [] =>
    let p := UInt32.ofNat d.slots.size
    if p = PageId.invalid then (.error .invalidPageId, d)
    else (.ok p, { d with slots := d.slots.insert p (some (FileDisk.offset p)) })

/-- Marks a live page dead. The file keeps its bytes. -/
def deallocate (p : PageId) (d : FileDisk) : Except DiskError Unit × FileDisk :=
  match d.slots[p]? with
  | some (some offset) =>
    (.ok (), { d with slots := d.slots.insert p none, freeSlots := d.freeSlots ++ [(p, offset)] })
  | _ => (.ok (), d)

instance : Device FileDisk := ⟨read, write, allocate, deallocate⟩

end FileDisk

end BufferPool
