import BufferPool.Disk.Device

/-! # Failing devices

A device behind a plan of failures, one for each kind of request. A request
whose turn is to fail is answered with the planned error and never reaches the
device.
-/

namespace BufferPool

inductive Request where
  | read
  | write
  | allocate
  | deallocate
  deriving DecidableEq, Repr

/-- The failures of one kind of request: the error that request number `i` fails with, for the page
that it names, and how many of these requests have come so far. -/
structure Faults where
  plan : Nat → Option (PageId → DiskError) := fun _ => none
  served : Nat := 0

namespace Faults

def never : Faults := {}

/-- Lets `skip` requests pass and fails the `count` requests after them. -/
def burst (skip count : Nat) (error : PageId → DiskError) : Faults where
  plan i := if skip ≤ i ∧ i < skip + count then some error else none

def next (f : Faults) : Option (PageId → DiskError) := f.plan f.served

def advance (f : Faults) : Faults := { f with served := f.served + 1 }

end Faults

structure FaultyDisk (δ : Type) where
  device : δ
  reads : Faults := .never
  writes : Faults := .never
  allocations : Faults := .never
  deallocations : Faults := .never

namespace FaultyDisk

variable {δ : Type}

def faults (d : FaultyDisk δ) : Request → Faults
  | .read => d.reads
  | .write => d.writes
  | .allocate => d.allocations
  | .deallocate => d.deallocations

def setFaults (d : FaultyDisk δ) (f : Faults) : Request → FaultyDisk δ
  | .read => { d with reads := f }
  | .write => { d with writes := f }
  | .allocate => { d with allocations := f }
  | .deallocate => { d with deallocations := f }

/-- Carries out a request for page `p`, unless it is its turn to fail. -/
def attempt {α : Type} (kind : Request) (p : PageId) (request : δ → Except DiskError α × δ)
    (d : FaultyDisk δ) : Except DiskError α × FaultyDisk δ :=
  let f := d.faults kind
  let d := d.setFaults f.advance kind
  match f.next with
  | some error => (.error (error p), d)
  | none =>
    let (answer, device) := request d.device
    (answer, { d with device })

variable [Device δ]

/-- An allocation names no page. Its failures see page 0. -/
instance : Device (FaultyDisk δ) where
  read p := attempt .read p (Device.read p)
  write p page := attempt .write p (Device.write p page)
  allocate := attempt .allocate 0 Device.allocate
  deallocate p := attempt .deallocate p (Device.deallocate p)

/-- A planned failure comes before the check of the buffer. -/
def readBuffer (p : PageId) (length : Nat) (d : FaultyDisk δ) :
    Except DiskError Bytes × FaultyDisk δ :=
  d.attempt .read p (Device.readBuffer p length)

def writeBuffer (p : PageId) (buffer : Bytes) (d : FaultyDisk δ) :
    Except DiskError Unit × FaultyDisk δ :=
  d.attempt .write p (Device.writeBuffer p buffer)

end FaultyDisk

end BufferPool
