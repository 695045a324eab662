import BufferPool.Pool.Operations

/-! # Page guards

A guard stands for one pin of a page and gives it back when it is dropped. A
write guard remembers whether it was written through, and drops its pin dirty
if so.
-/

namespace BufferPool

/-- What a guard may do. A write guard has a dirty flag. -/
inductive Access where
  | read
  | write (dirty : Bool)
  deriving DecidableEq, Repr

def Access.dirty : Access → Bool
  | read => false
  | write dirty => dirty

/-- A pin on the page in a frame of a pool of `n` frames. -/
structure Guard (n : Nat) where
  page : PageId
  frame : Fin n
  access : Access
  deriving DecidableEq

namespace Guard

variable {δ : Type} [Device δ] {n : Nat}

def isWrite (g : Guard n) : Bool := g.access ≠ .read

def dirty (g : Guard n) : Bool := g.access.dirty

def data (g : Guard n) (b : Pool δ n) : Page := (b.frames.get g.frame).data

/-- The guard with its dirty flag set. A read guard has none. -/
def markDirty? (g : Guard n) : Option (Guard n) :=
  match g.access with
  | .read => none
  | .write _ => some { g with access := .write true }

/-- Writes into the frame, which a read guard may not. -/
def write? (g : Guard n) (offset : Nat) (new : Bytes) (b : Pool δ n) :
    Option (Guard n × Pool δ n) :=
  g.markDirty?.map fun g => (g, b.writeFrame g.frame offset new)

def drop (g : Guard n) (b : Pool δ n) : Pool δ n := (b.unpin g.page g.dirty).2

/-- The guard, if it is a read guard. Another one is dropped. -/
def asRead (g : Guard n) (b : Pool δ n) : Option (Guard n) × Pool δ n :=
  if g.isWrite then (none, g.drop b) else (some g, b)

def asWrite (g : Guard n) (b : Pool δ n) : Option (Guard n) × Pool δ n :=
  if g.isWrite then (some g, b) else (none, g.drop b)

end Guard

namespace Pool

variable {δ : Type} [Device δ] {n : Nat}

def fetchGuarded (b : Pool δ n) (p : PageId) (access : Access) :
    Except PoolError (Option (Guard n)) × Pool δ n :=
  let (answer, b) := b.fetch p
  (answer.map (Option.map fun f => ⟨p, f, access⟩), b)

def readGuard (b : Pool δ n) (p : PageId) : Except PoolError (Option (Guard n)) × Pool δ n :=
  b.fetchGuarded p .read

def writeGuard (b : Pool δ n) (p : PageId) : Except PoolError (Option (Guard n)) × Pool δ n :=
  b.fetchGuarded p (.write false)

def newGuard (b : Pool δ n) : Except PoolError (Option (Guard n)) × Pool δ n :=
  match b.new with
  | (.error e, b) => (.error e, b)
  | (.ok answer, b) =>
    (.ok (answer.bind fun f => (b.frames.get f).page.map fun p => ⟨p, f, .write false⟩), b)

end Pool

end BufferPool
