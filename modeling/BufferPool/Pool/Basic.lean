import Std.Data.ExtTreeMap
import BufferPool.Config
import BufferPool.Disk.Device
import BufferPool.Log.Basic
import BufferPool.Stats

/-! # Buffer pools

A pool holds pages of a device in a fixed number of frames. A frame is free,
or it holds a page: pinned by its users, or unpinned and open to eviction.
-/

namespace BufferPool

/-- One slot of a pool. If it is dirty, its bytes may differ from those on the device. -/
structure Frame where
  page : Option PageId := none
  pins : UInt32 := 0
  dirty : Bool := false
  data : Page := Page.zero
  deriving DecidableEq

def Frame.empty : Frame := {}

/-- A pool of `n` frames on a device. The table has the frame of every cached page, and the next
free frame to use is the first. The replacer tracks the unpinned frames. The log is kept for
recovery, and no operation of the pool uses it. -/
structure Pool (δ : Type) (n : Nat) where
  frames : Vector Frame n
  table : Std.ExtTreeMap PageId (Fin n)
  free : List (Fin n)
  replacer : Replacer (Fin n)
  device : δ
  log : Option Log := none
  stats : Stats := {}

namespace Pool

variable {δ : Type} {n : Nat}

def create (replacer : Replacer (Fin n)) (device : δ) (log : Option Log) : Pool δ n where
  frames := Vector.replicate n Frame.empty
  table := ∅
  free := List.finRange n
  replacer := replacer
  device := device
  log := log

def ofConfig (c : Config) (device : δ) (log : Option Log) :
    Except ConfigError (Pool δ c.poolSize) :=
  match c.validate, Replacer.ofPolicy c.poolSize c.policy with
  | .error e, _ => .error e
  | .ok (), .ok replacer => .ok (create replacer device log)
  | .ok (), .error .zeroK => .error .zeroK

def frameOf? (b : Pool δ n) (p : PageId) : Option (Fin n) := b.table[p]?

def isCached (b : Pool δ n) (p : PageId) : Bool := (b.frameOf? p).isSome

def pinCount? (b : Pool δ n) (p : PageId) : Option UInt32 :=
  (b.frameOf? p).map fun f => (b.frames.get f).pins

def isDirty? (b : Pool δ n) (p : PageId) : Option Bool :=
  (b.frameOf? p).map fun f => (b.frames.get f).dirty

def freeCount (b : Pool δ n) : Nat := b.free.length

def evictableCount (b : Pool δ n) : Nat := b.replacer.size

def modifyFrame (b : Pool δ n) (f : Fin n) (g : Frame → Frame) : Pool δ n :=
  { b with frames := b.frames.set f (g (b.frames.get f)) }

def modifyStats (b : Pool δ n) (g : Stats → Stats) : Pool δ n := { b with stats := g b.stats }

/-- Writes into the bytes of a frame, which stays as clean or dirty as it was. -/
def writeFrame (b : Pool δ n) (f : Fin n) (offset : Nat) (new : Bytes) : Pool δ n :=
  b.modifyFrame f fun x => { x with data := x.data.write offset new }

end Pool

end BufferPool
