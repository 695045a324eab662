import BufferPool.Pool.Basic
import BufferPool.Pool.Error

/-! # Flushing

Writing dirty pages back to the device. The flush of a pinned page leaves a
window: the frame has an extra pin and a clean flag, the write is still to
come, and other operations may run before it. `beginFlush` opens the window,
`writeWindow` writes, `closeWindow` takes the pin back, and a flush that is
left alone does one after the other.
-/

namespace BufferPool

namespace Pool

variable {δ : Type} [Device δ] {n : Nat}

/-- Writes a page to the device. A page that the device does not know has nowhere to go, and its
bytes are dropped. -/
def writeBack (b : Pool δ n) (p : PageId) (data : Page) : Except PoolError Unit × Pool δ n :=
  match Device.write p data b.device with
  | (.ok (), device) =>
    (.ok (), { b with device }.modifyStats fun s => { s with writeBacks := s.writeBacks + 1 })
  | (.error e, device) =>
    (if e.isMissing then .ok () else .error (.writingBack p e), { b with device })

/-- Writes a page back if it is cached and dirty, in one step. Answers whether it is cached. -/
def flushNow (b : Pool δ n) (p : PageId) : Except PoolError Bool × Pool δ n :=
  match b.frameOf? p with
  | none => (.ok false, b)
  | some f =>
    if (b.frames.get f).dirty then
      match b.writeBack p (b.frames.get f).data with
      | (.error e, b) => (.error e, b)
      | (.ok (), b) => (.ok true, b.modifyFrame f fun x => { x with dirty := false })
    else (.ok true, b)

/-- A flush whose write is still to come. -/
structure Window (n : Nat) where
  page : PageId
  frame : Fin n
  deriving DecidableEq

/-- How a flush begins: it is over at once, or it has opened a window. -/
inductive FlushStart (n : Nat) where
  | done (answer : Except PoolError Bool)
  | window (w : Window n)

def beginFlush (b : Pool δ n) (p : PageId) : FlushStart n × Pool δ n :=
  match b.frameOf? p with
  | none => (.done (.ok false), b)
  | some f =>
    if (b.frames.get f).pins = 0 then
      let (answer, b) := b.flushNow p
      (.done answer, b)
    else if (b.frames.get f).dirty then
      (.window ⟨p, f⟩, b.modifyFrame f fun x => { x with pins := x.pins + 1, dirty := false })
    else (.done (.ok true), b)

def writeWindow (b : Pool δ n) (w : Window n) : Except PoolError Unit × Pool δ n :=
  b.writeBack w.page (b.frames.get w.frame).data

/-- Takes back the extra pin. After a failed write the frame is dirty again. -/
def closeWindow (b : Pool δ n) (w : Window n) (written : Except PoolError Unit) : Pool δ n :=
  let last := (b.frames.get w.frame).pins = 1
  let b := b.modifyFrame w.frame fun x =>
    { x with pins := x.pins - 1, dirty := x.dirty || !written.isOk }
  if last then { b with replacer := b.replacer.unpin w.frame } else b

def finishFlush (b : Pool δ n) (w : Window n) : Except PoolError Bool × Pool δ n :=
  let (written, b) := b.writeWindow w
  (written.map fun _ => true, b.closeWindow w written)

/-- Writes a page back if it is cached and dirty, pinned or not. Answers whether it is cached. -/
def flush (b : Pool δ n) (p : PageId) : Except PoolError Bool × Pool δ n :=
  match b.beginFlush p with
  | (.done answer, b) => (answer, b)
  | (.window w, b) => b.finishFlush w

def flushEach (b : Pool δ n) : List PageId → Except PoolError Unit × Pool δ n
  | [] => (.ok (), b)
  | p :: ps =>
    match b.flush p with
    | (.ok _, b) => b.flushEach ps
    | (.error e, b) => (.error e, b)

def cachedPages (b : Pool δ n) : List PageId := b.frames.toList.filterMap Frame.page

def flushAll (b : Pool δ n) : Except PoolError Unit × Pool δ n := b.flushEach b.cachedPages

end Pool

end BufferPool
