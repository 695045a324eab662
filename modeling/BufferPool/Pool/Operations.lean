import BufferPool.Pool.Flush

/-! # Pool operations

Fetching, creating, releasing and deleting pages. A page that comes in takes a
free frame, or else the frame of the replacer's victim, which is written back
first if it is dirty. A pool operation answers and leaves the pool in its next
state, also when it fails.
-/

namespace BufferPool

namespace Pool

variable {δ : Type} [Device δ] {n : Nat}

/-- Drops the page of an unpinned frame, written back if it is dirty. If that fails, the frame
keeps its page and stays next in line. -/
def evict (b : Pool δ n) (f : Fin n) : Except PoolError Unit × Pool δ n :=
  let dropped (b : Pool δ n) : Pool δ n :=
    { b with replacer := b.replacer.remove f }.modifyStats fun s =>
      { s with evictions := s.evictions + 1 }
  match (b.frames.get f).page with
  | none => (.ok (), dropped b)
  | some p =>
    match b.flushNow p with
    | (.error e, b) => (.error e, b)
    | (.ok _, b) => (.ok (), dropped { b with table := b.table.erase p })

/-- Secures a frame for a page to come, or none if every frame is pinned. -/
def takeFrame (b : Pool δ n) : Except PoolError (Option (Fin n)) × Pool δ n :=
  match b.free with
  | f :: rest => (.ok (some f), { b with free := rest })
  | [] =>
    match b.replacer.peek with
    | none => (.ok none, b)
    | some f =>
      let (evicted, b) := b.evict f
      (evicted.map fun _ => some f, b)

def install (b : Pool δ n) (f : Fin n) (p : PageId) (data : Page) : Pool δ n :=
  { b.modifyFrame f fun _ => { page := some p, pins := 1, dirty := false, data } with
    table := b.table.insert p f
    replacer := b.replacer.pin f }

def releaseFrame (b : Pool δ n) (f : Fin n) : Pool δ n :=
  { b.modifyFrame f fun _ => Frame.empty with free := b.free ++ [f] }

/-- Pins a page, read from the device if it is not cached. There is none if every frame is pinned or
the device does not know the page. -/
def fetch (b : Pool δ n) (p : PageId) : Except PoolError (Option (Fin n)) × Pool δ n :=
  if p = PageId.invalid then (.ok none, b)
  else
    match b.frameOf? p with
    | some f =>
      let b := b.modifyStats fun s => { s with fetches := s.fetches + 1, hits := s.hits + 1 }
      let b := b.modifyFrame f fun x => { x with pins := x.pins + 1 }
      (.ok (some f), { b with replacer := b.replacer.pin f })
    | none =>
      let b := b.modifyStats fun s => { s with fetches := s.fetches + 1, misses := s.misses + 1 }
      match b.takeFrame with
      | (.error e, b) => (.error e, b)
      | (.ok none, b) => (.ok none, b)
      | (.ok (some f), b) =>
        match Device.read p b.device with
        | (.ok data, device) => (.ok (some f), { b with device }.install f p data)
        | (.error e, device) =>
          (if e.isMissing then .ok none else .error (.reading p e),
            { b with device }.releaseFrame f)

/-- Allocates until an id comes up that is not in use, and answers it with the ids before it, which
were. After `fuel` allocations there is no unused id. -/
def searchId (inUse : PageId → Bool) : (fuel : Nat) → δ → Except DiskError PageId × List PageId × δ
  | 0, d => (.error .invalidPageId, [], d)
  | fuel + 1, d =>
    match Device.allocate d with
    | (.error e, d) => (.error e, [], d)
    | (.ok p, d) =>
      if inUse p then
        let (answer, skipped, d) := searchId inUse fuel d
        (answer, p :: skipped, d)
      else (.ok p, [], d)

def releaseEach : List PageId → δ → Except PoolError Unit × δ
  | [], d => (.ok (), d)
  | p :: ps, d =>
    match Device.deallocate p d with
    | (.ok (), d) => releaseEach ps d
    | (.error e, d) => (.error (.releasing p e), d)

/-- Allocates an id that no frame holds. The id of a page that was deleted while pinned can come up
before its frame lets go of it. Such ids are skipped and given back. A device that keeps its ids
apart hands out an unused one after as many allocations as there are cached pages. -/
def allocateUnused (b : Pool δ n) : Except PoolError PageId × Pool δ n :=
  let (answer, skipped, device) := searchId b.isCached (b.table.size + 1) b.device
  match releaseEach skipped device with
  | (.error e, device) => (.error e, { b with device })
  | (.ok (), device) => (answer.mapError .allocating, { b with device })

/-- Allocates a page on the device and pins a frame of zeros for it, or none if every frame is
pinned. -/
def new (b : Pool δ n) : Except PoolError (Option (Fin n)) × Pool δ n :=
  match b.takeFrame with
  | (.error e, b) => (.error e, b)
  | (.ok none, b) => (.ok none, b)
  | (.ok (some f), b) =>
    match b.allocateUnused with
    | (.error e, b) => (.error e, b.releaseFrame f)
    | (.ok p, b) =>
      (.ok (some f), (b.install f p Page.zero).modifyStats fun s =>
        { s with allocations := s.allocations + 1 })

def unpin (b : Pool δ n) (p : PageId) (dirty : Bool) : Bool × Pool δ n :=
  match b.frameOf? p with
  | none => (false, b)
  | some f =>
    let pins := (b.frames.get f).pins
    if pins = 0 then (false, b)
    else
      let b := b.modifyFrame f fun x => { x with pins := pins - 1, dirty := x.dirty || dirty }
      (true, if pins = 1 then { b with replacer := b.replacer.unpin f } else b)

/-- Deallocates a page on the device and drops it from the pool. A pinned page is deallocated too,
but it keeps its frame, and the answer is `false`. -/
def delete (b : Pool δ n) (p : PageId) : Except PoolError Bool × Pool δ n :=
  match Device.deallocate p b.device with
  | (.error e, device) => (.error (.deallocating p e), { b with device })
  | (.ok (), device) =>
    let b := { b with device }
    let counted (b : Pool δ n) := b.modifyStats fun s => { s with deletions := s.deletions + 1 }
    match b.frameOf? p with
    | none => (.ok true, counted b)
    | some f =>
      if (b.frames.get f).pins = 0 then
        let b := { b with table := b.table.erase p, replacer := b.replacer.remove f }
        (.ok true, counted (b.releaseFrame f))
      else (.ok false, b)

end Pool

end BufferPool
