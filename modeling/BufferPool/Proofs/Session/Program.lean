import Mathlib.Data.List.Dedup
import BufferPool.Proofs.Session.Basic

/-! # Programs

Clients of a pool know pages by their ids. They see which page was created, the
bytes of a page that was fetched, and whether a page was released or deleted,
but neither frames nor what a flush did. From that they keep books of the pages.
-/

namespace BufferPool

open Pool

inductive Command where
  | call (c : Call)
  | put (p : PageId) (offset : Nat) (new : Bytes)
  deriving DecidableEq, Repr

inductive Answer where
  | created (answer : Except PoolError (Option PageId))
  | fetched (answer : Except PoolError (Option Page))
  | released (answer : Bool)
  | deleted (answer : Except PoolError Bool)
  | done

/-- Clients. What they do next may depend on the answers so far. -/
inductive Program where
  | done
  | ask (c : Command) (next : Answer → Program)

section Serving

variable {δ : Type} [Device δ] {n : Nat}

def Pool.answer (b : Pool δ n) : Call → Answer
  | .new =>
    let (answer, b) := b.new
    .created (answer.map fun f? => f?.bind fun f => (b.frames.get f).page)
  | .fetch p =>
    let (answer, b) := b.fetch p
    .fetched (answer.map fun f? => f?.map fun f => (b.frames.get f).data)
  | .unpin p dirty => .released (b.unpin p dirty).1
  | .delete p => .deleted (b.delete p).1
  | .flush _ | .flushAll => .done

def Session.serve (s : Session δ n) : Command → Answer × Session δ n
  | .call c => (s.pool.answer c, s.step (.call c))
  | .put p offset new =>
    match s.pool.frameOf? p with
    | some f => (.done, s.step (.put f offset new))
    | none => (.done, s)

def Program.answers : Program → Session δ n → List Answer
  | done, _ => []
  | ask c next, s => (s.serve c).1 :: (next (s.serve c).1).answers (s.serve c).2

end Serving

/-- What clients can tell about the pages from the answers: the page of every pin that is out, which
pages were written to and have had no pin given back dirty since, their contents, the first id that
no page has had, and the ids of deleted pages that none has had since, the longest deleted first. -/
structure Books where
  pins : List PageId := []
  unmarked : PageId → Bool := fun _ => false
  contents : PageId → Option Page := fun _ => none
  next : PageId := 0
  freeIds : List PageId := []

namespace Books

def note (k : Books) : Command → Answer → Books
  | .call .new, .created (.ok (some p)) => { k with
      pins := p :: k.pins
      unmarked := Function.update k.unmarked p false
      contents := Function.update k.contents p (some Page.zero)
      next := if k.freeIds = [] then k.next + 1 else k.next
      freeIds := k.freeIds.tail }
  | .call (.fetch p), .fetched (.ok (some _)) => { k with pins := p :: k.pins }
  | .call (.unpin p dirty), .released true => { k with
      pins := k.pins.erase p
      unmarked := Function.update k.unmarked p (k.unmarked p && !dirty) }
  | .call (.delete p), .deleted (.ok _) => { k with
      contents := Function.update k.contents p none
      freeIds := if (k.contents p).isSome then k.freeIds ++ [p] else k.freeIds }
  | .put p offset new, _ => { k with
      unmarked := Function.update k.unmarked p true
      contents := Function.update k.contents p ((k.contents p).map fun x => x.write offset new) }
  | _, _ => k

/-- Clients write into pages that they hold, and mark them dirty before they let go of them. They
give back pins that are out, and delete no page that is held. The pins of a page do not run out. -/
def Allows (k : Books) : Command → Prop
  | .put p _ _ => p ∈ k.pins
  | .call (.unpin p dirty) =>
    p ∈ k.pins ∧ (k.unmarked p = true → dirty = true ∨ p ∈ k.pins.erase p)
  | .call (.delete p) => p ∉ k.pins
  | .call (.fetch p) => k.pins.count p + 1 < UInt32.size
  | .call .new | .call (.flush _) | .call .flushAll => True

instance (k : Books) : (c : Command) → Decidable (k.Allows c)
  | .put p _ _ => inferInstanceAs (Decidable (p ∈ k.pins))
  | .call (.unpin p dirty) => inferInstanceAs (Decidable
      (p ∈ k.pins ∧ (k.unmarked p = true → dirty = true ∨ p ∈ k.pins.erase p)))
  | .call (.delete p) => inferInstanceAs (Decidable (p ∉ k.pins))
  | .call (.fetch p) => inferInstanceAs (Decidable (k.pins.count p + 1 < UInt32.size))
  | .call .new | .call (.flush _) | .call .flushAll => isTrue trivial

/-- Each of `n` frames is needed for a page that is held. -/
def IsFull (k : Books) (n : Nat) : Prop := k.pins.dedup.length = n

instance (k : Books) (n : Nat) : Decidable (k.IsFull n) :=
  inferInstanceAs (Decidable (_ = _))

/-- What `n` frames answer, whichever pages are in them. -/
def answer (k : Books) (n : Nat) : Command → Answer
  | .call .new => .created (.ok (if k.IsFull n then none else some (k.freeIds.headD k.next)))
  | .call (.fetch p) => .fetched (.ok (if k.IsFull n ∧ p ∉ k.pins then none else k.contents p))
  | .call (.unpin p _) => .released (k.pins.contains p)
  | .call (.delete _) => .deleted (.ok true)
  | .call (.flush _) | .call .flushAll | .put .. => .done

end Books

namespace Program

variable {δ : Type} [Device δ] {n : Nat}

/-- The books allow every command of the program, and there is always an id left. -/
def Heeds : Program → Session δ n → Books → Prop
  | done, _, _ => True
  | ask c next, s, k => k.next ≠ PageId.invalid ∧ k.Allows c ∧
      (next (s.serve c).1).Heeds (s.serve c).2 (k.note c (s.serve c).1)

instance decidableHeeds : (t : Program) → (s : Session δ n) → (k : Books) →
    Decidable (t.Heeds s k)
  | done, _, _ => isTrue trivial
  | ask c next, s, k =>
    have := decidableHeeds (next (s.serve c).1) (s.serve c).2 (k.note c (s.serve c).1)
    inferInstanceAs (Decidable (k.next ≠ PageId.invalid ∧ k.Allows c ∧ _))

end Program

end BufferPool
