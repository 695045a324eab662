import Mathlib.Logic.Function.Basic
import BufferPool.Pool.Operations

/-! # Sessions

A session is a pool in use. Its users call the pool, write into the bytes of
frames, and flush pages in three steps, so that other actions may come into the
window. A session keeps account of the pins of every page and of the flushes
that were begun.
-/

namespace BufferPool

inductive Call where
  | new
  | fetch (p : PageId)
  | unpin (p : PageId) (dirty : Bool)
  | flush (p : PageId)
  | flushAll
  | delete (p : PageId)
  deriving DecidableEq, Repr

/-- The pins of a page since it was last loaded or created. -/
structure Pins where
  handed : Nat := 0
  returned : Nat := 0
  deriving DecidableEq, Repr

namespace Pins

def held (a : Pins) : Nat := a.handed - a.returned

def first : Pins := ⟨1, 0⟩

def handOut (a : Pins) : Pins := { a with handed := a.handed + 1 }

def takeBack (a : Pins) : Pins := { a with returned := a.returned + 1 }

end Pins

inductive Stage where
  | opened
  | written (answer : Except PoolError Unit)
  | closed (answer : Except PoolError Unit)

/-- A flush that opened a window, and how far it has come. -/
structure Flight (n : Nat) where
  window : Pool.Window n
  stage : Stage

namespace Flight

variable {n : Nat}

def isOpen (w : Flight n) : Bool :=
  match w.stage with
  | .closed _ => false
  | _ => true

/-- The flag of the page was cleared, and its bytes have not been written since. -/
def isUnsaved (w : Flight n) : Bool :=
  match w.stage with
  | .opened | .written (.error _) => true
  | _ => false

def isOpenOn (p : PageId) (w : Flight n) : Bool := w.isOpen && w.window.page == p

def isUnsavedOn (p : PageId) (w : Flight n) : Bool := w.isUnsaved && w.window.page == p

end Flight

/-- What the users of a pool can do to it. Bytes are put into a frame at an offset, and a window is
named by the number of those opened before. -/
inductive Action (n : Nat) where
  | call (c : Call)
  | put (f : Fin n) (offset : Nat) (new : Bytes)
  | beginFlush (p : PageId)
  | writeWindow (i : Nat)
  | closeWindow (i : Nat)
  deriving DecidableEq

namespace Pool

variable {δ : Type} [Device δ] {n : Nat}

def after (b : Pool δ n) : Call → Pool δ n
  | .new => b.new.2
  | .fetch p => (b.fetch p).2
  | .unpin p dirty => (b.unpin p dirty).2
  | .flush p => (b.flush p).2
  | .flushAll => b.flushAll.2
  | .delete p => (b.delete p).2

/-- The page that a call of `new` answers, if it answers one. -/
def created? (b : Pool δ n) : Option PageId :=
  match b.new.1 with
  | .ok (some f) => (b.new.2.frames.get f).page
  | _ => none

/-- The account of the pins after a call. It starts anew for a page that comes in. -/
def account (b : Pool δ n) (pins : PageId → Pins) : Call → PageId → Pins
  | .new =>
    match b.new with
    | (.ok (some f), b') =>
      match (b'.frames.get f).page with
      | some p => Function.update pins p .first
      | none => pins
    | _ => pins
  | .fetch p =>
    match (b.fetch p).1 with
    | .ok (some _) =>
      Function.update pins p (if b.isCached p then (pins p).handOut else .first)
    | _ => pins
  | .unpin p dirty =>
    if (b.unpin p dirty).1 then Function.update pins p (pins p).takeBack else pins
  | .flush _ | .flushAll | .delete _ => pins

end Pool

/-- A pool in use, with the flushes that opened a window in the order in which they did, and the
pins of every page. -/
structure Session (δ : Type) (n : Nat) where
  pool : Pool δ n
  flights : List (Flight n) := []
  pins : PageId → Pins := fun _ => {}

namespace Session

variable {δ : Type} [Device δ] {n : Nat}

def start (b : Pool δ n) : Session δ n where
  pool := b

def step (s : Session δ n) : Action n → Session δ n
  | .call c => { s with pool := s.pool.after c, pins := s.pool.account s.pins c }
  | .put f offset new => { s with pool := s.pool.writeFrame f offset new }
  | .beginFlush p =>
    match s.pool.beginFlush p with
    | (.done _, b) => { s with pool := b }
    | (.window w, b) => { s with pool := b, flights := s.flights ++ [⟨w, .opened⟩] }
  | .writeWindow i =>
    match s.flights[i]? with
    | some ⟨w, .opened⟩ =>
      let (answer, b) := s.pool.writeWindow w
      { s with pool := b, flights := s.flights.set i ⟨w, .written answer⟩ }
    | _ => s
  | .closeWindow i =>
    match s.flights[i]? with
    | some ⟨w, .written answer⟩ =>
      { s with pool := s.pool.closeWindow w answer, flights := s.flights.set i ⟨w, .closed answer⟩ }
    | _ => s

def run (s : Session δ n) (as : List (Action n)) : Session δ n := as.foldl step s

@[simp] theorem run_nil (s : Session δ n) : s.run [] = s := rfl

@[simp] theorem run_cons (s : Session δ n) (a : Action n) (as : List (Action n)) :
    s.run (a :: as) = (s.step a).run as := rfl

theorem run_append (s : Session δ n) (as bs : List (Action n)) :
    s.run (as ++ bs) = (s.run as).run bs :=
  List.foldl_append

/-- The number of flushes of `p` that are in their window. -/
def windowsOn (s : Session δ n) (p : PageId) : Nat := s.flights.countP (Flight.isOpenOn p)

/-- The users' pins and those of the flushes, together, fit into the count of a frame. -/
def PinsFit (s : Session δ n) : Prop := ∀ p, (s.pins p).held + s.windowsOn p < UInt32.size

/-- While a page is being flushed, only pins that are out are given back. -/
def Fair (s : Session δ n) : Action n → Prop
  | .call (.unpin p _) => s.windowsOn p = 0 ∨ (s.pins p).returned < (s.pins p).handed
  | _ => True

instance (s : Session δ n) : (a : Action n) → Decidable (s.Fair a)
  | .call (.unpin p _) =>
    inferInstanceAs (Decidable (s.windowsOn p = 0 ∨ (s.pins p).returned < (s.pins p).handed))
  | .call .new | .call (.fetch _) | .call (.flush _) | .call .flushAll | .call (.delete _)
  | .put .. | .beginFlush _ | .writeWindow _ | .closeWindow _ => isTrue trivial

def Along (P : Session δ n → Action n → Prop) : Session δ n → List (Action n) → Prop
  | _, [] => True
  | s, a :: as => P s a ∧ Along P (s.step a) as

instance decidableAlong {P : Session δ n → Action n → Prop} [∀ s a, Decidable (P s a)] :
    (s : Session δ n) → (as : List (Action n)) → Decidable (Along P s as)
  | _, [] => isTrue trivial
  | s, a :: as =>
    have := decidableAlong (P := P) (s.step a) as
    inferInstanceAs (Decidable (P s a ∧ Along P (s.step a) as))

theorem Along.imp {P Q : Session δ n → Action n → Prop} {s : Session δ n} {as : List (Action n)}
    (hPQ : ∀ s a, P s a → Q s a) (h : Along P s as) : Along Q s as := by
  induction as generalizing s with
  | nil => trivial
  | cons a as ih => exact ⟨hPQ s a h.1, ih h.2⟩

theorem along_and {P Q : Session δ n → Action n → Prop} {s : Session δ n}
    {as : List (Action n)} :
    Along (fun s a => P s a ∧ Q s a) s as ↔ Along P s as ∧ Along Q s as := by
  induction as generalizing s with
  | nil => simp only [Along, and_self]
  | cons a as ih => simp only [Along, ih, and_and_and_comm]

theorem along_append {P : Session δ n → Action n → Prop} {s : Session δ n}
    {as bs : List (Action n)} : Along P s (as ++ bs) ↔ Along P s as ∧ Along P (s.run as) bs := by
  induction as generalizing s with
  | nil => simp only [List.nil_append, Along, true_and, run_nil]
  | cons a as ih => simp only [List.cons_append, Along, ih, run_cons, and_assoc]

def Orderly (s : Session δ n) (a : Action n) : Prop := s.Fair a ∧ (s.step a).PinsFit

end Session

end BufferPool
