import BufferPool.Guard
import BufferPool.Proofs.Session.History

/-! # Clients

Clients reach the bytes of pages through guards only. Beside the session that
they share stand the guards that they hold and, for every page that was created
and not deleted since, what was last written to it.
-/

namespace BufferPool

open Pool

/-- What clients do. A guard is named by the number of guards before it. -/
inductive Deed where
  | read (p : PageId)
  | write (p : PageId)
  | create
  | put (i : Nat) (offset : Nat) (new : Bytes)
  | drop (i : Nat)
  | flush (p : PageId)
  | flushAll
  | delete (p : PageId)
  | beginFlush (p : PageId)
  | writeWindow (i : Nat)
  | closeWindow (i : Nat)
  deriving DecidableEq, Repr

/-- A session used through guards: the guards in the order in which they came, and `none` for those
that were dropped. The contents are what a page should hold. -/
structure Clients (δ : Type) (n : Nat) where
  session : Session δ n
  guards : List (Option (Guard n)) := []
  contents : PageId → Option Page := fun _ => none

namespace Clients

variable {δ : Type} [Device δ] {n : Nat}

def start (b : Pool δ n) : Clients δ n where
  session := .start b

def take (s : Clients δ n) (c : Call) (answer : Except PoolError (Option (Guard n)))
    (b : Pool δ n) : Clients δ n :=
  { s with
    session := { s.session with pool := b, pins := s.session.pool.account s.session.pins c }
    guards := match answer with
      | .ok (some g) => s.guards ++ [some g]
      | _ => s.guards }

def act (s : Clients δ n) (a : Action n) : Clients δ n := { s with session := s.session.step a }

def step (s : Clients δ n) : Deed → Clients δ n
  | .read p =>
    let (answer, b) := s.session.pool.readGuard p
    s.take (.fetch p) answer b
  | .write p =>
    let (answer, b) := s.session.pool.writeGuard p
    s.take (.fetch p) answer b
  | .create =>
    let (answer, b) := s.session.pool.newGuard
    { s.take .new answer b with contents := match answer with
      | .ok (some g) => Function.update s.contents g.page (some Page.zero)
      | _ => s.contents }
  | .put i offset new =>
    match s.guards[i]? with
    | some (some g) =>
      match g.write? offset new s.session.pool with
      | some (g, b) => { s with
          session := { s.session with pool := b }
          guards := s.guards.set i (some g)
          contents := Function.update s.contents g.page
            ((s.contents g.page).map fun x => x.write offset new) }
      | none => s
    | _ => s
  | .drop i =>
    match s.guards[i]? with
    | some (some g) => { s with
        session := { s.session with
          pool := g.drop s.session.pool
          pins := s.session.pool.account s.session.pins (.unpin g.page g.dirty) }
        guards := s.guards.set i none }
    | _ => s
  | .flush p => s.act (.call (.flush p))
  | .flushAll => s.act (.call .flushAll)
  | .delete p =>
    { s.act (.call (.delete p)) with contents :=
      if (s.session.pool.delete p).1.isOk then Function.update s.contents p none else s.contents }
  | .beginFlush p => s.act (.beginFlush p)
  | .writeWindow i => s.act (.writeWindow i)
  | .closeWindow i => s.act (.closeWindow i)

def run (s : Clients δ n) (ds : List Deed) : Clients δ n := ds.foldl step s

def guardsOn (s : Clients δ n) (p : PageId) : Nat :=
  s.guards.countP fun g => g.any fun g => g.page == p

/-- A guard of the page will mark it dirty when it is dropped. -/
def Owed (s : Clients δ n) (p : PageId) : Prop :=
  ∃ g, some g ∈ s.guards ∧ g.page = p ∧ g.dirty = true

/-- The action hands out no pin, takes none back, and changes no bytes. -/
def IsQuiet : Action n → Prop
  | .call (.flush _) | .call .flushAll | .beginFlush _ | .writeWindow _ | .closeWindow _ => True
  | .call _ | .put .. => False

def Along (P : Clients δ n → Deed → Prop) : Clients δ n → List Deed → Prop
  | _, [] => True
  | s, d :: ds => P s d ∧ Along P (s.step d) ds

theorem along_append {P : Clients δ n → Deed → Prop} {s : Clients δ n} {ds es : List Deed} :
    Along P s (ds ++ es) ↔ Along P s ds ∧ Along P (s.run ds) es := by
  induction ds generalizing s with
  | nil => exact (and_iff_right trivial).symm
  | cons d ds ih => simp only [List.cons_append, Along, ih, run, List.foldl_cons, and_assoc]

/-- Neither the pins of a page nor the ids of the device run out. -/
def Fits [Lawful δ] (s : Clients δ n) (d : Deed) : Prop :=
  (s.step d).session.PinsFit ∧ Storage.Room s.session.pool.device 1

/-- Clients can bring it about, on a device whose books were in order. -/
def Reachable [Lawful δ] {c : Config} (s : Clients δ c.poolSize) : Prop :=
  ∃ (d : δ) (log : Option Log) (b : Pool δ c.poolSize) (ds : List Deed),
    Storage.Ok d ∧ Pool.ofConfig c d log = .ok b ∧ (start b).Along Fits ds ∧ s = (start b).run ds

section Steps

omit [Device δ] in
theorem of_write? {g g' : Guard n} {offset : Nat} {new : Bytes} {b b' : Pool δ n}
    (hw : g.write? offset new b = some (g', b')) : g'.page = g.page ∧ g'.frame = g.frame ∧
      g'.dirty = true ∧ b' = b.writeFrame g.frame offset new := by
  obtain ⟨p, f, _ | dirty⟩ := g
  · cases hw
  · cases hw
    exact ⟨rfl, rfl, rfl, rfl⟩

theorem page_of_fetchGuarded {b b' : Pool δ n} {p : PageId} {access : Access} {g : Guard n}
    (hf : b.fetchGuarded p access = (.ok (some g), b')) : g.page = p := by
  simp only [fetchGuarded] at hf
  rcases hb : b.fetch p with ⟨_ | _ | f, b''⟩ <;> rw [hb] at hf <;> cases hf
  rfl

theorem of_newGuard {b b' : Pool δ n} {g : Guard n} (hnew : b.newGuard = (.ok (some g), b')) :
    b.new = (.ok (some g.frame), b') ∧ g.dirty = false := by
  simp only [newGuard] at hnew
  rcases hn : b.new with ⟨_ | _ | f, b''⟩ <;> rw [hn] at hnew
  · cases hnew
  · cases hnew
  · rcases hp : (b''.frames.get f).page with _ | p
    · simp only [hp, Option.bind_some, Option.map_none] at hnew
      cases hnew
    · simp only [hp, Option.bind_some, Option.map_some] at hnew
      cases hnew
      exact ⟨rfl, rfl⟩

theorem take_fetch (s : Clients δ n) (p : PageId) (access : Access) :
    s.take (.fetch p) (s.session.pool.fetchGuarded p access).1
        (s.session.pool.fetchGuarded p access).2 =
      { s.act (.call (.fetch p)) with guards := match (s.session.pool.fetch p).1 with
        | .ok (some f) => s.guards ++ [some ⟨p, f, access⟩]
        | _ => s.guards } := by
  simp only [take, act, Session.step, after, fetchGuarded]
  rcases (s.session.pool.fetch p) with ⟨_ | _ | f, b⟩ <;> rfl

theorem step_create (s : Clients δ n) :
    (∃ p f, s.session.pool.new.1 = .ok (some f) ∧
      ((s.session.step (.call .new)).pool.frames.get f).page = some p ∧
      (s.session.step (.call .new)).pins = Function.update s.session.pins p .first ∧
      s.session.pool.newGuard =
        (.ok (some ⟨p, f, .write false⟩), (s.session.step (.call .new)).pool) ∧
      s.step .create = { s.act (.call .new) with
        guards := s.guards ++ [some ⟨p, f, .write false⟩]
        contents := Function.update s.contents p (some Page.zero) }) ∨
    (s.session.step (.call .new)).pins = s.session.pins ∧
      (∀ g, s.session.pool.newGuard.1 ≠ .ok (some g)) ∧ s.step .create = s.act (.call .new) := by
  rcases hn : s.session.pool.new with ⟨_ | _ | f, b⟩
  · refine Or.inr ⟨?_, ?_, ?_⟩ <;>
      simp [step, take, act, Session.step, after, account, newGuard, hn]
  · refine Or.inr ⟨?_, ?_, ?_⟩ <;>
      simp [step, take, act, Session.step, after, account, newGuard, hn]
  · rcases hp : (b.frames.get f).page with _ | p
    · refine Or.inr ⟨?_, ?_, ?_⟩ <;>
        simp [step, take, act, Session.step, after, account, newGuard, hn, hp]
    · refine Or.inl ⟨p, f, rfl, ?_, ?_, ?_, ?_⟩ <;>
        simp only [step, take, act, Session.step, after, account, newGuard, hn, hp,
          Option.bind_some, Option.map_some]

theorem step_contents (s : Clients δ n) (contents : PageId → Option Page) (d : Deed) :
    ∃ contents', ({ s with contents } : Clients δ n).step d =
      { s.step d with contents := contents' } := by
  cases d with
  | put i offset new =>
    simp only [step]
    rcases s.guards[i]? with _ | _ | g
    · exact ⟨_, rfl⟩
    · exact ⟨_, rfl⟩
    · rcases hw : g.write? offset new s.session.pool with _ | ⟨g', b⟩ <;> simp only [hw] <;>
        exact ⟨_, rfl⟩
  | drop i =>
    simp only [step]
    rcases s.guards[i]? with _ | _ | g <;> exact ⟨_, rfl⟩
  | _ => exact ⟨_, rfl⟩

theorem IsQuiet.pins {a : Action n} (ha : IsQuiet a) (s : Session δ n) :
    (s.step a).pins = s.pins := by
  cases a with
  | call c => cases c <;> first | rfl | cases ha
  | put => rfl
  | beginFlush | writeWindow | closeWindow =>
    simp only [Session.step]
    split <;> rfl

end Steps

end Clients

end BufferPool
