import BufferPool.Proofs.Pool.Tidy
import BufferPool.Proofs.Session.Basic

/-! # Moves

Every action of a session is a chain of moves: elementary changes that keep
the pool sound, each with its condition and its effect spelled out. What holds
of every move holds of every action, so an invariant is checked move by move.
-/

namespace BufferPool

/-- What a move does. When bytes are to be written, they are `saved`, or `dropped` if the device
does not know the page, or the device has `refused`. A page that is deallocated is `condemned` if it
is pinned, `freed` if it loses its frame, and else `deleted`. -/
inductive Event (n : Nat) where
  | missed (p : PageId)
  | hit (p : PageId) (f : Fin n)
  | saved (p : PageId) (f : Fin n)
  | dropped (p : PageId) (f : Fin n)
  | refused (p : PageId) (f : Fin n)
  | evicted (p : PageId) (f : Fin n)
  | loaded (p : PageId) (f : Fin n)
  | unread (p : PageId) (f : Fin n)
  | created (p : PageId) (f : Fin n)
  | unallocated (f : Fin n)
  | released (p : PageId) (f : Fin n) (dirty : Bool)
  | undeleted (p : PageId)
  | deleted (p : PageId)
  | condemned (p : PageId) (f : Fin n)
  | freed (p : PageId) (f : Fin n)
  | put (f : Fin n)
  | opened (p : PageId) (f : Fin n)
  | written (i : Nat)
  | closed (i : Nat)
  deriving DecidableEq

namespace Event

variable {n : Nat}

def allocates : Event n → Bool
  | created _ _ | unallocated _ => true
  | _ => false

def deallocated? : Event n → Option PageId
  | deleted p | condemned p _ | freed p _ => some p
  | _ => none

def IsPlain : Event n → Prop
  | created _ _ | unallocated _ | deleted _ | condemned _ _ | freed _ _ | released _ _ _ | put _ =>
    False
  | _ => True

attribute [simp] allocates deallocated? IsPlain

theorem IsPlain.allocates {e : Event n} (h : e.IsPlain) : e.allocates = false := by
  cases e <;> simp_all

theorem IsPlain.deallocated? {e : Event n} (h : e.IsPlain) : e.deallocated? = none := by
  cases e <;> first | rfl | exact h.elim

theorem deallocated?_of_allocates {e : Event n} (h : e.allocates = true) :
    e.deallocated? = none := by
  cases e <;> first | rfl | cases h

end Event

namespace Session

variable {δ : Type} [Device δ] {n : Nat}

open Pool

inductive Move : Session δ n → Event n → Session δ n → Prop where

  | missed {s : Session δ n} {p : PageId} (hp : s.pool.frameOf? p = none) :
      Move s (.missed p) { s with pool := s.pool.modifyStats fun x =>
        { x with fetches := x.fetches + 1, misses := x.misses + 1 } }

  | hit {s : Session δ n} {p : PageId} {f : Fin n} (hp : s.pool.frameOf? p = some f)
      (hpins : (s.pool.frames.get f).pins + 1 ≠ 0) :
      Move s (.hit p f) { s with
        pool := { (s.pool.modifyStats fun x =>
          { x with fetches := x.fetches + 1, hits := x.hits + 1 }).modifyFrame f fun x =>
            { x with pins := x.pins + 1 } with replacer := s.pool.replacer.pin f }
        pins := Function.update s.pins p (s.pins p).handOut }

  | saved {s : Session δ n} {p : PageId} {f : Fin n} {d : δ} (hp : s.pool.frameOf? p = some f)
      (hd : (s.pool.frames.get f).dirty = true)
      (hw : Device.write p (s.pool.frames.get f).data s.pool.device = (.ok (), d)) :
      Move s (.saved p f) { s with pool :=
        ({ s.pool with device := d }.modifyStats fun x =>
          { x with writeBacks := x.writeBacks + 1 }).modifyFrame f fun x =>
            { x with dirty := false } }

  | dropped {s : Session δ n} {p : PageId} {f : Fin n} {d : δ} {e : DiskError}
      (hp : s.pool.frameOf? p = some f) (hd : (s.pool.frames.get f).dirty = true)
      (hw : Device.write p (s.pool.frames.get f).data s.pool.device = (.error e, d))
      (he : e.isMissing = true) :
      Move s (.dropped p f) { s with pool :=
        { s.pool with device := d }.modifyFrame f fun x => { x with dirty := false } }

  | refused {s : Session δ n} {p : PageId} {f : Fin n} {d : δ} {e : DiskError}
      (hp : s.pool.frameOf? p = some f) (hd : (s.pool.frames.get f).dirty = true)
      (hw : Device.write p (s.pool.frames.get f).data s.pool.device = (.error e, d))
      (he : e.isMissing = false) :
      Move s (.refused p f) { s with pool := { s.pool with device := d } }

  | evicted {s : Session δ n} {p : PageId} {f : Fin n} (hp : s.pool.frameOf? p = some f)
      (hd : (s.pool.frames.get f).dirty = false) (hf : s.pool.free = [])
      (hv : s.pool.replacer.peek = some f) :
      Move s (.evicted p f) { s with pool := (s.pool.vacate f p).modifyStats fun x =>
        { x with evictions := x.evictions + 1 } }

  | loaded {s : Session δ n} {p : PageId} {f : Fin n} {free : List (Fin n)} {data : Page} {d : δ}
      (hp : s.pool.frameOf? p = none) (hf : s.pool.free = f :: free)
      (hr : Device.read p s.pool.device = (.ok data, d)) :
      Move s (.loaded p f) { s with
        pool := { s.pool with device := d }.seat f p data
        pins := Function.update s.pins p .first }

  | unread {s : Session δ n} {p : PageId} {f : Fin n} {free : List (Fin n)} {e : DiskError} {d : δ}
      (hp : s.pool.frameOf? p = none) (hf : s.pool.free = f :: free)
      (hr : Device.read p s.pool.device = (.error e, d)) :
      Move s (.unread p f) { s with pool := { s.pool with device := d }.requeue f }

  | created {s : Session δ n} {p : PageId} {f : Fin n} {free : List (Fin n)} {b : Pool δ n}
      (hp : s.pool.frameOf? p = none) (hf : s.pool.free = f :: free)
      (ha : s.pool.allocateUnused = (.ok p, b)) :
      Move s (.created p f) { s with
        pool := ({ s.pool with device := b.device }.seat f p Page.zero).modifyStats fun x =>
          { x with allocations := x.allocations + 1 }
        pins := Function.update s.pins p .first }

  | unallocated {s : Session δ n} {f : Fin n} {free : List (Fin n)} {b : Pool δ n} {e : PoolError}
      (hf : s.pool.free = f :: free) (ha : s.pool.allocateUnused = (.error e, b)) :
      Move s (.unallocated f) { s with pool := { s.pool with device := b.device }.requeue f }

  | released {s : Session δ n} {p : PageId} {f : Fin n} {dirty : Bool}
      (hp : s.pool.frameOf? p = some f) (hpins : (s.pool.frames.get f).pins ≠ 0)
      (hs : s.windowsOn p = 0 ∨ (s.pins p).returned < (s.pins p).handed) :
      Move s (.released p f dirty) { s with
        pool := { s.pool.modifyFrame f fun x =>
            { x with pins := x.pins - 1, dirty := x.dirty || dirty } with
          replacer := if (s.pool.frames.get f).pins = 1 then s.pool.replacer.unpin f
            else s.pool.replacer }
        pins := Function.update s.pins p (s.pins p).takeBack }

  | undeleted {s : Session δ n} {p : PageId} {e : DiskError} {d : δ}
      (hd : Device.deallocate p s.pool.device = (.error e, d)) :
      Move s (.undeleted p) { s with pool := { s.pool with device := d } }

  | deleted {s : Session δ n} {p : PageId} {d : δ} (hp : s.pool.frameOf? p = none)
      (hd : Device.deallocate p s.pool.device = (.ok (), d)) :
      Move s (.deleted p) { s with pool := { s.pool with device := d }.modifyStats fun x =>
        { x with deletions := x.deletions + 1 } }

  | condemned {s : Session δ n} {p : PageId} {f : Fin n} {d : δ}
      (hp : s.pool.frameOf? p = some f) (hpins : (s.pool.frames.get f).pins ≠ 0)
      (hd : Device.deallocate p s.pool.device = (.ok (), d)) :
      Move s (.condemned p f) { s with pool := { s.pool with device := d } }

  | freed {s : Session δ n} {p : PageId} {f : Fin n} {d : δ}
      (hp : s.pool.frameOf? p = some f) (hpins : (s.pool.frames.get f).pins = 0)
      (hd : Device.deallocate p s.pool.device = (.ok (), d)) :
      Move s (.freed p f) { s with pool :=
        ({ s.pool with device := d }.discard f p).modifyStats fun x =>
          { x with deletions := x.deletions + 1 } }

  | put {s : Session δ n} {f : Fin n} {offset : Nat} {new : Bytes} :
      Move s (.put f) { s with pool := s.pool.writeFrame f offset new }

  | opened {s : Session δ n} {p : PageId} {f : Fin n} (hp : s.pool.frameOf? p = some f)
      (hpins : (s.pool.frames.get f).pins ≠ 0) (hfit : (s.pool.frames.get f).pins + 1 ≠ 0)
      (hd : (s.pool.frames.get f).dirty = true) :
      Move s (.opened p f) { s with
        pool := s.pool.modifyFrame f fun x => { x with pins := x.pins + 1, dirty := false }
        flights := s.flights ++ [⟨⟨p, f⟩, .opened⟩] }

  | written {s : Session δ n} {i : Nat} {w : Window n} (hi : s.flights[i]? = some ⟨w, .opened⟩) :
      Move s (.written i) { s with
        pool := (s.pool.writeWindow w).2
        flights := s.flights.set i ⟨w, .written (s.pool.writeWindow w).1⟩ }

  | closed {s : Session δ n} {i : Nat} {w : Window n} {answer : Except PoolError Unit}
      (hi : s.flights[i]? = some ⟨w, .written answer⟩) :
      Move s (.closed i) { s with
        pool := s.pool.closeWindow w answer
        flights := s.flights.set i ⟨w, .closed answer⟩ }

/-- The events that an action can consist of. -/
inductive Makes (s : Session δ n) : Action n → Event n → Prop where
  | plain {a : Action n} {e : Event n} (he : e.IsPlain) : Makes s a e
  | allocation {e : Event n} (he : e.allocates = true)
      (hcreated : ∀ p f, e = .created p f → s.pool.created? = some p) : Makes s (.call .new) e
  | release {p : PageId} {f : Fin n} {dirty : Bool} :
      Makes s (.call (.unpin p dirty)) (.released p f dirty)
  | deallocation {p : PageId} {e : Event n} (he : e.deallocated? = some p)
      (hok : (s.pool.delete p).1.isOk = true) : Makes s (.call (.delete p)) e
  | put {f : Fin n} {offset : Nat} {new : Bytes} : Makes s (.put f offset new) (.put f)

namespace Makes

variable {s : Session δ n} {a : Action n} {e : Event n} {p : PageId} {f : Fin n}

theorem of_released {dirty : Bool} (h : s.Makes a (.released p f dirty)) :
    a = .call (.unpin p dirty) := by
  cases h with
  | plain he => exact he.elim
  | allocation he | deallocation he => cases he
  | release => rfl

theorem of_put (h : s.Makes a (.put f)) : ∃ offset new, a = .put f offset new := by
  cases h with
  | plain he => exact he.elim
  | allocation he | deallocation he => cases he
  | put => exact ⟨_, _, rfl⟩

theorem of_created (h : s.Makes a (.created p f)) :
    a = .call .new ∧ s.pool.created? = some p := by
  cases h with
  | plain he => exact he.elim
  | allocation _ hcreated => exact ⟨rfl, hcreated p f rfl⟩
  | deallocation he => cases he

theorem of_allocates (h : s.Makes a e) (he : e.allocates = true) : a = .call .new := by
  cases h with
  | plain hplain => cases hplain.allocates.symm.trans he
  | allocation => rfl
  | release | put => cases he
  | deallocation hdel => cases (Event.deallocated?_of_allocates he).symm.trans hdel

theorem of_deallocated? (h : s.Makes a e) (hp : e.deallocated? = some p) :
    a = .call (.delete p) ∧ (s.pool.delete p).1.isOk = true := by
  cases h with
  | plain hplain => cases hplain.deallocated?.symm.trans hp
  | allocation he => cases (Event.deallocated?_of_allocates he).symm.trans hp
  | release | put => cases hp
  | deallocation hdel hok =>
    obtain rfl := Option.some.inj (hdel.symm.trans hp)
    exact ⟨rfl, hok⟩

end Makes

/-- A chain of moves, in which an allocation can only come last. -/
inductive Moves : Session δ n → List (Event n) → Session δ n → Prop where

  | nil (s : Session δ n) : Moves s [] s

  | cons {s t u : Session δ n} {e : Event n} {es : List (Event n)} :
      Move s e t → (e.allocates = true → es = []) → Moves t es u → Moves s (e :: es) u

namespace Moves

variable {s t u : Session δ n} {e : Event n} {es fs : List (Event n)}

theorem single (h : Move s e t) : Moves s [e] t := .cons h (fun _ => rfl) (.nil t)

theorem append (h : Moves s es t) (hes : ∀ e ∈ es, e.IsPlain) (h' : Moves t fs u) :
    Moves s (es ++ fs) u := by
  induction h with
  | nil => exact h'
  | cons hm _ _ ih =>
    refine .cons hm (fun ha => ?_) (ih (fun e he => hes e (List.mem_cons_of_mem _ he)) h')
    rw [(hes _ List.mem_cons_self).allocates] at ha
    cases ha

end Moves

variable {s : Session δ n} {p : PageId}

theorem flushNow_moves (s : Session δ n) (p : PageId) :
    ∃ es, Moves s es { s with pool := (s.pool.flushNow p).2 } ∧ ∀ e ∈ es, e.IsPlain := by
  rcases hp : s.pool.frameOf? p with _ | f
  · refine ⟨[], ?_, by simp⟩
    simp only [flushNow, hp]
    exact .nil s
  rcases hd : (s.pool.frames.get f).dirty with _ | _
  · refine ⟨[], ?_, by simp⟩
    rw [flushNow_of_clean hp hd]
    exact .nil s
  rcases hw : Device.write p (s.pool.frames.get f).data s.pool.device with ⟨e | _, d⟩
  · rcases he : e.isMissing with _ | _
    · refine ⟨[.refused p f], ?_, by simp⟩
      simp only [flushNow, hp, hd, if_true, writeBack, hw, he]
      exact .single (.refused hp hd hw he)
    · refine ⟨[.dropped p f], ?_, by simp⟩
      simp only [flushNow, hp, hd, if_true, writeBack, hw, he]
      exact .single (.dropped hp hd hw he)
  · refine ⟨[.saved p f], ?_, by simp⟩
    simp only [flushNow, hp, hd, if_true, writeBack, hw]
    exact .single (.saved hp hd hw)

theorem flushEach_moves (ps : List PageId) (s : Session δ n) :
    ∃ es, Moves s es { s with pool := (s.pool.flushEach ps).2 } ∧ ∀ e ∈ es, e.IsPlain := by
  apply flushEach_induction (P := fun b => ∃ es, Moves s es { s with pool := b } ∧
    ∀ e ∈ es, e.IsPlain)
  · rintro b p ⟨es, hes, hplain⟩
    obtain ⟨fs, hfs, hplain'⟩ := flushNow_moves { s with pool := b } p
    exact ⟨es ++ fs, hes.append hplain hfs, List.forall_mem_append.mpr ⟨hplain, hplain'⟩⟩
  · exact ⟨[], .nil s, by simp⟩

/-- Evicting a victim is a flush and a move of its frame to the head of the free list, from where
it is taken. What its frame still holds does not matter, since it is overwritten. -/
theorem evict_moves {f : Fin n} (hs : s.pool.Tidy) (hf : s.pool.free = [])
    (hv : s.pool.replacer.peek = some f) :
    (∃ e b es, s.pool.evict f = (.error e, b) ∧
      Moves s es { s with pool := b } ∧ ∀ e ∈ es, e.IsPlain) ∨
    ∃ b frames es, s.pool.evict f = (.ok (), { b with frames, free := b.free.tail }) ∧
      Moves s es { s with pool := b } ∧ (∀ e ∈ es, e.IsPlain) ∧ b.Tidy ∧
      b.free = f :: b.free.tail ∧ b.AgreeOff f frames ∧
      ∀ p, s.pool.frameOf? p = none → b.frameOf? p = none := by
  obtain ⟨p, hp⟩ := hs.of_peek hv
  obtain ⟨es, hes, hplain⟩ := flushNow_moves s p
  have hd := dirty_of_flushNow hp
  have hbooks := flushNow_books s.pool p
  have htidy := hs.flushNow p
  have hq := frameOf?_flushNow s.pool p
  simp only [evict, hs.page_eq hp]
  generalize s.pool.flushNow p = r at hes hd hbooks htidy hq
  obtain ⟨e | _, b⟩ := r
  · exact Or.inl ⟨e, b, es, rfl, hes, hplain⟩
  · have hfree : b.free = [] := hbooks.2.1.trans hf
    have hm := Move.evicted (s := { s with pool := b }) ((hq p).trans hp) (hd rfl) hfree
      ((congrArg _ hbooks.2.2).trans hv)
    refine Or.inr ⟨(b.vacate f p).modifyStats _, b.frames, es ++ [.evicted p f], ?_,
      hes.append hplain (.single hm), ?_, ?_, ?_, ?_, ?_⟩
    · simp only [vacate, modifyStats, modifyFrame, List.tail_cons, hfree]
    · intro e he
      rcases List.mem_append.mp he with he | he
      · exact hplain e he
      · rw [List.mem_singleton.mp he]
        trivial
    · exact (htidy.vacate ((hq p).trans hp)).congr rfl rfl rfl fun _ => rfl
    · rfl
    · intro x
      simp only [vacate, modifyStats, modifyFrame, Vector.set_set]
    · intro q hn
      rw [frameOf?_modifyStats, frameOf?_vacate]
      split
      · rfl
      · exact (hq q).trans hn

theorem takeFrame_moves (hs : s.pool.Tidy) :
    (∃ e b es, s.pool.takeFrame = (.error e, b) ∧
      Moves s es { s with pool := b } ∧ ∀ e ∈ es, e.IsPlain) ∨
    s.pool.takeFrame = (.ok none, s.pool) ∨
    ∃ f b frames es, s.pool.takeFrame = (.ok (some f), { b with frames, free := b.free.tail }) ∧
      Moves s es { s with pool := b } ∧ (∀ e ∈ es, e.IsPlain) ∧ b.Tidy ∧
      b.free = f :: b.free.tail ∧ b.AgreeOff f frames ∧
      ∀ p, s.pool.frameOf? p = none → b.frameOf? p = none := by
  rcases hf : s.pool.free with _ | ⟨f, free⟩
  · rcases hv : s.pool.replacer.peek with _ | f
    · refine Or.inr (Or.inl ?_)
      simp only [takeFrame, hf, hv]
    · rcases evict_moves hs hf hv with ⟨e, b, es, he, hes⟩ | ⟨b, frames, es, he, hes⟩
      · refine Or.inl ⟨e, b, es, ?_, hes⟩
        simp only [takeFrame, hf, hv, he]
        rfl
      · refine Or.inr (Or.inr ⟨f, b, frames, es, ?_, hes⟩)
        simp only [takeFrame, hf, hv, he]
        rfl
  · refine Or.inr (Or.inr ⟨f, s.pool, s.pool.frames, [], ?_, .nil s, by simp, hs, ?_, fun _ => rfl,
      fun _ hp => hp⟩)
    · simp only [takeFrame, hf, List.tail_cons]
    · rw [hf, List.tail_cons]

omit [Device δ] in
theorem install_secured {b : Pool δ n} {frames : Vector Frame n} {f : Fin n}
    (hx : b.AgreeOff f frames) (d : δ) (p : PageId) (data : Page) :
    Pool.install { b with frames, free := b.free.tail, device := d } f p data =
      Pool.seat { b with device := d } f p data := by
  have hset := congrArg Pool.frames (hx { page := some p, pins := 1, dirty := false, data })
  simp only [modifyFrame] at hset
  simp only [Pool.install, Pool.seat, modifyFrame, hset]

omit [Device δ] in
theorem releaseFrame_secured {b : Pool δ n} {frames : Vector Frame n} {f : Fin n}
    (hx : b.AgreeOff f frames) (d : δ) :
    Pool.releaseFrame { b with frames, free := b.free.tail, device := d } f =
      Pool.requeue { b with device := d } f := by
  have hset := congrArg Pool.frames (hx Frame.empty)
  simp only [modifyFrame] at hset
  simp only [Pool.releaseFrame, Pool.requeue, modifyFrame, hset]

theorem fetch_moves (hs : s.pool.Tidy) (p : PageId)
    (hfit : ∀ f, p ≠ PageId.invalid → s.pool.frameOf? p = some f →
      (s.pool.frames.get f).pins + 1 ≠ 0) :
    ∃ es, Moves s es (s.step (.call (.fetch p))) ∧ ∀ e ∈ es, e.IsPlain := by
  simp only [step, Pool.after, account, fetch]
  by_cases hv : p = PageId.invalid
  · simp only [if_pos hv]
    exact ⟨[], .nil s, by simp⟩
  simp only [if_neg hv]
  rcases hp : s.pool.frameOf? p with _ | f
  · have hc : s.pool.isCached p = false := by simp [isCached, hp]
    have hm := Move.missed (s := s) hp
    rcases takeFrame_moves (s := { s with pool := s.pool.modifyStats fun x =>
        { x with fetches := x.fetches + 1, misses := x.misses + 1 } })
        (hs.congr rfl rfl rfl fun _ => rfl) with
      ⟨e, b, es, he, hes, hplain⟩ | he | ⟨f, b, frames, es, he, hes, hplain, hb, hf, hx, hnone⟩
    · simp only [he]
      exact ⟨.missed p :: es, .cons hm (by simp) hes, by simpa using hplain⟩
    · simp only [he]
      exact ⟨[.missed p], .single hm, by simp⟩
    · simp only [he]
      rcases hr : Device.read p b.device with ⟨e | data, d⟩
      · refine ⟨.missed p :: (es ++ [.unread p f]), .cons hm (by simp) (hes.append hplain ?_), ?_⟩
        · simp only [releaseFrame_secured hx]
          have hu := Move.unread (s := { s with pool := b }) (hnone p hp) hf hr
          rcases he : e.isMissing with _ | _
          · simpa only [he, Bool.false_eq_true, if_false] using .single hu
          · simpa only [he, if_true] using .single hu
        · simpa [or_imp, forall_and] using hplain
      · refine ⟨.missed p :: (es ++ [.loaded p f]), .cons hm (by simp) (hes.append hplain ?_), ?_⟩
        · simp only [install_secured hx, hc, Bool.false_eq_true, if_false]
          exact .single (.loaded (s := { s with pool := b }) (hnone p hp) hf hr)
        · simpa [or_imp, forall_and] using hplain
  · refine ⟨[.hit p f], ?_, by simp⟩
    have hc : s.pool.isCached p = true := by simp [isCached, hp]
    simp only [hc, if_true]
    exact .single (.hit hp (hfit f hv hp))

theorem frameOf?_fetch {b : Pool δ n} {f : Fin n} (h : (b.fetch p).1 = .ok (some f)) :
    (b.fetch p).2.frameOf? p = some f := by
  rcases hf : b.fetch p with ⟨answer, b'⟩
  obtain rfl : answer = .ok (some f) := (congrArg Prod.fst hf).symm.trans h
  cases fetch_outcome hf with
  | hit _ hp => exact hp
  | @loaded _ _ data => exact (frameOf?_install data).trans (if_pos rfl)

theorem allocateUnused_secured {b : Pool δ n} (frames : Vector Frame n) (free : List (Fin n)) :
    Pool.allocateUnused { b with frames, free } =
      (b.allocateUnused.1, { b with frames, free, device := b.allocateUnused.2.device }) := by
  simp only [allocateUnused]
  rw [show (Pool.isCached { b with frames, free }) = b.isCached from rfl]
  generalize searchId b.isCached (b.table.size + 1) b.device = r
  obtain ⟨answer, skipped, d⟩ := r
  simp only
  rcases releaseEach skipped d with ⟨e | _, d'⟩ <;> rfl

theorem new_moves (hs : s.pool.Tidy) :
    ∃ es, Moves s es (s.step (.call .new)) ∧ (∀ e ∈ es, e.IsPlain ∨ e.allocates = true ∧
        ∀ p f, e = .created p f → s.pool.created? = some p) ∧
      ∀ f, s.pool.new.1 = .ok (some f) → ∃ p, .created p f ∈ es := by
  simp only [step, Pool.after, account, new, created?]
  rcases takeFrame_moves hs with
    ⟨e, b, es, he, hes, hplain⟩ | he | ⟨f, b, frames, es, he, hes, hplain, hb, hf, hx, hnone⟩
  · simp only [he]
    exact ⟨es, hes, fun e he => Or.inl (hplain e he), nofun⟩
  · simp only [he]
    exact ⟨[], .nil s, by simp, by simp⟩
  · simp only [he, allocateUnused_secured]
    rcases ha : b.allocateUnused with ⟨e | p, b'⟩
    · refine ⟨es ++ [.unallocated f], hes.append hplain ?_, ?_, nofun⟩
      · simp only [releaseFrame_secured hx]
        exact .single (.unallocated (s := { s with pool := b }) hf ha)
      · exact List.forall_mem_append.mpr ⟨fun e he => Or.inl (hplain e he),
          List.forall_mem_singleton.mpr (Or.inr ⟨rfl, nofun⟩)⟩
    · have hpage : ((((Pool.seat { b with device := b'.device } f p Page.zero).modifyStats
          fun x => { x with allocations := x.allocations + 1 }).frames.get f)).page = some p := by
        rw [frames_modifyStats, getElem_seat, if_pos rfl]
      simp only [install_secured hx, hpage]
      refine ⟨es ++ [.created p f], hes.append hplain ?_, ?_, ?_⟩
      · exact .single (.created (s := { s with pool := b })
          (frameOf?_of_allocateUnused ha) hf ha)
      · refine List.forall_mem_append.mpr ⟨fun e he => Or.inl (hplain e he),
          List.forall_mem_singleton.mpr (Or.inr ⟨rfl, ?_⟩)⟩
        rintro q g ⟨⟩
        rfl
      · rintro _ ⟨⟩
        exact ⟨p, List.mem_append_right _ (List.mem_singleton_self _)⟩

theorem unpin_moves {dirty : Bool} (hfair : s.Fair (.call (.unpin p dirty))) :
    ∃ es, Moves s es (s.step (.call (.unpin p dirty))) ∧
      ∀ e ∈ es, ∃ f, e = .released p f dirty := by
  rcases hp : s.pool.frameOf? p with _ | f
  · refine ⟨[], ?_, by simp⟩
    simp only [step, Pool.after, account, unpin, hp]
    exact .nil s
  by_cases hpins : (s.pool.frames.get f).pins = 0
  · refine ⟨[], ?_, by simp⟩
    simp only [step, Pool.after, account, unpin, hp, if_pos hpins]
    exact .nil s
  · refine ⟨[.released p f dirty], ?_, by simp⟩
    simp only [step, Pool.after, account, unpin_eq hp hpins, if_true]
    exact .single (.released hp hpins hfair)

theorem delete_moves (p : PageId) : ∃ es, Moves s es (s.step (.call (.delete p))) ∧
    ∀ e ∈ es, e.IsPlain ∨ e.deallocated? = some p ∧ (s.pool.delete p).1.isOk = true := by
  simp only [step, Pool.after, account, delete]
  rcases hd : Device.deallocate p s.pool.device with ⟨e | _, d⟩
  · exact ⟨[.undeleted p], .single (.undeleted hd), by simp⟩
  rcases hp : s.pool.frameOf? p with _ | f
  · simp only [show Pool.frameOf? { s.pool with device := d } p = none from hp]
    exact ⟨[.deleted p], .single (.deleted hp hd), by simp [Except.isOk, Except.toBool]⟩
  simp only [show Pool.frameOf? { s.pool with device := d } p = some f from hp]
  by_cases hpins : (s.pool.frames.get f).pins = 0
  · simp only [if_pos hpins]
    exact ⟨[.freed p f], .single (.freed hp hpins hd), by simp [Except.isOk, Except.toBool]⟩
  · simp only [if_neg hpins]
    exact ⟨[.condemned p f], .single (.condemned hp hpins hd),
      by simp [Except.isOk, Except.toBool]⟩

theorem beginFlush_moves (p : PageId)
    (hfit : ∀ f, s.pool.frameOf? p = some f → (s.pool.frames.get f).pins ≠ 0 →
      (s.pool.frames.get f).dirty = true → (s.pool.frames.get f).pins + 1 ≠ 0) :
    ∃ es, Moves s es (s.step (.beginFlush p)) ∧ ∀ e ∈ es, e.IsPlain := by
  simp only [step, beginFlush]
  rcases hp : s.pool.frameOf? p with _ | f
  · exact ⟨[], .nil s, by simp⟩
  simp only
  by_cases hpins : (s.pool.frames.get f).pins = 0
  · simp only [if_pos hpins]
    exact flushNow_moves s p
  by_cases hd : (s.pool.frames.get f).dirty = true
  · simp only [if_neg hpins, if_pos hd]
    exact ⟨[.opened p f], .single (.opened hp hpins (hfit f hp hpins hd) hd), by simp⟩
  · simp only [if_neg hpins, if_neg hd]
    exact ⟨[], .nil s, by simp⟩

theorem writeWindow_moves (i : Nat) :
    ∃ es, Moves s es (s.step (.writeWindow i)) ∧ ∀ e ∈ es, e.IsPlain := by
  simp only [step]
  split
  · exact ⟨[.written i], .single (.written ‹_›), by simp⟩
  · exact ⟨[], .nil s, by simp⟩

theorem closeWindow_moves (i : Nat) :
    ∃ es, Moves s es (s.step (.closeWindow i)) ∧ ∀ e ∈ es, e.IsPlain := by
  simp only [step]
  split
  · exact ⟨[.closed i], .single (.closed ‹_›), by simp⟩
  · exact ⟨[], .nil s, by simp⟩

/-- There is room for the pin that the action gives to a page in its frame. -/
def PinRoom (s : Session δ n) : Action n → Prop
  | .call (.fetch p) => ∀ f, p ≠ PageId.invalid → s.pool.frameOf? p = some f →
      (s.pool.frames.get f).pins + 1 ≠ 0
  | .beginFlush p => ∀ f, s.pool.frameOf? p = some f → (s.pool.frames.get f).pins ≠ 0 →
      (s.pool.frames.get f).dirty = true → (s.pool.frames.get f).pins + 1 ≠ 0
  | _ => True

/-- A fair action with room for its pin is a chain of moves. -/
theorem step_moves {a : Action n} (hs : s.pool.Tidy) (hfair : s.Fair a) (hroom : s.PinRoom a) :
    ∃ es, Moves s es (s.step a) ∧ ∀ e ∈ es, s.Makes a e := by
  have plain : ∀ {t : Session δ n}, (∃ es, Moves s es t ∧ ∀ e ∈ es, e.IsPlain) →
      ∃ es, Moves s es t ∧ ∀ e ∈ es, s.Makes a e :=
    fun ⟨es, hes, hplain⟩ => ⟨es, hes, fun e he => .plain (hplain e he)⟩
  cases a with
  | call c =>
    cases c with
    | new =>
      obtain ⟨es, hes, hnew, -⟩ := new_moves hs
      exact ⟨es, hes, fun e he => (hnew e he).elim .plain fun ha => .allocation ha.1 ha.2⟩
    | fetch p => exact plain (fetch_moves hs p hroom)
    | unpin p dirty =>
      obtain ⟨es, hes, honly⟩ := unpin_moves hfair
      refine ⟨es, hes, fun e he => ?_⟩
      obtain ⟨f, rfl⟩ := honly e he
      exact .release
    | flush p =>
      simp only [step, after, account, flush_eq_flushNow]
      exact plain (flushNow_moves s p)
    | flushAll =>
      simp only [step, after, account, flushAll]
      exact plain (flushEach_moves _ s)
    | delete p =>
      obtain ⟨es, hes, honly⟩ := delete_moves (s := s) p
      exact ⟨es, hes, fun e he => (honly e he).elim .plain fun hd => .deallocation hd.1 hd.2⟩
  | put f offset new =>
    refine ⟨[.put f], .single .put, fun e he => ?_⟩
    rw [List.mem_singleton.mp he]
    exact .put
  | beginFlush p => exact plain (beginFlush_moves p hroom)
  | writeWindow i => exact plain (writeWindow_moves i)
  | closeWindow i => exact plain (closeWindow_moves i)

end Session

end BufferPool
