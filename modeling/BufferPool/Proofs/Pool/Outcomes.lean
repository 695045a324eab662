import BufferPool.Proofs.Pool.Search

/-! # Outcomes

How an operation of the pool can end: what it found on its way, what it asked of
the device, and what it answers. A property of an operation is proved outcome by
outcome.
-/

namespace BufferPool.Pool

variable {δ : Type} {n : Nat}

def missed (b : Pool δ n) : Pool δ n :=
  b.modifyStats fun s => { s with fetches := s.fetches + 1, misses := s.misses + 1 }

/-- The victim `v` leaves the frame `f`, which still holds its bytes. -/
def expel (b : Pool δ n) (f : Fin n) (v : PageId) : Pool δ n :=
  { b with table := b.table.erase v, replacer := b.replacer.remove f }.modifyStats fun s =>
    { s with evictions := s.evictions + 1 }

def discard (b : Pool δ n) (f : Fin n) (p : PageId) : Pool δ n :=
  { b.modifyFrame f fun _ => Frame.empty with
    table := b.table.erase p
    free := b.free ++ [f]
    replacer := b.replacer.remove f }

variable [Device δ]

inductive EvictOutcome (b : Pool δ n) (f : Fin n) : Except PoolError Unit → Pool δ n → Prop where

  | empty (hpage : (b.frames.get f).page = none) :
      EvictOutcome b f (.ok ()) ({ b with replacer := b.replacer.remove f }.modifyStats fun s =>
        { s with evictions := s.evictions + 1 })

  | expelled {p : PageId} {answer : Bool} {b' : Pool δ n}
      (hpage : (b.frames.get f).page = some p) (hflush : b.flushNow p = (.ok answer, b')) :
      EvictOutcome b f (.ok ()) (b'.expel f p)

  | refused {p : PageId} {e : PoolError} {b' : Pool δ n}
      (hpage : (b.frames.get f).page = some p) (hflush : b.flushNow p = (.error e, b')) :
      EvictOutcome b f (.error e) b'

inductive TakeFrameOutcome (b : Pool δ n) :
    Except PoolError (Option (Fin n)) → Pool δ n → Prop where

  | free {f : Fin n} {rest : List (Fin n)} (hfree : b.free = f :: rest) :
      TakeFrameOutcome b (.ok (some f)) { b with free := rest }

  | full (hfree : b.free = []) (hpeek : b.replacer.peek = none) : TakeFrameOutcome b (.ok none) b

  | evicted {f : Fin n} {b' : Pool δ n} (hfree : b.free = []) (hpeek : b.replacer.peek = some f)
      (hevict : b.EvictOutcome f (.ok ()) b') : TakeFrameOutcome b (.ok (some f)) b'

  | refused {f : Fin n} {e : PoolError} {b' : Pool δ n} (hfree : b.free = [])
      (hpeek : b.replacer.peek = some f) (hevict : b.EvictOutcome f (.error e) b') :
      TakeFrameOutcome b (.error e) b'

inductive FetchOutcome (b : Pool δ n) (p : PageId) :
    Except PoolError (Option (Fin n)) → Pool δ n → Prop where

  | invalid (hp : p = PageId.invalid) : FetchOutcome b p (.ok none) b

  | hit {f : Fin n} (hv : p ≠ PageId.invalid) (hp : b.frameOf? p = some f) :
      FetchOutcome b p (.ok (some f)) { (b.modifyStats fun s =>
        { s with fetches := s.fetches + 1, hits := s.hits + 1 }).modifyFrame f fun x =>
          { x with pins := x.pins + 1 } with replacer := b.replacer.pin f }

  | refused {e : PoolError} {b' : Pool δ n} (hv : p ≠ PageId.invalid) (hp : b.frameOf? p = none)
      (ht : b.missed.takeFrame = (.error e, b')) : FetchOutcome b p (.error e) b'

  | full {b' : Pool δ n} (hv : p ≠ PageId.invalid) (hp : b.frameOf? p = none)
      (ht : b.missed.takeFrame = (.ok none, b')) : FetchOutcome b p (.ok none) b'

  | loaded {f : Fin n} {b' : Pool δ n} {data : Page} {d : δ} (hv : p ≠ PageId.invalid)
      (hp : b.frameOf? p = none) (ht : b.missed.takeFrame = (.ok (some f), b'))
      (hr : Device.read p b'.device = (.ok data, d)) :
      FetchOutcome b p (.ok (some f)) ({ b' with device := d }.install f p data)

  | missing {f : Fin n} {b' : Pool δ n} {e : DiskError} {d : δ} (hv : p ≠ PageId.invalid)
      (hp : b.frameOf? p = none) (ht : b.missed.takeFrame = (.ok (some f), b'))
      (hr : Device.read p b'.device = (.error e, d)) (he : e.isMissing = true) :
      FetchOutcome b p (.ok none) ({ b' with device := d }.releaseFrame f)

  | unread {f : Fin n} {b' : Pool δ n} {e : DiskError} {d : δ} (hv : p ≠ PageId.invalid)
      (hp : b.frameOf? p = none) (ht : b.missed.takeFrame = (.ok (some f), b'))
      (hr : Device.read p b'.device = (.error e, d)) (he : e.isMissing = false) :
      FetchOutcome b p (.error (.reading p e)) ({ b' with device := d }.releaseFrame f)

/-- The skipped ids are given back before an allocation answers. If that fails, then whatever was
found is lost. -/
inductive AllocateOutcome (b : Pool δ n) : Except PoolError PageId → Pool δ n → Prop where

  | found {d d' : δ} {p : PageId} {skipped : List PageId}
      (search : BoundedSearch b.isCached (b.table.size + 1) b.device (.ok p) skipped d)
      (back : GivesBack skipped d (.ok ()) d') : AllocateOutcome b (.ok p) { b with device := d' }

  | refused {d d' : δ} {e : DiskError} {skipped : List PageId}
      (search : BoundedSearch b.isCached (b.table.size + 1) b.device (.error e) skipped d)
      (back : GivesBack skipped d (.ok ()) d') :
      AllocateOutcome b (.error (.allocating e)) { b with device := d' }

  | unreturned {d d' : δ} {found : Except DiskError PageId} {e : PoolError}
      {skipped : List PageId}
      (search : BoundedSearch b.isCached (b.table.size + 1) b.device found skipped d)
      (back : GivesBack skipped d (.error e) d') :
      AllocateOutcome b (.error e) { b with device := d' }

inductive NewOutcome (b : Pool δ n) : Except PoolError (Option (Fin n)) → Pool δ n → Prop where

  | refused {e : PoolError} {b' : Pool δ n} (ht : b.takeFrame = (.error e, b')) :
      NewOutcome b (.error e) b'

  | full {b' : Pool δ n} (ht : b.takeFrame = (.ok none, b')) : NewOutcome b (.ok none) b'

  | created {f : Fin n} {p : PageId} {b₁ b₂ : Pool δ n} (ht : b.takeFrame = (.ok (some f), b₁))
      (ha : b₁.allocateUnused = (.ok p, b₂)) :
      NewOutcome b (.ok (some f)) ((b₂.install f p Page.zero).modifyStats fun s =>
        { s with allocations := s.allocations + 1 })

  | unallocated {f : Fin n} {e : PoolError} {b₁ b₂ : Pool δ n}
      (ht : b.takeFrame = (.ok (some f), b₁)) (ha : b₁.allocateUnused = (.error e, b₂)) :
      NewOutcome b (.error e) (b₂.releaseFrame f)

inductive DeleteOutcome (b : Pool δ n) (p : PageId) : Except PoolError Bool → Pool δ n → Prop where

  | refused {e : DiskError} {d : δ} (hd : Device.deallocate p b.device = (.error e, d)) :
      DeleteOutcome b p (.error (.deallocating p e)) { b with device := d }

  | uncached {d : δ} (hd : Device.deallocate p b.device = (.ok (), d)) (hp : b.frameOf? p = none) :
      DeleteOutcome b p (.ok true) ({ b with device := d }.modifyStats fun s =>
        { s with deletions := s.deletions + 1 })

  | freed {f : Fin n} {d : δ} (hd : Device.deallocate p b.device = (.ok (), d))
      (hp : b.frameOf? p = some f) (hpins : (b.frames.get f).pins = 0) :
      DeleteOutcome b p (.ok true) (({ b with device := d }.discard f p).modifyStats fun s =>
        { s with deletions := s.deletions + 1 })

  | pinned {f : Fin n} {d : δ} (hd : Device.deallocate p b.device = (.ok (), d))
      (hp : b.frameOf? p = some f) (hpins : (b.frames.get f).pins ≠ 0) :
      DeleteOutcome b p (.ok false) { b with device := d }

section Outcome

variable {b b' : Pool δ n} {f : Fin n} {p : PageId}

theorem evict_outcome {answer : Except PoolError Unit} (h : b.evict f = (answer, b')) :
    b.EvictOutcome f answer b' := by
  unfold evict at h
  rcases hp : (b.frames.get f).page with _ | p <;> simp only [hp] at h
  · cases h
    exact .empty hp
  · rcases hf : b.flushNow p with ⟨e | _, b₁⟩ <;> rw [hf] at h <;> cases h
    · exact .refused hp hf
    · exact .expelled hp hf

theorem takeFrame_outcome {answer : Except PoolError (Option (Fin n))}
    (h : b.takeFrame = (answer, b')) : b.TakeFrameOutcome answer b' := by
  unfold takeFrame at h
  rcases hfree : b.free with _ | ⟨f, rest⟩ <;> simp only [hfree] at h
  · rcases hpeek : b.replacer.peek with _ | f <;> simp only [hpeek] at h
    · cases h
      exact .full hfree hpeek
    · rcases he : b.evict f with ⟨e | _, b₁⟩ <;> rw [he] at h <;> cases h
      · exact .refused hfree hpeek (evict_outcome he)
      · exact .evicted hfree hpeek (evict_outcome he)
  · cases h
    exact .free hfree

theorem fetch_outcome {answer : Except PoolError (Option (Fin n))}
    (h : b.fetch p = (answer, b')) : b.FetchOutcome p answer b' := by
  unfold fetch at h
  split at h
  · rename_i hv
    cases h
    exact .invalid hv
  rename_i hv
  rcases hp : b.frameOf? p with _ | f <;> simp only [hp] at h
  · rcases ht : b.missed.takeFrame with ⟨e | _ | f, b₁⟩ <;>
      rw [show (b.modifyStats _).takeFrame = _ from ht] at h
    · cases h
      exact .refused hv hp ht
    · cases h
      exact .full hv hp ht
    rcases hr : Device.read p b₁.device with ⟨e | data, d⟩ <;> simp only [hr] at h
    · rcases he : e.isMissing with _ | _ <;> simp only [he] at h <;> cases h
      · exact .unread hv hp ht hr he
      · exact .missing hv hp ht hr he
    · cases h
      exact .loaded hv hp ht hr
  · cases h
    exact .hit hv hp

theorem allocateUnused_outcome {answer : Except PoolError PageId}
    (h : b.allocateUnused = (answer, b')) : b.AllocateOutcome answer b' := by
  unfold allocateUnused at h
  rcases hs : searchId b.isCached (b.table.size + 1) b.device with ⟨found, skipped, d⟩
  rcases hr : releaseEach skipped d with ⟨e | _, d'⟩
  all_goals
    have hsearch := searchId_eq_iff.mp hs
    have hback := releaseEach_eq_iff.mp hr
    rw [hs] at h
    simp only [hr] at h
  · cases h
    exact .unreturned hsearch hback
  · rcases found with e | p <;> cases h
    · exact .refused hsearch hback
    · exact .found hsearch hback

theorem new_outcome {answer : Except PoolError (Option (Fin n))} (h : b.new = (answer, b')) :
    b.NewOutcome answer b' := by
  unfold new at h
  rcases ht : b.takeFrame with ⟨e | _ | f, b₁⟩ <;> simp only [ht] at h
  · cases h
    exact .refused ht
  · cases h
    exact .full ht
  · rcases ha : b₁.allocateUnused with ⟨e | p, b₂⟩ <;> simp only [ha] at h <;> cases h
    · exact .unallocated ht ha
    · exact .created ht ha

theorem delete_outcome {answer : Except PoolError Bool} (h : b.delete p = (answer, b')) :
    b.DeleteOutcome p answer b' := by
  unfold delete at h
  rcases hd : Device.deallocate p b.device with ⟨e | _, d⟩ <;> simp only [hd] at h
  · cases h
    exact .refused hd
  have hsame : ({ b with device := d } : Pool δ n).frameOf? p = b.frameOf? p := rfl
  rcases hp : b.frameOf? p with _ | f <;> simp only [hsame, hp] at h
  · cases h
    exact .uncached hd hp
  · split at h <;> cases h
    · exact .freed hd hp ‹_›
    · exact .pinned hd hp ‹_›

theorem exists_flushNow_of_takeFrame {e : PoolError} (h : b.takeFrame = (.error e, b')) :
    ∃ p f, (b.frames.get f).page = some p ∧ b.flushNow p = (.error e, b') := by
  cases takeFrame_outcome h with
  | refused _ _ hevict =>
    cases hevict with
    | refused hpage hflush => exact ⟨_, _, hpage, hflush⟩

theorem takeFrame_flushes (b : Pool δ n) : ∃ b', (b' = b ∨ ∃ p, b' = (b.flushNow p).2) ∧
    b.takeFrame.2.device = b'.device ∧ b.takeFrame.2.stats.allocations = b'.stats.allocations := by
  rcases ht : b.takeFrame with ⟨answer, b'⟩
  cases takeFrame_outcome ht with
  | free | full => exact ⟨b, Or.inl rfl, rfl, rfl⟩
  | evicted _ _ hevict =>
    cases hevict with
    | empty => exact ⟨b, Or.inl rfl, rfl, rfl⟩
    | expelled _ hflush => exact ⟨_, Or.inr ⟨_, (congrArg Prod.snd hflush).symm⟩, rfl, rfl⟩
  | refused _ _ hevict =>
    cases hevict with
    | refused _ hflush => exact ⟨b', Or.inr ⟨_, (congrArg Prod.snd hflush).symm⟩, rfl, rfl⟩

theorem eq_of_allocateUnused {answer : Except PoolError PageId}
    (h : b.allocateUnused = (answer, b')) : b' = { b with device := b'.device } := by
  cases allocateUnused_outcome h <;> rfl

end Outcome

end BufferPool.Pool
