import BufferPool.Proofs.Disk.Logged
import BufferPool.Proofs.Disk.Pagewise
import BufferPool.Proofs.Disk.Spared
import BufferPool.Proofs.Pool.Answers
import BufferPool.Proofs.Pool.Tidy

/-! # Pages without a place

A page that was deleted while it was pinned has a frame and no place on the
disk. It is flushed and evicted without a write, and it cannot be fetched any
more once its frame is gone. A search for an unused id puts it on the disk for
a moment and takes it off again.
-/

namespace BufferPool

namespace MemoryDisk

variable {d d' : MemoryDisk} {p : PageId}

theorem isAllocated_of_write {x : Page} (h : write p x d = (.ok (), d')) :
    d.isAllocated p = true := by
  unfold write at h
  split at h
  · cases h
  · split at h
    · assumption
    · cases h

theorem count_write {q : PageId} {x : Page} {r : Except DiskError Unit}
    (h : write q x d = (r, d')) (hp : d.isAllocated p = false) :
    d'.history.count (.write p) = d.history.count (.write p) := by
  rcases r with e | _
  · rw [eq_of_write_error h]
  · have hq : (DiskEvent.write q == .write p) = false := by
      refine beq_false_of_ne ?_
      rintro ⟨⟩
      rw [isAllocated_of_write h] at hp
      cases hp
    have hj : d'.history = d.history ++ [.write q] :=
      Journaled.write (show Device.write q x d = (.ok (), d') from h)
    rw [hj, List.count_append, List.count_singleton, hq]
    rfl

theorem write_absent (hv : p ≠ PageId.invalid) (hp : d.isAllocated p = false) (x : Page) :
    ∃ e, write p x d = (.error e, d) ∧ e.isMissing = true := by
  refine ⟨d.missing p, by simp only [write, if_neg hv, hp, Bool.false_eq_true, if_false], ?_⟩
  unfold missing
  split <;> rfl

end MemoryDisk

namespace Pool

open MemoryDisk

variable {n : Nat} {b b' : Pool MemoryDisk n} {d d' : MemoryDisk} {f : Fin n} {p q : PageId}

section Allocation

variable {inUse : PageId → Bool} {fuel : Nat} {skipped : List PageId} {r : Except PoolError Unit}

theorem BoundedSearch.snapshot_found (h : BoundedSearch inUse fuel d (.ok p) skipped d') :
    d'.snapshot p = some Page.zero := by
  generalize hp : (Except.ok p : Except DiskError PageId) = answer at h
  induction h with
  | spent | refused => cases hp
  | found ha =>
    cases hp
    rw [snapshot_allocate ha, Function.update_self]
  | skipped _ _ _ ih => exact ih hp

theorem GivesBack.snapshot_eq {ps : List PageId} (h : GivesBack ps d r d') (q : PageId) :
    d'.snapshot q = if q ∈ ps then none else d.snapshot q := by
  induction h with
  | done => rfl
  | refused hd => cases (deallocate_books hd).1
  | @released _ _ _ p _ _ hd _ ih =>
    rw [ih, snapshot_deallocate hd, Function.update_apply]
    by_cases hq : q = p <;> simp [hq]

theorem BoundedSearch.absent_back {d'' : MemoryDisk} {answer : Except DiskError PageId}
    (h : BoundedSearch inUse fuel d answer skipped d') (hback : GivesBack skipped d' r d'')
    (hq : answer ≠ .ok q) (hn : d.isAllocated q = false) : d''.isAllocated q = false := by
  rw [isAllocated_eq_false_iff] at hn ⊢
  rw [hback.snapshot_eq]
  split
  · rfl
  · rename_i hm
    exact (h.page?_eq hm hq).trans hn

theorem snapshot_allocateUnused {answer : Except PoolError PageId}
    (h : b.allocateUnused = (answer, b')) :
    (∀ q, answer = .ok q → b'.device.snapshot q = some Page.zero) ∧
      (∀ q, answer ≠ .ok q → b.device.isAllocated q = false → b'.device.isAllocated q = false) ∧
      ∀ e, answer = .error e → ∃ cause, e = .allocating cause := by
  cases allocateUnused_outcome h with
  | found search back =>
    refine ⟨?_, fun q hq => search.absent_back back ?_, nofun⟩
    · rintro _ ⟨⟩
      rw [back.snapshot_eq, if_neg search.not_mem_skipped, search.snapshot_found]
    · rintro ⟨⟩
      exact hq rfl
  | refused search back =>
    refine ⟨nofun, fun q _ => search.absent_back back nofun, ?_⟩
    rintro _ ⟨⟩
    exact ⟨_, rfl⟩
  | unreturned _ back => cases back.eq_ok

end Allocation

section Valid

variable (hids : ∀ p, b.isCached p = true → p ≠ PageId.invalid)
include hids

theorem new_error {e : PoolError} (he : b.new.1 = .error e) : ∃ cause, e = .allocating cause := by
  rcases hn : b.new with ⟨answer, b'⟩
  obtain rfl : answer = .error e := (congrArg Prod.fst hn).symm.trans he
  cases new_outcome hn with
  | refused ht =>
    have hok := isOk_takeFrame hids
    rw [ht] at hok
    cases hok
  | unallocated _ ha => exact (snapshot_allocateUnused ha).2.2 e rfl

end Valid

section Absent

variable (hv : p ≠ PageId.invalid) (hp : b.device.isAllocated p = false)
include hv hp

theorem writeBack_absent (data : Page) : b.writeBack p data = (.ok (), b) := by
  obtain ⟨e, hw, he⟩ := write_absent hv hp data
  simp only [writeBack, show Device.write p data b.device = _ from hw, he, if_true]

theorem flushNow_absent (hf : b.frameOf? p = some f) :
    b.flushNow p = (.ok true, b.modifyFrame f fun x => { x with dirty := false }) := by
  rcases hd : (b.frames.get f).dirty with _ | _
  · rw [flushNow_of_clean hf hd, modifyFrame_eq_self]
    rw [← hd]
  · simp only [flushNow, hf, hd, if_true, writeBack_absent hv hp]

theorem takeFrame_absent (hf : b.frameOf? p = some f) (hpage : (b.frames.get f).page = some p)
    (hfree : b.free = []) (hpeek : b.replacer.peek = some f) :
    ∃ b', b.takeFrame = (.ok (some f), b') ∧ b'.frameOf? p = none ∧ b'.device = b.device := by
  refine ⟨(b.modifyFrame f fun x => { x with dirty := false }).expel f p, ?_,
    frameOf?_expel.trans (if_pos rfl), rfl⟩
  simp only [takeFrame, hfree, hpeek, evict, hpage, flushNow_absent hv hp hf]
  rfl

end Absent

theorem count_write_takeFrame (hp : b.device.isAllocated p = false) :
    b.takeFrame.2.device.history.count (.write p) = b.device.history.count (.write p) ∧
      b.takeFrame.2.device.isAllocated p = false := by
  have hflush (q : PageId) :
      (b.flushNow q).2.device.history.count (.write p) = b.device.history.count (.write p) := by
    rcases hq : b.frameOf? q with _ | f
    · simp only [flushNow, hq]
    rcases hd : (b.frames.get f).dirty with _ | _
    · rw [flushNow_of_clean hq hd]
    · rw [flushNow_of_dirty hq hd]
      simp only [device_modifyFrame, writeBack]
      rcases hw : Device.write q (b.frames.get f).data b.device with ⟨_ | _, d⟩ <;>
        exact count_write hw hp
  obtain ⟨b', hb', hdevice, -⟩ := takeFrame_flushes b
  constructor
  · rw [hdevice]
    obtain rfl | ⟨q, rfl⟩ := hb'
    · rfl
    · exact hflush q
  · exact (sameIds_takeFrame b).isAllocated p |>.trans hp

theorem count_write_new (hp : b.device.isAllocated p = false) :
    b.new.2.device.history.count (.write p) = b.device.history.count (.write p) := by
  have htake := (count_write_takeFrame hp).1
  rcases hn : b.new with ⟨answer, b'⟩
  cases new_outcome hn with
  | refused ht | full ht => rwa [ht] at htake
  | created ht ha | unallocated ht ha =>
    rw [ht] at htake
    exact ((sameTransfers_allocateUnused ha).count_write p).trans htake

theorem new_created (hp : b.created? = some p) : ∃ f, b.new.1 = .ok (some f) ∧
    b.new.2.frames.get f = ⟨some p, 1, false, Page.zero⟩ ∧
    b.new.2.device.snapshot p = some Page.zero := by
  unfold created? at hp
  rcases hn : b.new with ⟨answer, b'⟩
  rw [hn] at hp
  cases new_outcome hn with
  | refused | full | unallocated => cases hp
  | @created f q b₁ b₂ _ ha =>
    simp only [frames_modifyStats, getElem_install, if_true, Option.some.injEq] at hp ⊢
    subst hp
    refine ⟨f, rfl, ?_, (snapshot_allocateUnused ha).1 q rfl⟩
    rw [if_pos rfl]

/-- The page `p` has no place on the disk. The pool keeps it from doing harm: its bytes `x` are
there for its holders as long as it has its frame `f`, it gives up the frame without a write, and
from then on it is gone until its id is handed out again. -/
structure Contains (b : Pool MemoryDisk n) (p : PageId) (f : Fin n) (x : Page) : Prop where
  fetched : ∀ g, b.frameOf? p = some g → g = f ∧ (b.fetch p).1 = .ok (some f) ∧
    ((b.fetch p).2.frames.get f).data = x
  gone : b.frameOf? p = none → (b.fetch p).1 = .ok none
  flushed : (b.flush p).1 = .ok (b.isCached p) ∧ (b.flush p).2.device = b.device ∧
    (b.flush p).2.isDirty? p ≠ some true
  flushed_all : b.flushAll.1 = .ok ()
  written : ∀ g, b.writeWindow ⟨p, g⟩ = (.ok (), b)
  evicted : b.free = [] → b.replacer.peek = some f → b.frameOf? p = some f →
    ∃ b', b.takeFrame = (.ok (some f), b') ∧ b'.frameOf? p = none ∧ b'.device = b.device
  served : ∀ q, (b.fetch q).1.isOk = true
  supplied : ∀ e, b.new.1 = .error e → ∃ cause, e = .allocating cause
  reborn : b.created? = some p → ∃ g, b.new.1 = .ok (some g) ∧
    b.new.2.frames.get g = ⟨some p, 1, false, Page.zero⟩ ∧
    b.new.2.device.snapshot p = some Page.zero
  unwritten : b.new.2.device.history.count (.write p) = b.device.history.count (.write p)

theorem contains_of_absent (ht : b.Tidy) (hids : ∀ p, b.isCached p = true → p ≠ PageId.invalid)
    (hv : p ≠ PageId.invalid) (hp : b.device.isAllocated p = false) {x : Page}
    (hf : ∀ g, b.frameOf? p = some g → g = f ∧ (b.frames.get g).data = x) : b.Contains p f x where
  fetched g hg := by
    obtain ⟨rfl, hx⟩ := hf g hg
    refine ⟨rfl, fetch_of_cached hv hg, ?_⟩
    simp only [fetch, if_neg hv, hg]
    exact (apply_modifyFrame (b.modifyStats _) g Frame.data
      (h := fun x => { x with pins := x.pins + 1 }) (fun _ => rfl) g).trans hx
  gone := fetch_of_not_isAllocated hids hp
  flushed := by
    rw [flush_eq_flushNow]
    rcases hg : b.frameOf? p with _ | g
    · simp [flushNow, hg, isCached, isDirty?]
    · rw [flushNow_absent hv hp hg, isDirty?_eq (b := b.modifyFrame g _) hg, getElem_modifyFrame,
        if_pos rfl, isCached_of_frameOf? hg]
      exact ⟨rfl, rfl, by simp⟩
  flushed_all := flushEach_eq_ok hids _
  written g := writeBack_absent hv hp _
  evicted hfree hpeek hg := takeFrame_absent hv hp hg (ht.page_eq hg) hfree hpeek
  served := isOk_fetch hids
  supplied _ := new_error hids
  reborn := new_created
  unwritten := count_write_new hp

end Pool

end BufferPool
