import BufferPool.Proofs.Pool.Full
import BufferPool.Proofs.Pool.Ledger

/-! # What a pool on a memory disk answers

A memory disk refuses nothing that a pool asks of it, as long as there are ids.
So a pool that is not full fetches every page of the disk, creates a page under
the id that comes next, and deletes every page that is not pinned.
-/

namespace BufferPool.Pool

open MemoryDisk

variable {n : Nat} {b : Pool MemoryDisk n} {p : PageId}

section Valid

variable (hids : ∀ p, b.isCached p = true → p ≠ PageId.invalid)
include hids

theorem flushEach_eq_ok (ps : List PageId) : (b.flushEach ps).1 = .ok () := by
  induction ps generalizing b with
  | nil => rfl
  | cons p ps ih =>
    have hok := Ledger.isOk_flushNow_of_ne hids p
    have hsame := frameOf?_flushNow b p
    simp only [flushEach, flush_eq_flushNow]
    generalize b.flushNow p = r at hok hsame
    obtain ⟨_ | _, b'⟩ := r
    · cases hok
    · refine ih fun q hq => hids q ?_
      rwa [isCached, hsame] at hq

theorem isOk_takeFrame : b.takeFrame.1.isOk = true := by
  rcases ht : b.takeFrame with ⟨e | taken, b'⟩
  · obtain ⟨p, -, -, hflush⟩ := exists_flushNow_of_takeFrame ht
    have hok := Ledger.isOk_flushNow_of_ne hids p
    rw [hflush] at hok
    cases hok
  · rfl

theorem isOk_fetch (p : PageId) : (b.fetch p).1.isOk = true := by
  rcases hf : b.fetch p with ⟨answer, b'⟩
  cases fetch_outcome hf with
  | invalid | hit | full | loaded | missing => rfl
  | refused _ _ ht =>
    have hok := isOk_takeFrame (b := b.missed) hids
    rw [ht] at hok
    cases hok
  | unread hv _ _ hr he =>
    rw [isMissing_of_read hv (congrArg Prod.fst hr)] at he
    cases he

end Valid

theorem exists_takeFrame (hs : b.Sound) (hi : b.Issued none) (hfull : ¬b.Full) :
    ∃ f b', b.takeFrame = (.ok (some f), b') ∧ Takes b f b' := by
  rcases ht : b.takeFrame with ⟨e | _ | f, b'⟩
  · obtain ⟨p, -, -, hflush⟩ := exists_flushNow_of_takeFrame ht
    have hok := Ledger.isOk_flushNow hi p
    rw [hflush] at hok
    cases hok
  · exact absurd ((takeFrame_eq_none_iff hs).mp (congrArg Prod.fst ht)) hfull
  · exact ⟨f, b', rfl, takes_of_takeFrame ht⟩

section Fetch

theorem takeFrame_missed (hs : b.Sound) (hi : b.Issued none) (hfull : ¬b.Full) :
    ∃ f b', b.missed.takeFrame = (.ok (some f), b') ∧ SameIds b.device b'.device := by
  obtain ⟨f, b', ht, htakes⟩ := exists_takeFrame (b := b.missed) (hs.congr rfl rfl rfl rfl)
    (hi.quiet ⟨.refl _, rfl, fun _ => rfl⟩) hfull
  exact ⟨f, b', ht, htakes.sameIds⟩

theorem fetch_of_isAllocated (hs : b.Sound) (hi : b.Issued none) (hfull : ¬b.Full)
    (hp : b.device.isAllocated p = true) : ∃ f, (b.fetch p).1 = .ok (some f) := by
  obtain ⟨g, b₀, ht, hsame⟩ := takeFrame_missed hs hi hfull
  have hok (hv : p ≠ PageId.invalid) : (MemoryDisk.read p b₀.device).1.isOk = true :=
    isOk_read hv ((hsame.isAllocated p).trans hp)
  rcases hf : b.fetch p with ⟨answer, b'⟩
  cases fetch_outcome hf with
  | invalid hv => exact absurd hv (ne_invalid_of_lt (hi.ordered.lt_next_of_isAllocated hp))
  | hit | loaded => exact ⟨_, rfl⟩
  | refused _ _ ht' | full _ _ ht' => cases ht.symm.trans ht'
  | missing hv _ ht' hr | unread hv _ ht' hr =>
    cases ht.symm.trans ht'
    have hread := hok hv
    rw [show MemoryDisk.read p b₀.device = _ from hr] at hread
    cases hread

theorem fetch_of_not_isAllocated (hids : ∀ p, b.isCached p = true → p ≠ PageId.invalid)
    (hp : b.device.isAllocated p = false) (hn : b.frameOf? p = none) :
    (b.fetch p).1 = .ok none := by
  have hok := isOk_fetch hids p
  rcases hf : b.fetch p with ⟨answer, b'⟩
  rw [hf] at hok
  cases fetch_outcome hf with
  | invalid | full | missing => rfl
  | hit _ hc => cases hn.symm.trans hc
  | refused | unread => cases hok
  | loaded _ _ ht hr =>
    have hsame := (takes_of_takeFrame ht).sameIds.isAllocated p
    cases (isAllocated_of_read hr).symm.trans (hsame.trans hp)

end Fetch

theorem new_of_unused (hs : b.Sound) (hi : b.Issued none) (hfull : ¬b.Full)
    (hroom : b.device.next ≠ PageId.invalid) (hn : b.frameOf? b.device.nextId = none) :
    ∃ f, b.new.1 = .ok (some f) ∧ (b.new.2.frames.get f).page = some b.device.nextId ∧
      b.new.2.device.next =
        (if b.device.freeIds = [] then b.device.next + 1 else b.device.next) ∧
      b.new.2.device.freeIds = b.device.freeIds.tail ∧
      ∀ q, b.new.2.device.isAllocated q =
        if q = b.device.nextId then true else b.device.isAllocated q := by
  obtain ⟨f, b', ht, htakes⟩ := exists_takeFrame hs hi hfull
  have hsame : SameIds b.device b'.device := htakes.sameIds
  obtain ⟨d, ha, hnext, hfree, hallocated⟩ := exists_allocate (d := b'.device) (hsame.next ▸ hroom)
  have hid : b'.device.nextId = b.device.nextId := by
    rw [nextId, nextId, hsame.freeIds, hsame.next]
  have hunused : b'.isCached b'.device.nextId = false := by
    rw [hid, isCached_eq_false_iff, ← Option.not_isSome_iff_eq_none]
    intro hg
    obtain ⟨g, hg⟩ := Option.isSome_iff_exists.mp hg
    rw [htakes.frameOf?_eq_some hg] at hn
    cases hn
  have hallocate : b'.allocateUnused = (.ok b'.device.nextId, { b' with device := d }) := by
    simp only [allocateUnused, searchId, show Device.allocate b'.device = _ from ha, hunused,
      Bool.false_eq_true, if_false, releaseEach]
    rfl
  have hnew : b.new = (.ok (some f), (Pool.install { b' with device := d } f b'.device.nextId
      Page.zero).modifyStats fun s => { s with allocations := s.allocations + 1 }) := by
    simp only [new, ht, hallocate]
  rw [hnew]
  refine ⟨f, rfl, ?_, ?_, ?_, fun q => ?_⟩
  · rw [frames_modifyStats, getElem_install, if_pos rfl, hid]
  · rw [← hsame.freeIds, ← hsame.next]
    exact hnext
  · rw [← hsame.freeIds]
    exact hfree
  · rw [← hid, ← hsame.isAllocated]
    exact hallocated q

theorem delete_of_unpinned (hp : ∀ f, b.frameOf? p = some f → (b.frames.get f).pins = 0) :
    (b.delete p).1 = .ok true ∧ (b.delete p).2.device = (MemoryDisk.deallocate p b.device).2 ∧
      ∀ q, (b.delete p).2.frameOf? q = if p = q then none else b.frameOf? q := by
  have hd : Device.deallocate p b.device = (.ok (), (MemoryDisk.deallocate p b.device).2) :=
    Prod.ext (deallocate_books rfl).1 rfl
  simp only [delete, hd]
  rcases hc : b.frameOf? p with _ | f
  · simp only [show Pool.frameOf? { b with device := (MemoryDisk.deallocate p b.device).2 } p = none
      from hc]
    refine ⟨trivial, rfl, fun q => ?_⟩
    split
    · rename_i hpq
      exact hpq ▸ hc
    · rfl
  · simp only [show Pool.frameOf? { b with device := (MemoryDisk.deallocate p b.device).2 } p =
      some f from hc, hp f hc, if_true]
    exact ⟨trivial, rfl, fun q => frameOf?_discard (f := f)⟩

end BufferPool.Pool
