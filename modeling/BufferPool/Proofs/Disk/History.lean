import Mathlib.Algebra.BigOperators.Group.Finset.Piecewise
import Mathlib.Data.FinEnum
import BufferPool.Proofs.Disk.Ids
import BufferPool.Proofs.Disk.Logged
import BufferPool.Proofs.Disk.Service

/-! # The history of a memory disk

Replaying its history gives the memory disk back: which pages are allocated, and
how often they were read and written. The history has one entry for each call
that succeeded, and the ids that were handed out are in use or wait to be.
-/

namespace BufferPool

namespace DiskEvent

variable {events : List DiskEvent} {e : DiskEvent} {p : PageId}

/-- The page was allocated and not deallocated since. -/
def Allocated (p : PageId) (events : List DiskEvent) : Prop :=
  ∃ before after, events = before ++ .allocate p :: after ∧ .deallocate p ∉ after

theorem not_allocated_nil : ¬Allocated p [] := by
  rintro ⟨before, after, h, -⟩
  simp at h

theorem allocated_append_singleton :
    Allocated p (events ++ [e]) ↔ e = .allocate p ∨ e ≠ .deallocate p ∧ Allocated p events := by
  constructor
  · rintro ⟨before, after, h, hafter⟩
    rcases List.eq_nil_or_concat after with rfl | ⟨after, last, rfl⟩
    · left
      exact List.singleton_inj.mp (List.append_inj' h rfl).2
    · right
      rw [List.concat_eq_append, ← List.cons_append, ← List.append_assoc] at h
      obtain ⟨rfl, hlast⟩ := List.append_inj' h rfl
      obtain rfl := List.singleton_inj.mp hlast
      rw [List.concat_eq_append, List.mem_append, not_or, List.mem_singleton] at hafter
      exact ⟨Ne.symm hafter.2, before, after, rfl, hafter.1⟩
  · rintro (rfl | ⟨he, before, after, rfl, hafter⟩)
    · exact ⟨events, [], rfl, List.not_mem_nil⟩
    · refine ⟨before, after ++ [e], List.append_assoc _ _ _, ?_⟩
      rw [List.mem_append, not_or, List.mem_singleton]
      exact ⟨hafter, Ne.symm he⟩

/-- Pages are read and written only while they are allocated. -/
def InPlace (events : List DiskEvent) : Prop :=
  ∀ before e after p, events = before ++ e :: after → e = .read p ∨ e = .write p →
    Allocated p before

theorem inPlace_nil : InPlace [] := by
  rintro before e after p h
  simp at h

theorem InPlace.append_singleton (h : InPlace events)
    (he : ∀ p, e = .read p ∨ e = .write p → Allocated p events) : InPlace (events ++ [e]) := by
  intro before e' after p heq hp
  rcases List.eq_nil_or_concat after with rfl | ⟨after, last, rfl⟩
  · obtain ⟨rfl, hlast⟩ := List.append_inj' heq rfl
    obtain rfl := List.singleton_inj.mp hlast
    exact he p hp
  · rw [List.concat_eq_append, ← List.cons_append, ← List.append_assoc] at heq
    exact h before e' after p (List.append_inj' heq rfl).1 hp

theorem sum_count_write (events : List DiskEvent) :
    ∑ p : PageId, events.count (.write p) = events.countP isWrite := by
  induction events with
  | nil => simp
  | cons e events ih =>
    have hone : ∑ p : PageId, (if e == .write p then 1 else 0) = if e.isWrite then 1 else 0 := by
      cases e with
      | write q => simp [isWrite, Finset.sum_ite_eq]
      | read | allocate | deallocate => simp [isWrite]
    simp only [List.count_cons, Finset.sum_add_distrib, ih, hone, List.countP_cons]

def allocated? : DiskEvent → Option PageId
  | allocate p => some p
  | _ => none

def issued (events : List DiskEvent) : Finset PageId := (events.filterMap allocated?).toFinset

theorem mem_issued : p ∈ issued events ↔ .allocate p ∈ events := by
  rw [issued, List.mem_toFinset, List.mem_filterMap]
  constructor
  · rintro ⟨e, he, hp⟩
    cases e <;> cases hp
    exact he
  · intro h
    exact ⟨_, h, rfl⟩

theorem issued_subset (events more : List DiskEvent) : issued events ⊆ issued (events ++ more) := by
  intro p hp
  rw [mem_issued] at hp ⊢
  exact List.mem_append_left more hp

theorem issued_append {more : List DiskEvent} (h : ∀ e ∈ more, e.allocated? = none) :
    issued (events ++ more) = issued events := by
  rw [issued, List.filterMap_append, List.filterMap_eq_nil_iff.mpr h, List.append_nil, issued]

end DiskEvent

open DiskEvent

def Reply.event? : Reply → Option DiskEvent
  | read p _ (.ok _) => some (.read p)
  | write p _ (.ok _) => some (.write p)
  | allocate (.ok p) => some (.allocate p)
  | deallocate p (.ok _) => some (.deallocate p)
  | _ => none

section Entries

open Journaled

variable {δ : Type} [Device δ] [Journaled δ]

theorem Served.journal_call (s : Served δ) (c : DeviceCall) : ∃ reply,
    (s.call c).past = reply :: s.past ∧
      journal (s.call c).device = journal s.device ++ reply.event?.toList := by
  cases c with
  | read p length =>
    simp only [call, Device.readBuffer]
    split
    · rcases hr : Device.read p s.device with ⟨r, d⟩
      refine ⟨_, rfl, (Journaled.read hr).trans ?_⟩
      cases r <;> rfl
    · exact ⟨_, rfl, (List.append_nil _).symm⟩
  | write p buffer =>
    simp only [call, Device.writeBuffer]
    split
    · rename_i x hx
      rcases hw : Device.write p x s.device with ⟨r, d⟩
      refine ⟨_, rfl, (Journaled.write hw).trans ?_⟩
      cases r <;> rfl
    · exact ⟨_, rfl, (List.append_nil _).symm⟩
  | allocate =>
    rcases ha : Device.allocate s.device with ⟨r, d⟩
    simp only [call, ha]
    refine ⟨_, rfl, (Journaled.allocate ha).trans ?_⟩
    cases r <;> rfl
  | deallocate p =>
    rcases hd : Device.deallocate p s.device with ⟨r, d⟩
    simp only [call, hd]
    refine ⟨_, rfl, (Journaled.deallocate hd).trans ?_⟩
    cases r <;> rfl

theorem Served.journal_run {s : Served δ}
    (h : journal s.device = s.past.reverse.filterMap Reply.event?) (calls : List DeviceCall) :
    journal (s.run calls).device = (s.run calls).past.reverse.filterMap Reply.event? := by
  induction calls generalizing s with
  | nil => exact h
  | cons c calls ih =>
    apply ih
    obtain ⟨reply, hpast, hjournal⟩ := s.journal_call c
    rw [hjournal, hpast, List.reverse_cons, List.filterMap_append, h, List.filterMap_cons]
    cases reply.event? <;> rfl

end Entries

namespace MemoryDisk

variable {d d' : MemoryDisk} {p : PageId} {e : DiskEvent}

/-- From `d` to `d'` a request was carried out and noted as `e`. -/
structure Notes (d : MemoryDisk) (e : DiskEvent) (d' : MemoryDisk) : Prop where
  history : d'.history = d.history ++ [e]
  readCount : d'.readCount = d.readCount + if e.isRead then 1 else 0
  writeCount : d'.writeCount = d.writeCount + if e.isWrite then 1 else 0
  writesFor : ∀ p, d'.writesFor p = d.writesFor p + if e = .write p then 1 else 0
  isAllocated_iff : ∀ p, d'.isAllocated p = true ↔
    e = .allocate p ∨ e ≠ .deallocate p ∧ d.isAllocated p = true
  in_place : ∀ p, e = .read p ∨ e = .write p → d.isAllocated p = true

/-- What the books of the disk say, the history says. -/
structure Consistent (d : MemoryDisk) : Prop where
  isAllocated_iff : ∀ p, d.isAllocated p = true ↔ Allocated p d.history
  readCount_eq : d.readCount = d.history.countP isRead
  writeCount_eq : d.writeCount = d.history.countP isWrite
  writesFor_eq : ∀ p, d.writesFor p = d.history.count (.write p)
  inPlace : InPlace d.history

theorem consistent_empty : empty.Consistent where
  isAllocated_iff p := by
    refine iff_of_false ?_ not_allocated_nil
    simp [empty, isAllocated]
  readCount_eq := rfl
  writeCount_eq := rfl
  writesFor_eq p := by simp [empty, writesFor]
  inPlace := inPlace_nil

theorem Consistent.notes (h : d.Consistent) (hd : d.Notes e d') : d'.Consistent where
  isAllocated_iff p := by
    rw [hd.isAllocated_iff, hd.history, allocated_append_singleton, h.isAllocated_iff]
  readCount_eq := by
    rw [hd.readCount, hd.history, List.countP_append, List.countP_singleton, h.readCount_eq]
  writeCount_eq := by
    rw [hd.writeCount, hd.history, List.countP_append, List.countP_singleton, h.writeCount_eq]
  writesFor_eq p := by
    simp only [hd.writesFor, hd.history, List.count_append, List.count_singleton, h.writesFor_eq,
      beq_iff_eq]
  inPlace := by
    rw [hd.history]
    apply h.inPlace.append_singleton
    intro p hp
    exact (h.isAllocated_iff p).mp (hd.in_place p hp)

theorem Consistent.refused (h : d.Consistent) (next : PageId) : { d with next }.Consistent where
  isAllocated_iff := h.isAllocated_iff
  readCount_eq := h.readCount_eq
  writeCount_eq := h.writeCount_eq
  writesFor_eq := h.writesFor_eq
  inPlace := h.inPlace

theorem eq_of_read_error {e : DiskError} (h : read p d = (.error e, d')) : d' = d := by
  unfold read at h
  split at h
  · cases h
    rfl
  · split at h <;> cases h
    rfl

theorem notes_read {x : Page} (h : read p d = (.ok x, d')) : d.Notes (.read p) d' := by
  have hp := isAllocated_of_read h
  have hids := sameIds_read h
  unfold read at h
  split at h
  · cases h
  · split at h <;> cases h
    constructor
    · rfl
    · rfl
    · rfl
    · intro q
      rfl
    · intro q
      rw [hids.isAllocated]
      simp
    · intro q hq
      obtain rfl : p = q := by simpa using hq
      exact hp

theorem notes_write {x : Page} (h : write p x d = (.ok (), d')) : d.Notes (.write p) d' := by
  have hids := sameIds_write h
  unfold write at h
  split at h
  · cases h
  · split at h
    · rename_i hp
      cases h
      constructor
      · rfl
      · rfl
      · rfl
      · intro q
        simp only [writesFor, record, Std.ExtTreeMap.getD_insert,
          Std.LawfulEqCmp.compare_eq_iff_eq, DiskEvent.write.injEq]
        split
        · rename_i hq
          rw [hq]
        · rfl
      · intro q
        rw [hids.isAllocated]
        simp
      · intro q hq
        obtain rfl : p = q := by simpa using hq
        exact hp
    · cases h

theorem notes_install (d : MemoryDisk) (freeIds : List PageId) (next p : PageId) :
    d.Notes (.allocate p) ({ d with freeIds, next }.install p) := by
  constructor
  · rfl
  · rfl
  · rfl
  · intro q
    rfl
  · intro q
    rw [isAllocated_update (snapshot_insert rfl)]
    by_cases hq : q = p
    · simp [hq]
    · rw [if_neg hq]
      simp [Ne.symm hq, isAllocated]
  · intro q hq
    simp at hq

theorem notes_allocate {r : Except DiskError PageId} (h : allocate d = (r, d')) :
    (∃ e, d.Notes e d') ∨ ∃ next, d' = { d with next } := by
  cases allocates h with
  | recycled => exact Or.inl ⟨_, notes_install d _ d.next _⟩
  | fresh => exact Or.inl ⟨_, notes_install d d.freeIds _ _⟩
  | exhausted => exact Or.inr ⟨_, rfl⟩

theorem notes_deallocate {r : Except DiskError Unit} (h : deallocate p d = (r, d')) :
    d.Notes (.deallocate p) d' := by
  have hsnapshot := snapshot_deallocate h
  cases deallocates h
  all_goals
    constructor
    · rfl
    · rfl
    · rfl
    · intro q
      rfl
    · intro q
      rw [isAllocated_update hsnapshot]
      by_cases hq : q = p <;> simp [hq, Ne.symm]
    · intro q hq
      simp at hq

theorem notes_of_request (h : Device.Request d d') :
    (∃ e, d.Notes e d') ∨ ∃ next, d' = { d with next } := by
  cases h with
  | @read p r h =>
    rcases r with e | x
    · exact Or.inr ⟨d.next, eq_of_read_error h⟩
    · exact Or.inl ⟨_, notes_read h⟩
  | @write p x r h =>
    rcases r with e | _
    · exact Or.inr ⟨d.next, eq_of_write_error h⟩
    · exact Or.inl ⟨_, notes_write h⟩
  | @allocate r h => exact notes_allocate h
  | deallocate h => exact Or.inl ⟨_, notes_deallocate h⟩

theorem Consistent.leads (h : d.Consistent) (hl : Device.Leads d d') : d'.Consistent := by
  induction hl with
  | refl => exact h
  | tail _ hr ih =>
    rcases notes_of_request hr with ⟨e, he⟩ | ⟨next, rfl⟩
    · exact ih.notes he
    · exact ih.refused next

/-- The ids that were handed out are those below the next one. They are in use or wait to be handed
out again. -/
structure Numbered (d : MemoryDisk) : Prop where
  ordered : d.Ordered
  complete : d.Complete
  mem_issued_iff : ∀ p, p ∈ issued d.history ↔ p < d.next

theorem numbered_empty : empty.Numbered where
  ordered := ordered_empty
  complete _ hp := absurd hp UInt32.not_lt_zero
  mem_issued_iff _ := iff_of_false (Finset.notMem_empty _) UInt32.not_lt_zero

namespace Numbered

theorem card_issued (h : d.Numbered) : (issued d.history).card = d.next.toNat := by
  have himage : (issued d.history).image UInt32.toNat = Finset.range d.next.toNat := by
    ext n
    rw [Finset.mem_image, Finset.mem_range]
    constructor
    · rintro ⟨p, hp, rfl⟩
      exact UInt32.lt_iff_toNat_lt.mp ((h.mem_issued_iff p).mp hp)
    · intro hn
      have hlt : (UInt32.ofNat n).toNat = n :=
        UInt32.toNat_ofNat_of_lt' (Nat.lt_trans hn d.next.toNat_lt)
      refine ⟨UInt32.ofNat n, (h.mem_issued_iff _).mpr ?_, hlt⟩
      rwa [UInt32.lt_iff_toNat_lt, hlt]
  rw [← Finset.card_range d.next.toNat, ← himage,
    Finset.card_image_of_injective _ fun _ _ => UInt32.toNat_inj.mp]

theorem keep (h : d.Numbered) (hids : SameIds d d')
    (hissued : issued d'.history = issued d.history) : d'.Numbered where
  ordered := hids.ordered h.ordered
  complete := hids.complete h.complete
  mem_issued_iff p := by
    rw [hissued, hids.next]
    exact h.mem_issued_iff p

theorem allocate (h : d.Numbered) (hroom : d.next ≠ PageId.invalid) {r : Except DiskError PageId}
    (ha : allocate d = (r, d')) : d'.Numbered := by
  obtain ⟨d'', ha', hnext, -⟩ := exists_allocate hroom
  obtain ⟨rfl, rfl⟩ := Prod.mk.inj (ha'.symm.trans ha)
  obtain ⟨hout, hold⟩ := handsOut_of_allocate h.ordered ha
  have hhistory : d''.history = d.history ++ [.allocate d.nextId] :=
    Journaled.allocate (show Device.allocate d = _ from ha)
  refine ⟨hout.ordered, hout.complete h.complete, fun p => ?_⟩
  rw [hhistory, mem_issued, List.mem_append, ← mem_issued, h.mem_issued_iff, List.mem_singleton,
    DiskEvent.allocate.injEq, hnext]
  rcases hf : d.freeIds with _ | ⟨q, rest⟩
  · rw [if_pos rfl, lt_add_one_iff hroom, nextId, hf, List.headD_nil]
  · rw [if_neg (List.cons_ne_nil q rest), nextId, hf, List.headD_cons, or_iff_left_iff_imp]
    rintro rfl
    exact h.ordered.free_lt p (hf ▸ List.mem_cons_self)

theorem deallocate (h : d.Numbered) {r : Except DiskError Unit} (hd : deallocate p d = (r, d')) :
    d'.Numbered := by
  obtain ⟨rfl, hreleases⟩ := releases_of_deallocate h.ordered hd
  have hhistory := (notes_deallocate hd).history
  refine ⟨hreleases.ordered, hreleases.complete h.complete, fun q => ?_⟩
  rw [hhistory, issued_append (by simp [allocated?]), hreleases.next]
  exact h.mem_issued_iff q

theorem request (h : d.Numbered) (hroom : d.next ≠ PageId.invalid) (hr : Device.Request d d') :
    d'.Numbered := by
  cases hr with
  | @read p r hr =>
    apply h.keep (sameIds_read hr)
    rcases r with e | x
    · rw [eq_of_read_error hr]
    · rw [(notes_read hr).history, issued_append (by simp [allocated?])]
  | @write p x r hw =>
    apply h.keep (sameIds_write hw)
    rcases r with e | _
    · rw [eq_of_write_error hw]
    · rw [(notes_write hw).history, issued_append (by simp [allocated?])]
  | allocate ha => exact h.allocate hroom ha
  | deallocate hd => exact h.deallocate hd

theorem next_ne_invalid (h : d.Numbered) (hfew : (issued d.history).card < PageId.invalid.toNat) :
    d.next ≠ PageId.invalid := by
  intro hn
  rw [h.card_issued, hn] at hfew
  exact Nat.lt_irrefl _ hfew

theorem leads (h : d.Numbered) (hl : Device.Leads d d')
    (hfew : (issued d'.history).card < PageId.invalid.toNat) : d'.Numbered := by
  induction hl with
  | refl => exact h
  | tail _ hr ih =>
    obtain ⟨events, he⟩ := journal_of_leads (.single hr)
    change MemoryDisk.history _ = MemoryDisk.history _ ++ events at he
    rw [he] at hfew
    have hfew' := Nat.lt_of_le_of_lt (Finset.card_le_card (issued_subset _ events)) hfew
    have hd := ih hfew'
    exact hd.request (hd.next_ne_invalid hfew') hr

theorem nodup_keys_append (h : d.Numbered) : (d.pages.keys ++ d.freeIds).Nodup := by
  apply Std.ExtTreeMap.nodup_keys.append h.ordered.free_nodup
  intro p hp hfree
  rw [Std.ExtTreeMap.mem_keys, Std.ExtTreeMap.mem_iff_contains] at hp
  exact h.ordered.not_mem_freeIds hp hfree

theorem mem_keys_append (h : d.Numbered) :
    p ∈ d.pages.keys ++ d.freeIds ↔ p < d.next := by
  rw [List.mem_append, Std.ExtTreeMap.mem_keys, Std.ExtTreeMap.mem_iff_contains]
  constructor
  · rintro (hp | hp)
    · exact h.ordered.lt_next_of_isAllocated hp
    · exact h.ordered.free_lt p hp
  · exact h.complete p

end Numbered

/-- The history of a memory disk has one entry for each call that succeeded, in their order. By its
history a page is allocated if it is on the disk, was read and written as often as the disk has
counted, and only while it was allocated. Until all ids are handed out, the pages on the disk and
the released ids are all the ids below the next one, each of them once. -/
theorem history_faithful (calls : List DeviceCall) (s : Served MemoryDisk)
    (hs : s = Served.run ⟨empty, []⟩ calls) :
    s.device.history = s.past.reverse.filterMap Reply.event? ∧
    s.device.Consistent ∧
    ∑ p : PageId, s.device.writesFor p = s.device.writeCount ∧
    ((issued s.device.history).card < PageId.invalid.toNat →
      (s.device.pages.keys ++ s.device.freeIds).Nodup ∧
      ∀ p, p ∈ s.device.pages.keys ++ s.device.freeIds ↔ p < s.device.next) := by
  subst hs
  have hleads := Served.leads_run ⟨empty, []⟩ calls
  have hconsistent := consistent_empty.leads hleads
  refine ⟨Served.journal_run (s := ⟨empty, []⟩) rfl calls, hconsistent, ?_, fun hfew => ?_⟩
  · simp only [hconsistent.writesFor_eq, sum_count_write, hconsistent.writeCount_eq]
  · have hnumbered := numbered_empty.leads hleads hfew
    exact ⟨hnumbered.nodup_keys_append, fun p => hnumbered.mem_keys_append⟩

def inkAndBlots : List DeviceCall :=
  [.read 0 Page.size, .allocate, .write 0 Page.zero.bytes, .write 0 [7], .read 0 Page.size,
    .read 0 0, .allocate, .deallocate 0, .write 0 Page.zero.bytes, .deallocate 0, .allocate,
    .write PageId.invalid Page.zero.bytes, .deallocate 1, .deallocate 5]

theorem history_faithful_ink_and_blots :
    ∃ s, s = Served.run ⟨empty, []⟩ inkAndBlots ∧
      s.device.history = [.allocate 0, .write 0, .read 0, .allocate 1, .deallocate 0,
        .deallocate 0, .allocate 0, .deallocate 1, .deallocate 5] ∧
      s.device.Consistent ∧ (issued s.device.history).card < PageId.invalid.toNat ∧
      ∀ p, p ∈ s.device.pages.keys ++ s.device.freeIds ↔ p < s.device.next := by
  obtain ⟨-, hconsistent, -, hids⟩ := history_faithful inkAndBlots _ rfl
  have hfew : (issued (Served.run ⟨empty, []⟩ inkAndBlots).device.history).card <
      PageId.invalid.toNat := by
    decide +kernel
  refine ⟨_, rfl, ?_, hconsistent, hfew, (hids hfew).2⟩
  decide +kernel

end MemoryDisk

end BufferPool
