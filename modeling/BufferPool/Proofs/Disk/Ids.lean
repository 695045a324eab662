import Mathlib.Data.List.Nodup
import BufferPool.Proofs.Disk.Memory

/-! # Ids

Which ids a memory disk has handed out and which wait to be handed out again,
also behind failures that keep requests from it. A search for an unused id
puts the ids that it skips on the disk, and they are taken off again one by one.
-/

namespace BufferPool

namespace MemoryDisk

/-- Every id that was ever handed out is on the disk or waits to be handed out again. -/
def Complete (d : MemoryDisk) : Prop :=
  ∀ p, p < d.next → d.isAllocated p = true ∨ p ∈ d.freeIds

/-- From `d` to `d'` no id was handed out or released. -/
structure SameIds (d d' : MemoryDisk) : Prop where
  next : d'.next = d.next
  freeIds : d'.freeIds = d.freeIds
  isAllocated : ∀ p, d'.isAllocated p = d.isAllocated p

structure HandsOut (d : MemoryDisk) (ids : List PageId) (d' : MemoryDisk) : Prop where
  ordered : d'.Ordered
  complete : d.Complete → d'.Complete
  lt_next : ∀ p, p < d.next → p < d'.next
  nodup : ids.Nodup
  absent : ∀ p ∈ ids, d.isAllocated p = false
  isAllocated_iff : ∀ p, d'.isAllocated p = true ↔ d.isAllocated p = true ∨ p ∈ ids

structure Releases (d : MemoryDisk) (ids : List PageId) (d' : MemoryDisk) : Prop where
  ordered : d'.Ordered
  complete : d.Complete → d'.Complete
  next : d'.next = d.next
  isAllocated_iff : ∀ p, d'.isAllocated p = true ↔ d.isAllocated p = true ∧ p ∉ ids

variable {d d' d'' : MemoryDisk} {p q : PageId} {x : Page} {ids : List PageId}

theorem isAllocated_eq_false_iff : d.isAllocated p = false ↔ d.snapshot p = none := by
  rw [isAllocated_eq_isSome, Option.isSome_eq_false_iff, Option.isNone_iff_eq_none]

theorem isAllocated_update {y : Option Page}
    (h : d'.snapshot = Function.update d.snapshot p y) :
    d'.isAllocated q = if q = p then y.isSome else d.isAllocated q := by
  rw [isAllocated_eq_isSome, isAllocated_eq_isSome, h, Function.update_apply,
    apply_ite Option.isSome]

theorem snapshot_deallocate {r : Except DiskError Unit} (h : deallocate p d = (r, d')) :
    d'.snapshot = Function.update d.snapshot p none := by
  cases deallocates h with
  | released => exact snapshot_erase rfl
  | absent hp =>
    have hnone : d.snapshot p = none := isAllocated_eq_false_iff.mp (Bool.eq_false_iff.mpr hp)
    exact (Function.update_eq_self_iff.mpr hnone.symm).symm

namespace Ordered

theorem lt_next_of_isAllocated (h : d.Ordered) (hp : d.isAllocated p = true) : p < d.next := by
  rw [isAllocated_eq_isSome, Option.isSome_iff_exists] at hp
  obtain ⟨x, hx⟩ := hp
  exact h.stored_lt p x hx

theorem not_mem_freeIds (h : d.Ordered) (hp : d.isAllocated p = true) : p ∉ d.freeIds := by
  intro hm
  rw [isAllocated_eq_isSome, h.free_absent p hm] at hp
  cases hp

theorem of_isAllocated (lt : ∀ p, d.isAllocated p = true → p < d.next)
    (free_lt : ∀ p ∈ d.freeIds, p < d.next) (free_nodup : d.freeIds.Nodup)
    (free_absent : ∀ p ∈ d.freeIds, d.isAllocated p = false) : d.Ordered where
  stored_lt p x hx := lt p (by rw [isAllocated_eq_isSome, hx]; rfl)
  free_lt := free_lt
  free_nodup := free_nodup
  free_absent p hp := isAllocated_eq_false_iff.mp (free_absent p hp)

end Ordered

namespace SameIds

theorem refl (d : MemoryDisk) : SameIds d d := ⟨rfl, rfl, fun _ => rfl⟩

theorem trans (h : SameIds d d') (h' : SameIds d' d'') : SameIds d d'' where
  next := h'.next.trans h.next
  freeIds := h'.freeIds.trans h.freeIds
  isAllocated p := (h'.isAllocated p).trans (h.isAllocated p)

theorem ordered (h : SameIds d d') (hd : d.Ordered) : d'.Ordered := by
  apply Ordered.of_isAllocated
  · intro p hp
    rw [h.isAllocated] at hp
    rw [h.next]
    exact hd.lt_next_of_isAllocated hp
  · rw [h.freeIds, h.next]
    exact hd.free_lt
  · rw [h.freeIds]
    exact hd.free_nodup
  · intro p hp
    rw [h.freeIds] at hp
    rw [h.isAllocated, isAllocated_eq_false_iff]
    exact hd.free_absent p hp

theorem complete (h : SameIds d d') (hd : d.Complete) : d'.Complete := by
  intro p hp
  rw [h.next] at hp
  rw [h.isAllocated, h.freeIds]
  exact hd p hp

end SameIds

theorem sameIds_read {r : Except DiskError Page} (h : read p d = (r, d')) : SameIds d d' := by
  unfold read at h
  split at h
  · cases h
    exact .refl d
  · split at h <;> cases h <;> exact ⟨rfl, rfl, fun _ => rfl⟩

theorem isAllocated_of_read (h : read p d = (.ok x, d')) : d.isAllocated p = true := by
  unfold read at h
  split at h
  · cases h
  · split at h
    · rename_i hx
      rw [isAllocated_eq_isSome, snapshot, hx]
      rfl
    · cases h

theorem isOk_read (hp : p ≠ PageId.invalid) (ha : d.isAllocated p = true) :
    (read p d).1.isOk = true := by
  rw [isAllocated_eq_isSome, Option.isSome_iff_exists] at ha
  obtain ⟨x, hx⟩ := ha
  rw [snapshot] at hx
  simp only [read, if_neg hp, hx]
  rfl

theorem isMissing_of_read {e : DiskError} (hp : p ≠ PageId.invalid)
    (h : (read p d).1 = .error e) : e.isMissing = true := by
  unfold read at h
  rw [if_neg hp] at h
  split at h
  · cases h
  · cases h
    unfold missing
    split <;> rfl

theorem sameIds_write {r : Except DiskError Unit} (h : write p x d = (r, d')) : SameIds d d' := by
  unfold write at h
  split at h
  · cases h
    exact .refl d
  · split at h
    · rename_i hp
      cases h
      refine ⟨rfl, rfl, fun q => (isAllocated_update (snapshot_insert rfl)).trans ?_⟩
      split
      · rename_i hq
        rw [hq, hp]
        rfl
      · rfl
    · cases h
      exact .refl d

theorem SameIds.handsOut (h : SameIds d d') (hd : d.Ordered) : HandsOut d [] d' := by
  constructor
  · exact h.ordered hd
  · exact h.complete
  · intro p hp
    rwa [h.next]
  · exact List.nodup_nil
  · simp
  · intro p
    rw [h.isAllocated]
    simp

theorem HandsOut.nil (h : d.Ordered) : HandsOut d [] d := (SameIds.refl d).handsOut h

theorem HandsOut.trans {ids' : List PageId} (h : HandsOut d ids d') (h' : HandsOut d' ids' d'') :
    HandsOut d (ids ++ ids') d'' := by
  have hback : ∀ p ∈ ids', d.isAllocated p = false ∧ p ∉ ids := by
    intro p hp
    have hn := h'.absent p hp
    rw [← Bool.not_eq_true, h.isAllocated_iff, not_or, Bool.not_eq_true] at hn
    exact hn
  constructor
  · exact h'.ordered
  · exact fun hd => h'.complete (h.complete hd)
  · exact fun p hp => h'.lt_next p (h.lt_next p hp)
  · exact h.nodup.append h'.nodup fun p hp hp' => (hback p hp').2 hp
  · exact List.forall_mem_append.mpr ⟨h.absent, fun p hp => (hback p hp).1⟩
  · intro p
    rw [h'.isAllocated_iff, h.isAllocated_iff, List.mem_append, or_assoc]

theorem HandsOut.of_added (h : Storage.Added d p d') (complete : d.Complete → d'.Complete) :
    HandsOut d [p] d' := by
  obtain ⟨x, -, hx⟩ := h.page?
  constructor
  · exact h.ok
  · exact complete
  · exact h.known
  · exact List.nodup_singleton p
  · rintro q hq
    rw [List.mem_singleton.mp hq, isAllocated_eq_false_iff]
    exact h.absent
  · intro q
    rw [isAllocated_update hx, List.mem_singleton]
    split
    · rename_i hq
      exact iff_of_true rfl (Or.inr hq)
    · rename_i hq
      exact (or_iff_left hq).symm

theorem handsOut_of_allocate (hd : d.Ordered) (h : allocate d = (.ok p, d')) :
    HandsOut d [p] d' ∧ (p < d.next → d'.next = d.next) := by
  cases allocates h with
  | recycled hf =>
    refine ⟨.of_added (hd.reuse hf rfl rfl rfl) fun hc q hq => ?_, fun _ => rfl⟩
    rw [isAllocated_update (snapshot_insert rfl)]
    by_cases hqp : q = p
    · exact Or.inl (if_pos hqp)
    · have := hc q hq
      rw [hf, List.mem_cons, or_iff_right hqp] at this
      rwa [if_neg hqp]
  | fresh hf hvalid =>
    refine ⟨.of_added (hd.extend hvalid rfl rfl hf) fun hc q hq => ?_,
      fun hp => absurd hp (UInt32.lt_irrefl _)⟩
    rw [isAllocated_update (snapshot_insert rfl)]
    by_cases hqn : q = d.next
    · exact Or.inl (if_pos hqn)
    · rw [if_neg hqn]
      exact hc q (((lt_add_one_iff hvalid).mp hq).resolve_right hqn)

theorem next_eq_of_allocate_error {e : DiskError} (h : allocate d = (.error e, d')) :
    d.next = PageId.invalid := by
  cases allocates h with
  | exhausted _ hinvalid => exact hinvalid

def nextId (d : MemoryDisk) : PageId := d.freeIds.headD d.next

theorem exists_allocate (hroom : d.next ≠ PageId.invalid) :
    ∃ d', allocate d = (.ok d.nextId, d') ∧
      d'.next = (if d.freeIds = [] then d.next + 1 else d.next) ∧ d'.freeIds = d.freeIds.tail ∧
      ∀ q, d'.isAllocated q = if q = d.nextId then true else d.isAllocated q := by
  rcases hf : d.freeIds with _ | ⟨p, rest⟩
  · refine ⟨{ d with next := d.next + 1 }.install d.next, ?_, rfl, hf, fun q => ?_⟩
    · simp only [allocate, hf, if_neg hroom, nextId, List.headD_nil]
    · rw [nextId, hf]
      exact isAllocated_update (snapshot_insert rfl)
  · refine ⟨{ d with freeIds := rest }.install p, ?_, rfl, rfl, fun q => ?_⟩
    · simp only [allocate, hf, nextId, List.headD_cons]
    · rw [nextId, hf]
      exact isAllocated_update (snapshot_insert rfl)

theorem ne_invalid_of_lt (h : p < q) : p ≠ PageId.invalid := by
  rintro rfl
  exact absurd (UInt32.toNat_lt q) (Nat.not_lt.mpr (UInt32.lt_iff_toNat_lt.mp h))

theorem Ordered.isAllocated_nextId (h : d.Ordered) : d.isAllocated d.nextId = false := by
  rw [isAllocated_eq_false_iff, nextId]
  rcases hf : d.freeIds with _ | ⟨p, rest⟩
  · rcases hp : d.snapshot d.next with _ | x
    · exact hp
    · exact absurd (h.stored_lt d.next x hp) (UInt32.lt_irrefl _)
  · exact h.free_absent p (hf ▸ List.mem_cons_self)

theorem Releases.nil (h : d.Ordered) : Releases d [] d := by
  constructor
  · exact h
  all_goals simp

theorem Releases.trans {ids' : List PageId} (h : Releases d ids d') (h' : Releases d' ids' d'') :
    Releases d (ids ++ ids') d'' := by
  constructor
  · exact h'.ordered
  · exact fun hd => h'.complete (h.complete hd)
  · exact h'.next.trans h.next
  · intro p
    rw [h'.isAllocated_iff, h.isAllocated_iff, List.mem_append, not_or, and_assoc]

theorem deallocate_books {r : Except DiskError Unit} (h : deallocate p d = (r, d')) :
    r = .ok () ∧ d'.next = d.next ∧
      d'.freeIds = if d.isAllocated p then d.freeIds ++ [p] else d.freeIds := by
  cases deallocates h with
  | released hp => exact ⟨rfl, rfl, (if_pos hp).symm⟩
  | absent hp => exact ⟨rfl, rfl, (if_neg hp).symm⟩

theorem HandsOut.releases {ids' : List PageId} (h : HandsOut d (ids ++ ids') d')
    (h' : Releases d' ids d'') : HandsOut d ids' d'' := by
  have hdisjoint := List.disjoint_of_nodup_append h.nodup
  have habsent := List.forall_mem_append.mp h.absent
  constructor
  · exact h'.ordered
  · exact fun hd => h'.complete (h.complete hd)
  · intro p hp
    rw [h'.next]
    exact h.lt_next p hp
  · exact h.nodup.of_append_right
  · exact habsent.2
  · intro p
    rw [h'.isAllocated_iff, h.isAllocated_iff, List.mem_append]
    constructor
    · rintro ⟨hp | hp | hp, hn⟩
      · exact Or.inl hp
      · exact absurd hp hn
      · exact Or.inr hp
    · rintro (hp | hp)
      · refine ⟨Or.inl hp, fun hm => ?_⟩
        rw [habsent.1 p hm] at hp
        cases hp
      · exact ⟨Or.inr (Or.inr hp), fun hm => hdisjoint hm hp⟩

theorem releases_of_deallocate {r : Except DiskError Unit} (hd : d.Ordered)
    (h : deallocate p d = (r, d')) : r = .ok () ∧ Releases d [p] d' := by
  obtain ⟨rfl, hnext, hfree⟩ := deallocate_books h
  have hd' : Device.deallocate p d = (.ok (), d') := h
  obtain ⟨hsteady, hpage⟩ := Lawful.deallocate_ok hd hd'
  have hallocated := fun q => isAllocated_update (q := q) hpage
  refine ⟨rfl, hsteady.ok, fun hc q hq => ?_, hnext, fun q => ?_⟩
  · rw [hnext] at hq
    rw [hallocated, hfree]
    by_cases hqp : q = p
    · subst hqp
      right
      split
      · exact List.mem_append_right _ (List.mem_singleton_self q)
      · exact (hc q hq).resolve_left ‹_›
    · rw [if_neg hqp]
      apply (hc q hq).imp_right
      intro hm
      split
      · exact List.mem_append_left _ hm
      · exact hm
  · rw [hallocated, List.mem_singleton]
    split
    · rename_i hqp
      simp [hqp]
    · rename_i hqp
      exact (and_iff_left hqp).symm

end MemoryDisk

/-- A device on a memory disk. It may refuse a request, which the disk then never sees. -/
class OnMemory (δ : Type) [Device δ] where
  memory : δ → MemoryDisk
  read {d d' : δ} {p : PageId} {r : Except DiskError Page} : Device.read p d = (r, d') →
    (∃ e, r = .error e ∧ memory d' = memory d) ∨ MemoryDisk.read p (memory d) = (r, memory d')
  write {d d' : δ} {p : PageId} {x : Page} {r : Except DiskError Unit} :
    Device.write p x d = (r, d') →
    (∃ e, r = .error e ∧ memory d' = memory d) ∨ MemoryDisk.write p x (memory d) = (r, memory d')
  allocate {d d' : δ} {r : Except DiskError PageId} : Device.allocate d = (r, d') →
    (∃ e, r = .error e ∧ memory d' = memory d) ∨ MemoryDisk.allocate (memory d) = (r, memory d')
  deallocate {d d' : δ} {p : PageId} {r : Except DiskError Unit} :
    Device.deallocate p d = (r, d') →
    (∃ e, r = .error e ∧ memory d' = memory d) ∨ MemoryDisk.deallocate p (memory d) = (r, memory d')

instance : OnMemory MemoryDisk where
  memory := id
  read := Or.inr
  write := Or.inr
  allocate := Or.inr
  deallocate := Or.inr

namespace FaultyDisk

variable {δ : Type} [Device δ] [OnMemory δ]

open OnMemory

theorem attempt_memory {α : Type} {kind : Request} {p : PageId}
    {request : δ → Except DiskError α × δ}
    {carried : MemoryDisk → Except DiskError α × MemoryDisk}
    (hrequest : ∀ {d d' : δ} {r}, request d = (r, d') →
      (∃ e, r = .error e ∧ memory d' = memory d) ∨ carried (memory d) = (r, memory d'))
    {d d' : FaultyDisk δ} {r : Except DiskError α} (h : d.attempt kind p request = (r, d')) :
    (∃ e, r = .error e ∧ memory d'.device = memory d.device) ∨
      carried (memory d.device) = (r, memory d'.device) := by
  obtain ⟨-, ⟨error, -, rfl, hd⟩ | ⟨-, hr⟩⟩ := attempt_cases h
  · exact Or.inl ⟨_, rfl, congrArg memory hd⟩
  · exact hrequest hr

instance : OnMemory (FaultyDisk δ) where
  memory d := memory d.device
  read := attempt_memory OnMemory.read
  write := attempt_memory OnMemory.write
  allocate := attempt_memory OnMemory.allocate
  deallocate := attempt_memory OnMemory.deallocate

end FaultyDisk

namespace Pool

open OnMemory MemoryDisk

variable {δ : Type} [Device δ] [OnMemory δ] {d d' d'' : δ}

theorem BoundedSearch.handsOut {inUse : PageId → Bool} {fuel : Nat}
    {answer : Except DiskError PageId} {skipped : List PageId}
    (h : BoundedSearch inUse fuel d answer skipped d') (hd : (memory d).Ordered)
    (hroom : (memory d).next ≠ PageId.invalid ∨ ∃ p, answer = .ok p)
    (hknown : ∀ p, inUse p = true → p < (memory d).next) :
    HandsOut (memory d) (skipped ++ answer.toOption.toList) (memory d') := by
  induction h with
  | spent => exact .nil hd
  | refused ha =>
    rcases OnMemory.allocate ha with ⟨_, _, hm⟩ | hm
    · rw [hm]
      exact .nil hd
    · refine absurd (next_eq_of_allocate_error hm) ?_
      exact hroom.resolve_right (by simp)
  | found ha =>
    have hm := (OnMemory.allocate ha).resolve_left (by simp)
    exact (handsOut_of_allocate hd hm).1
  | skipped ha hused _ ih =>
    have hm := (OnMemory.allocate ha).resolve_left (by simp)
    obtain ⟨hq, hnext⟩ := handsOut_of_allocate hd hm
    -- An id in use was handed out before, so the search has not used up a new one.
    have hsame := hnext (hknown _ hused)
    have hrest := ih hq.ordered (by rwa [hsame]) fun p hp => hq.lt_next p (hknown p hp)
    exact hq.trans hrest

theorem GivesBack.releases {ps : List PageId} {r : Except PoolError Unit}
    (h : GivesBack ps d r d') (hd : (memory d).Ordered) :
    ∃ released kept, ps = released ++ kept ∧ Releases (memory d) released (memory d') ∧
      (kept = [] ∧ r = .ok () ∨ ∃ p rest e, kept = p :: rest ∧ r = .error (.releasing p e)) := by
  induction h with
  | done => exact ⟨[], [], rfl, .nil hd, Or.inl ⟨rfl, rfl⟩⟩
  | @refused _ _ p ps e ha =>
    rcases OnMemory.deallocate ha with ⟨_, -, hm⟩ | hm
    · rw [hm]
      exact ⟨[], p :: ps, rfl, .nil hd, Or.inr ⟨p, ps, e, rfl, rfl⟩⟩
    · cases (releases_of_deallocate hd hm).1
  | @released _ _ _ p _ _ ha _ ih =>
    have hm := (OnMemory.deallocate ha).resolve_left (by simp)
    obtain ⟨-, hp⟩ := releases_of_deallocate hd hm
    obtain ⟨released, kept, rfl, hrest, hend⟩ := ih hp.ordered
    exact ⟨p :: released, kept, rfl, hp.trans hrest, hend⟩

theorem BoundedSearch.handsOut_back {inUse : PageId → Bool} {fuel : Nat}
    {answer : Except DiskError PageId} {skipped : List PageId} {r : Except PoolError Unit}
    (h : BoundedSearch inUse fuel d answer skipped d') (hback : GivesBack skipped d' r d'')
    (hd : (memory d).Ordered) (hroom : (memory d).next ≠ PageId.invalid ∨ ∃ p, answer = .ok p)
    (hknown : ∀ p, inUse p = true → p < (memory d).next) :
    ∃ kept, HandsOut (memory d) (kept ++ answer.toOption.toList) (memory d'') ∧
      (∀ p ∈ kept, inUse p = true) ∧
      (kept = [] ∧ r = .ok () ∨ ∃ p rest e, kept = p :: rest ∧ r = .error (.releasing p e)) := by
  have hhands := h.handsOut hd hroom hknown
  have hskipped := h.inUse_of_mem
  obtain ⟨released, kept, rfl, hreleased, hend⟩ := hback.releases hhands.ordered
  rw [List.append_assoc] at hhands
  exact ⟨kept, hhands.releases hreleased, (List.forall_mem_append.mp hskipped).2, hend⟩

theorem GivesBack.eq_ok {d d' : MemoryDisk} {ps : List PageId} {r : Except PoolError Unit}
    (h : GivesBack ps d r d') : r = .ok () := by
  induction h with
  | done => rfl
  | refused hd => cases (deallocate_books hd).1
  | released _ _ ih => exact ih

theorem BoundedSearch.length_eq {d d' : MemoryDisk} {inUse : PageId → Bool} {fuel : Nat}
    {e : DiskError} {skipped : List PageId}
    (h : BoundedSearch inUse fuel d (.error e) skipped d') (hd : d.Ordered)
    (hroom : d.next ≠ PageId.invalid) (hknown : ∀ p, inUse p = true → p < d.next) :
    skipped.length = fuel := by
  generalize he : (Except.error e : Except DiskError PageId) = answer at h
  induction h with
  | spent => rfl
  | refused ha => exact absurd (next_eq_of_allocate_error ha) hroom
  | found => cases he
  | skipped ha hused _ ih =>
    obtain ⟨hq, hnext⟩ := handsOut_of_allocate hd ha
    rw [List.length_cons, ih hq.ordered _ _ he]
    · rwa [hnext (hknown _ hused)]
    · exact fun p hp => hq.lt_next p (hknown p hp)

end Pool

end BufferPool
