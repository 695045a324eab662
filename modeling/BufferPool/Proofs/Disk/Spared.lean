import BufferPool.Proofs.Disk.Ids
import BufferPool.Proofs.Disk.Requests

/-! # Spared requests

A plan of failures spares a call if none of the requests of the call is due to
fail. Then the device behind the plan answers, and a memory disk refuses only
pages that it does not have, ids that it does not have, and the invalid id,
which it never hands out.
-/

namespace BufferPool

namespace FaultyDisk

open Device (Leads)

variable {δ : Type} {d d' d'' : FaultyDisk δ}

/-- No request that came between `d` and `d'` was planned to fail. -/
def Spares (d d' : FaultyDisk δ) : Prop :=
  ∀ kind i, (d.faults kind).served ≤ i → i < (d'.faults kind).served →
    (d.faults kind).plan i = none

instance : Decidable (Spares d d') :=
  decidable_of_iff (∀ kind ∈ [Request.read, .write, .allocate, .deallocate],
    ∀ i < (d'.faults kind).served, (d.faults kind).served ≤ i → (d.faults kind).plan i = none)
    ⟨fun h kind i hi hlt => h kind (by cases kind <;> simp) i hlt hi,
      fun h kind _ i hlt hi => h kind i hi hlt⟩

/-- The plans are the same, and `d'` has had all requests that `d` has had. -/
structure Later (d d' : FaultyDisk δ) : Prop where
  plan : ∀ kind, (d'.faults kind).plan = (d.faults kind).plan
  served : ∀ kind, (d.faults kind).served ≤ (d'.faults kind).served

theorem Later.refl (d : FaultyDisk δ) : Later d d := ⟨fun _ => rfl, fun _ => Nat.le_refl _⟩

theorem Later.trans (h : Later d d') (h' : Later d' d'') : Later d d'' :=
  ⟨fun kind => (h'.plan kind).trans (h.plan kind),
    fun kind => Nat.le_trans (h.served kind) (h'.served kind)⟩

namespace Spares

theorem left (h : Spares d d'') (h' : Later d' d'') : Spares d d' :=
  fun kind i hi hlt => h kind i hi (Nat.lt_of_lt_of_le hlt (h'.served kind))

theorem right (h : Spares d d'') (h' : Later d d') : Spares d' d'' := by
  intro kind i hi hlt
  rw [h'.plan]
  exact h kind i (Nat.le_trans (h'.served kind) hi) hlt

end Spares

section Attempt

variable {α : Type} {kind : Request} {p : PageId} {request : δ → Except DiskError α × δ}
  {r : Except DiskError α}

theorem served_attempt (h : d.attempt kind p request = (r, d')) (k : Request) :
    (d'.faults k).served = (d.faults k).served + if k = kind then 1 else 0 := by
  unfold attempt at h
  cases kind <;> simp only [setFaults] at h <;> split at h <;> cases h <;> cases k <;> rfl

theorem later_of_attempt (h : d.attempt kind p request = (r, d')) : Later d d' :=
  ⟨(attempt_cases h).1, fun k => (served_attempt h k).symm ▸ Nat.le_add_right _ _⟩

theorem request_of_spares (h : d.attempt kind p request = (r, d')) (hd : Spares d d') :
    request d.device = (r, d'.device) := by
  have hserved := served_attempt h kind
  rw [if_pos rfl] at hserved
  have hnone := hd kind _ (Nat.le_refl _) (hserved ▸ Nat.lt_succ_self _)
  obtain ⟨-, ⟨error, hsome, -⟩ | ⟨-, hrequest⟩⟩ := attempt_cases h
  · rw [Faults.next, hnone] at hsome
    cases hsome
  · exact hrequest

end Attempt

theorem later_of_leads [Device δ] (h : Leads d d') : Later d d' := by
  induction h with
  | refl => exact .refl d
  | tail _ hr ih =>
    apply ih.trans
    cases hr with
    | read h | write h | allocate h | deallocate h => exact later_of_attempt h

end FaultyDisk

namespace MemoryDisk

variable {d d' : MemoryDisk} {p : PageId}

/-- The invalid id is neither that of a page nor waiting to be handed out. -/
structure ValidIds (d : MemoryDisk) : Prop where
  ne_of_isAllocated : ∀ p, d.isAllocated p = true → p ≠ PageId.invalid
  ne_of_mem : ∀ p ∈ d.freeIds, p ≠ PageId.invalid

theorem validIds_empty : empty.ValidIds where
  ne_of_isAllocated p hp := by simp [isAllocated, empty] at hp
  ne_of_mem := nofun

theorem SameIds.validIds (h : SameIds d d') (hd : d.ValidIds) : d'.ValidIds where
  ne_of_isAllocated p hp := hd.ne_of_isAllocated p ((h.isAllocated p).symm.trans hp)
  ne_of_mem := h.freeIds ▸ hd.ne_of_mem

theorem eq_invalidPageId_of_allocate {e : DiskError} (h : allocate d = (.error e, d')) :
    e = .invalidPageId := by
  cases allocates h
  rfl

namespace ValidIds

theorem allocate {r : Except DiskError PageId} (hd : d.ValidIds) (h : allocate d = (r, d')) :
    d'.ValidIds ∧ ∀ p, r = .ok p → p ≠ PageId.invalid := by
  have install : ∀ (d₁ : MemoryDisk) q, (∀ p, d₁.isAllocated p = d.isAllocated p) →
      d₁.freeIds ⊆ d.freeIds → q ≠ PageId.invalid → (d₁.install q).ValidIds := by
    intro d₁ q hsame hfree hq
    refine ⟨fun p hp => ?_, fun p hp => hd.ne_of_mem p (hfree hp)⟩
    rw [isAllocated_update (snapshot_insert rfl)] at hp
    split at hp
    · rename_i hpq
      exact hpq ▸ hq
    · exact hd.ne_of_isAllocated p ((hsame p).symm.trans hp)
  cases allocates h with
  | @recycled q rest hf =>
    have hq := hd.ne_of_mem q (hf ▸ List.mem_cons_self)
    refine ⟨install _ q (fun _ => rfl) ?_ hq, ?_⟩
    · rw [hf]
      exact List.subset_cons_self q rest
    · rintro _ ⟨⟩
      exact hq
  | fresh _ hvalid =>
    refine ⟨install _ d.next (fun _ => rfl) (List.Subset.refl _) hvalid, ?_⟩
    rintro _ ⟨⟩
    exact hvalid
  | exhausted => exact ⟨⟨hd.ne_of_isAllocated, hd.ne_of_mem⟩, by simp⟩

theorem deallocate {r : Except DiskError Unit} (hd : d.ValidIds)
    (h : deallocate p d = (r, d')) : d'.ValidIds := by
  cases deallocates h with
  | released hp =>
    refine ⟨fun q hq => ?_, fun q hq => ?_⟩
    · rw [isAllocated_update (snapshot_erase rfl)] at hq
      split at hq
      · cases hq
      · exact hd.ne_of_isAllocated q hq
    · rcases List.mem_append.mp hq with hq | hq
      · exact hd.ne_of_mem q hq
      · rw [List.mem_singleton.mp hq]
        exact hd.ne_of_isAllocated p hp
  | absent => exact ⟨hd.ne_of_isAllocated, hd.ne_of_mem⟩

end ValidIds

end MemoryDisk

namespace OnMemory

open Device (Leads)

variable {δ : Type} [Device δ] [OnMemory δ] {d d' : δ}

theorem validIds_of_leads (h : Leads d d') (hd : (memory d).ValidIds) : (memory d').ValidIds := by
  induction h with
  | refl => exact hd
  | tail _ hr ih =>
    cases hr with
    | read h =>
      rcases OnMemory.read h with ⟨_, _, hm⟩ | hm
      · exact hm ▸ ih
      · exact (MemoryDisk.sameIds_read hm).validIds ih
    | write h =>
      rcases OnMemory.write h with ⟨_, _, hm⟩ | hm
      · exact hm ▸ ih
      · exact (MemoryDisk.sameIds_write hm).validIds ih
    | allocate h =>
      rcases OnMemory.allocate h with ⟨_, _, hm⟩ | hm
      · exact hm ▸ ih
      · exact (ih.allocate hm).1
    | deallocate h =>
      rcases OnMemory.deallocate h with ⟨_, _, hm⟩ | hm
      · exact hm ▸ ih
      · exact ih.deallocate hm

theorem validIds_of_allocate {r : Except DiskError PageId} (hd : (memory d).ValidIds)
    (h : Device.allocate d = (r, d')) :
    (memory d').ValidIds ∧ ∀ p, r = .ok p → p ≠ PageId.invalid := by
  refine ⟨validIds_of_leads (.single (.allocate h)) hd, ?_⟩
  rintro p rfl
  exact (hd.allocate ((OnMemory.allocate h).resolve_left nofun)).2 p rfl

end OnMemory

namespace Pool

open OnMemory

section

variable {δ : Type} [Device δ] [OnMemory δ] {d d' : δ} {inUse : PageId → Bool} {fuel : Nat}
  {p : PageId} {skipped : List PageId} {n : Nat} {b b' : Pool δ n}

theorem BoundedSearch.ne_invalid (h : BoundedSearch inUse fuel d (.ok p) skipped d')
    (hd : (memory d).ValidIds) : p ≠ PageId.invalid := by
  generalize hp : (Except.ok p : Except DiskError PageId) = answer at h
  induction h with
  | spent | refused => cases hp
  | found ha => exact (validIds_of_allocate hd ha).2 p hp.symm
  | skipped ha _ _ ih => exact ih (validIds_of_allocate hd ha).1 hp

theorem ne_invalid_of_allocateUnused (hd : (memory b.device).ValidIds)
    (h : b.allocateUnused = (.ok p, b')) : p ≠ PageId.invalid := by
  cases allocateUnused_outcome h with
  | found search => exact search.ne_invalid hd

end

section Spared

open FaultyDisk (Spares later_of_leads request_of_spares)

variable {d d' : FaultyDisk MemoryDisk}

theorem GivesBack.of_spares {ps : List PageId} {r : Except PoolError Unit}
    (h : GivesBack ps d r d') (hd : Spares d d') : r = .ok () := by
  induction h with
  | done => rfl
  | refused hp =>
    have hrequest := request_of_spares hp hd
    cases (MemoryDisk.deallocate_books hrequest).1
  | released hp _ ih => exact ih (hd.right (later_of_leads (.single (.deallocate hp))))

theorem BoundedSearch.of_spares {inUse : PageId → Bool} {fuel : Nat} {e : DiskError}
    {skipped : List PageId} (h : BoundedSearch inUse fuel d (.error e) skipped d')
    (hd : Spares d d') : e = .invalidPageId := by
  generalize he : (Except.error e : Except DiskError PageId) = answer at h
  induction h with
  | spent =>
    cases he
    rfl
  | refused ha =>
    cases he
    exact MemoryDisk.eq_invalidPageId_of_allocate (request_of_spares ha hd)
  | found => cases he
  | skipped ha _ _ ih => exact ih (hd.right (later_of_leads (.single (.allocate ha)))) he

theorem allocateUnused_of_spares {n : Nat} {b b' : Pool (FaultyDisk MemoryDisk) n} {e : PoolError}
    (h : b.allocateUnused = (.error e, b')) (hd : Spares b.device b'.device) :
    e = .allocating .invalidPageId := by
  cases allocateUnused_outcome h with
  | refused search back => rw [search.of_spares (hd.left (later_of_leads back.leads))]
  | unreturned search back => cases back.of_spares (hd.right (later_of_leads search.leads))

end Spared

end Pool

end BufferPool
