import BufferPool.Proofs.Disk.Alike

/-! # Devices that recycle ids

Released ids wait in a queue, and no new id is handed out before the queue is
empty. A search for an unused id skips the ids in use at the front of the queue
and puts them back at its end. It has no bound of its own, but it ends, since an
id comes up once and a new one is not in use.
-/

namespace BufferPool

open Storage

theorem PageId.lt_invalid {p : PageId} (hp : p ≠ invalid) : p < invalid := by
  have hlt := p.toNat_lt
  have hne : p.toNat ≠ 4294967295 := fun hn => hp (UInt32.toNat_inj.mp hn)
  change p.toNat < 4294967295
  omega

/-- A device with a queue of the released ids, the one to hand out next first. -/
class Recycles (δ : Type) [Device δ] [Lawful δ] where
  queue : δ → List PageId
  nodup {d : δ} : Ok d → (queue d).Nodup
  absent {d : δ} {p : PageId} : Ok d → p ∈ queue d → page? d p = none
  allocate_ok {d d' : δ} {p : PageId} : Ok d → Device.allocate d = (.ok p, d') →
    Added d p d' ∧ (queue d = p :: queue d' ∧ (∀ q, Known d' q → Known d q) ∨
      queue d = [] ∧ queue d' = [] ∧ ¬Known d p)
  allocate_error {d d' : δ} {e : DiskError} : Ok d → Device.allocate d = (.error e, d') →
    queue d = [] ∧ queue d' = [] ∧ page? d' = page? d ∧ ∀ p, p ≠ PageId.invalid → Known d p
  deallocate {d d' : δ} {p : PageId} {r : Except DiskError Unit} :
    Device.deallocate p d = (r, d') →
      r = .ok () ∧ page? d' = Function.update (page? d) p none ∧
        queue d' = if (page? d p).isSome then queue d ++ [p] else queue d

instance : Recycles MemoryDisk where
  queue := MemoryDisk.freeIds
  nodup hok := hok.free_nodup
  absent hok hp := hok.free_absent _ hp
  allocate_ok {d d' p} hok h := by
    cases MemoryDisk.allocates h with
    | recycled hf => exact ⟨hok.reuse hf rfl rfl rfl, Or.inl ⟨hf, fun _ => id⟩⟩
    | fresh hf hvalid =>
      exact ⟨hok.extend hvalid rfl rfl hf, Or.inr ⟨hf, hf, UInt32.lt_irrefl _⟩⟩
  allocate_error {d d' e} hok h := by
    cases MemoryDisk.allocates h with
    | exhausted hf hinvalid =>
      refine ⟨hf, hf, rfl, fun p hp => ?_⟩
      change p < d.next
      rw [hinvalid]
      exact PageId.lt_invalid hp
  deallocate {d d' p r} h := by
    obtain ⟨hr, -, hfree⟩ := MemoryDisk.deallocate_books h
    refine ⟨hr, MemoryDisk.snapshot_deallocate h, ?_⟩
    rw [hfree, MemoryDisk.isAllocated_eq_isSome]
    rfl

instance : Recycles FileDisk where
  queue d := d.freeSlots.map Prod.fst
  nodup hok := hok.free_nodup
  absent {d p} hok hp := by
    obtain ⟨t, ht, rfl⟩ := List.mem_map.mp hp
    change d.stored t.1 = none
    rw [FileDisk.stored, (hok.free_dead t ht).1]
  allocate_ok {d d' p} hok h := by
    cases FileDisk.allocates h with
    | recycled hf =>
      have hp := FileDisk.mem_slots (hok.free_dead _ (hf ▸ List.mem_cons_self)).1
      refine ⟨hok.reuse hf rfl rfl rfl, Or.inl ⟨congrArg (List.map Prod.fst) hf, fun q hq => ?_⟩⟩
      exact ((FileDisk.mem_slots_insert rfl).mp hq).elim (fun he => he ▸ hp) id
    | fresh hf hnew hvalid =>
      have hempty := congrArg (List.map Prod.fst) hf
      refine ⟨hok.extend hnew hvalid rfl rfl rfl, Or.inr ⟨hempty, hempty, ?_⟩⟩
      rw [hnew]
      exact hok.size_not_mem
  allocate_error {d d' e} hok h := by
    cases FileDisk.allocates h with
    | exhausted hf hinvalid =>
      have hempty := congrArg (List.map Prod.fst) hf
      refine ⟨hempty, hempty, rfl, fun p hp => (hok.known_iff p).mpr ?_⟩
      rw [← hok.toNat_size, hinvalid]
      exact PageId.lt_invalid hp
  deallocate {d d' p r} h := by
    obtain ⟨hr, -, hqueue, -⟩ := FileDisk.standing_deallocate h
    refine ⟨hr, FileDisk.stored_deallocate h, ?_⟩
    rw [hqueue]
    exact if_congr FileDisk.isSome_stored_iff.symm rfl rfl

theorem Storage.stored_added_iff {δ : Type} [Storage δ] {d d' : δ} {p : PageId}
    (h : Added d p d') (q : PageId) :
    (page? d' q).isSome = true ↔ (page? d q).isSome = true ∨ q = p := by
  obtain ⟨x, -, hx⟩ := h.page?
  rw [hx, Function.update_apply]
  split <;> simp_all

namespace Pool

open Recycles

variable {δ : Type} [Device δ] {d d' : δ} {inUse : PageId → Bool} {calls : Nat}
  {answer : Except DiskError PageId} {skipped : List PageId}

/-- A search for an unused id with as many allocations as it takes, whose number it counts. -/
inductive Searches (inUse : PageId → Bool) :
    Nat → δ → Except DiskError PageId → List PageId → δ → Prop where

  | refused {d d' : δ} {e : DiskError} (h : Device.allocate d = (.error e, d')) :
      Searches inUse 1 d (.error e) [] d'

  | found {d d' : δ} {p : PageId} (h : Device.allocate d = (.ok p, d'))
      (unused : inUse p = false) : Searches inUse 1 d (.ok p) [] d'

  | skipped {d d₁ d' : δ} {p : PageId} {calls : Nat} {answer : Except DiskError PageId}
      {skipped : List PageId} (h : Device.allocate d = (.ok p, d₁)) (used : inUse p = true)
      (rest : Searches inUse calls d₁ answer skipped d') :
      Searches inUse (calls + 1) d answer (p :: skipped) d'

namespace Searches

theorem calls_eq (h : Searches inUse calls d answer skipped d') : calls = skipped.length + 1 := by
  induction h with
  | refused | found => rfl
  | skipped _ _ _ ih => rw [List.length_cons, ih]

theorem bounded (h : Searches inUse calls d answer skipped d') {fuel : Nat}
    (hfuel : calls ≤ fuel) : BoundedSearch inUse fuel d answer skipped d' := by
  induction h generalizing fuel with
  | refused ha =>
    obtain ⟨fuel, rfl⟩ := Nat.exists_eq_add_of_le' hfuel
    exact .refused ha
  | found ha hunused =>
    obtain ⟨fuel, rfl⟩ := Nat.exists_eq_add_of_le' hfuel
    exact .found ha hunused
  | @skipped _ _ _ _ calls _ _ ha hused _ ih =>
    obtain ⟨fuel, rfl⟩ := Nat.exists_eq_add_of_le' hfuel
    exact .skipped ha hused (ih (Nat.le_add_left calls fuel))

theorem inUse_of_mem (h : Searches inUse calls d answer skipped d') :
    ∀ p ∈ skipped, inUse p = true :=
  (h.bounded (Nat.le_refl calls)).inUse_of_mem

theorem unused {p : PageId} (h : Searches inUse calls d (.ok p) skipped d') : inUse p = false :=
  (h.bounded (Nat.le_refl calls)).unused

end Searches

variable [Lawful δ] [Recycles δ]

/-- Where a search has its answer from: the first id of the queue that is not in use, or if all are,
an id that was never handed out, or if there is none, no id. The search skips ids of the queue and
leaves the others, `rest`. -/
inductive Origin (d : δ) (skipped : List PageId) :
    List PageId → Except DiskError PageId → Prop where

  | recycled {p : PageId} {rest : List PageId} (hqueue : queue d = skipped ++ p :: rest) :
      Origin d skipped rest (.ok p)

  | fresh {p : PageId} (hqueue : queue d = skipped) (hnew : ¬Known d p) :
      Origin d skipped [] (.ok p)

  | exhausted {e : DiskError} (hqueue : queue d = skipped)
      (hknown : ∀ p, p ≠ PageId.invalid → Known d p) : Origin d skipped [] (.error e)

theorem Origin.isPrefix {rest : List PageId} (h : Origin d skipped rest answer) :
    skipped <+: queue d := by
  cases h with
  | recycled hqueue => exact ⟨_, hqueue.symm⟩
  | fresh hqueue | exhausted hqueue => exact hqueue ▸ List.prefix_rfl

theorem Origin.cons {p : PageId} {rest : List PageId} (h : Origin d' skipped rest answer)
    (hqueue : queue d = p :: queue d') (hknown : ∀ q, Known d' q ↔ Known d q) :
    Origin d (p :: skipped) rest answer := by
  cases h with
  | recycled hrest => exact .recycled (by rw [hqueue, hrest, List.cons_append])
  | fresh hrest hnew => exact .fresh (by rw [hqueue, hrest]) (mt (hknown _).mpr hnew)
  | exhausted hrest hall =>
    exact .exhausted (by rw [hqueue, hrest]) fun q hq => (hknown q).mp (hall q hq)

/-- An id in use that comes up was first in the queue. -/
theorem recycled_of_known {p : PageId} (hok : Ok d) (hp : Known d p)
    (h : Device.allocate d = (.ok p, d')) :
    Added d p d' ∧ queue d = p :: queue d' ∧ ∀ q, Known d' q ↔ Known d q := by
  obtain ⟨hadd, ⟨hqueue, hknown⟩ | ⟨-, -, hnew⟩⟩ := allocate_ok hok h
  · exact ⟨hadd, hqueue, fun q => ⟨hknown q, hadd.known q⟩⟩
  · exact absurd hp hnew

/-- Whatever ids are in use, a search for an unused one ends. -/
theorem exists_searches (hok : Ok d) (hknown : ∀ p, inUse p = true → Known d p) :
    ∃ calls answer skipped d', Searches inUse calls d answer skipped d' := by
  induction hq : queue d generalizing d with
  | nil =>
    rcases ha : Device.allocate d with ⟨e | p, d'⟩
    · exact ⟨_, _, _, _, .refused ha⟩
    · rcases huse : inUse p with _ | _
      · exact ⟨_, _, _, _, .found ha huse⟩
      · obtain ⟨-, hqueue, -⟩ := recycled_of_known hok (hknown p huse) ha
        rw [hq] at hqueue
        cases hqueue
  | cons q ids ih =>
    rcases ha : Device.allocate d with ⟨e | p, d'⟩
    · exact ⟨_, _, _, _, .refused ha⟩
    · rcases huse : inUse p with _ | _
      · exact ⟨_, _, _, _, .found ha huse⟩
      · obtain ⟨hadd, hqueue, -⟩ := recycled_of_known hok (hknown p huse) ha
        rw [hq] at hqueue
        obtain ⟨-, hids⟩ := List.cons.inj hqueue
        obtain ⟨_, _, _, _, hrest⟩ :=
          ih hadd.ok (fun p hp => hadd.known p (hknown p hp)) hids.symm
        exact ⟨_, _, _, _, .skipped ha huse hrest⟩

namespace Searches

theorem origin (h : Searches inUse calls d answer skipped d') (hok : Ok d)
    (hknown : ∀ p, inUse p = true → Known d p) : Origin d skipped (queue d') answer := by
  induction h with
  | refused ha =>
    obtain ⟨hqueue, hqueue', -, hall⟩ := allocate_error hok ha
    rw [hqueue']
    exact .exhausted hqueue hall
  | found ha =>
    obtain ⟨-, ⟨hqueue, -⟩ | ⟨hqueue, hqueue', hnew⟩⟩ := allocate_ok hok ha
    · exact .recycled hqueue
    · rw [hqueue']
      exact .fresh hqueue hnew
  | skipped ha hused _ ih =>
    obtain ⟨hadd, hqueue, hsame⟩ := recycled_of_known hok (hknown _ hused) ha
    exact (ih hadd.ok fun p hp => hadd.known p (hknown p hp)).cons hqueue hsame

theorem stored_iff (h : Searches inUse calls d answer skipped d') (hok : Ok d)
    (hknown : ∀ p, inUse p = true → Known d p) (q : PageId) :
    (page? d' q).isSome = true ↔
      (page? d q).isSome = true ∨ q ∈ skipped ∨ answer = .ok q := by
  induction h with
  | refused ha =>
    obtain ⟨-, -, hpage, -⟩ := allocate_error hok ha
    simp [hpage]
  | found ha =>
    obtain ⟨hadd, -⟩ := allocate_ok hok ha
    rw [stored_added_iff hadd, or_iff_right List.not_mem_nil, Except.ok.injEq]
    exact or_congr_right eq_comm
  | @skipped _ _ _ p _ _ _ ha hused _ ih =>
    obtain ⟨hadd, -⟩ := allocate_ok hok ha
    rw [ih hadd.ok fun p hp => hadd.known p (hknown p hp), stored_added_iff hadd, List.mem_cons]
    tauto

end Searches

theorem BoundedSearch.books {fuel : Nat} {p : PageId}
    (h : BoundedSearch inUse fuel d (.ok p) skipped d') (hok : Ok d) :
    Ok d' ∧ (∀ q, Known d q → Known d' q) ∧ Known d' p := by
  generalize hp : (Except.ok p : Except DiskError PageId) = answer at h
  induction h with
  | spent | refused => cases hp
  | found ha =>
    cases hp
    obtain ⟨hadd, -⟩ := allocate_ok hok ha
    exact ⟨hadd.ok, hadd.known, hadd.known_self⟩
  | skipped ha _ _ ih =>
    obtain ⟨hadd, -⟩ := allocate_ok hok ha
    obtain ⟨hok', hknown, hp⟩ := ih hadd.ok hp
    exact ⟨hok', fun q hq => hknown q (hadd.known q hq), hp⟩

theorem GivesBack.queue_eq {ps : List PageId} {r : Except PoolError Unit}
    (h : GivesBack ps d r d') (hn : ps.Nodup) (hps : ∀ p ∈ ps, (page? d p).isSome = true) :
    r = .ok () ∧ queue d' = queue d ++ ps ∧
      ∀ q, (page? d' q).isSome = true ↔ (page? d q).isSome = true ∧ q ∉ ps := by
  induction h with
  | done => simp
  | refused hd => cases (Recycles.deallocate hd).1
  | @released d d₁ _ p ps _ hd _ ih =>
    obtain ⟨hp, hn⟩ := List.nodup_cons.mp hn
    obtain ⟨hlive, hps⟩ := List.forall_mem_cons.mp hps
    obtain ⟨-, hpage, hqueue⟩ := Recycles.deallocate hd
    have hstored : ∀ q, (page? d₁ q).isSome = true ↔ (page? d q).isSome = true ∧ q ≠ p := by
      intro q
      rw [hpage, Function.update_apply]
      split <;> simp_all
    obtain ⟨hr, hqueue', hstored'⟩ := ih hn fun q hq => (hstored q).mpr
      ⟨hps q hq, fun he => hp (he ▸ hq)⟩
    refine ⟨hr, ?_, fun q => ?_⟩
    · rw [hqueue', hqueue, if_pos hlive, List.append_assoc, List.singleton_append]
    · rw [hstored', hstored, List.mem_cons, not_or, and_assoc]

end Pool

end BufferPool
