import Mathlib.Data.Finset.Option
import BufferPool.Proofs.Pool.Ids
import BufferPool.Proofs.Session.Basic

/-! # The ledger of ids

A pool that has a memory disk to itself loses no id and gives none away twice.
The pages on the disk are those that were created and not deleted since, and
all other ids that were ever handed out wait in the queue of the disk.
-/

namespace BufferPool

open MemoryDisk

/-- A pool on a memory disk, and the pages that were created and not deleted since. -/
structure Ledger (n : Nat) where
  pool : Pool MemoryDisk n
  live : Finset PageId := ∅

namespace Ledger

variable {n : Nat} {s : Ledger n}

def step (s : Ledger n) (c : Call) : Ledger n where
  pool := s.pool.after c
  live := match c with
    | .new => s.live ∪ s.pool.created?.toFinset
    | .delete p => s.live.erase p
    | _ => s.live

def run (s : Ledger n) (calls : List Call) : Ledger n := calls.foldl step s

def Serves (s : Ledger n) : List Call → Prop
  | [] => True
  | c :: calls => (c = .new → s.pool.new.1.isOk = true) ∧ (s.step c).Serves calls

instance decidableServes : (s : Ledger n) → (calls : List Call) → Decidable (s.Serves calls)
  | _, [] => isTrue trivial
  | s, c :: calls =>
    have := decidableServes (s.step c) calls
    inferInstanceAs (Decidable ((c = .new → s.pool.new.1.isOk = true) ∧ _))

structure Balanced (s : Ledger n) : Prop where
  issued : s.pool.Issued none
  complete : s.pool.device.Complete
  mem_live_iff : ∀ p, p ∈ s.live ↔ s.pool.device.isAllocated p = true

namespace Balanced

theorem of_sameIds {t : Ledger n} (h : s.Balanced) (issued : t.pool.Issued none)
    (hsame : SameIds s.pool.device t.pool.device) (live : t.live = s.live) : t.Balanced where
  issued := issued
  complete := hsame.complete h.complete
  mem_live_iff p := by
    rw [live, hsame.isAllocated]
    exact h.mem_live_iff p

theorem create (r : Replacer (Fin n)) (log : Option Log) :
    Balanced { pool := .create r .empty log } where
  issued := .create r ordered_empty log
  complete p hp := absurd hp (UInt32.not_lt_zero)
  mem_live_iff p := by simp [Pool.create, isAllocated, MemoryDisk.empty]

theorem new (h : s.Balanced) (hok : s.pool.new.1.isOk = true) : (s.step .new).Balanced := by
  obtain ⟨hissued, ids, hids, hcreates⟩ := h.issued.new (Or.inr hok)
  have hcreated : ∀ p, p ∈ ids ↔ s.pool.created? = some p := by
    unfold Pool.created?
    intro p
    generalize s.pool.new.1 = answer at hok hcreates
    cases hcreates with
    | created hpage =>
      simp only [hpage, List.mem_singleton, Option.some.injEq]
      exact eq_comm
    | unreleased => cases hok
    | nothing hnone =>
      rcases answer with e | _ | f
      · cases hok
      · simp
      · exact absurd rfl (hnone f)
  refine ⟨hissued, hids.complete h.complete, fun p => ?_⟩
  change p ∈ s.live ∪ s.pool.created?.toFinset ↔ _
  rw [Finset.mem_union, Option.mem_toFinset, Option.mem_def, h.mem_live_iff, ← hcreated]
  exact (hids.isAllocated_iff p).symm

theorem step (h : s.Balanced) (c : Call) (hok : c = .new → s.pool.new.1.isOk = true) :
    (s.step c).Balanced := by
  cases c with
  | new => exact h.new (hok rfl)
  | fetch p => exact h.of_sameIds (h.issued.fetch p).1 (h.issued.fetch p).2 rfl
  | unpin p dirty =>
    have hquiet := (Pool.Settles.unpin s.pool p dirty).quiet
    exact h.of_sameIds (h.issued.quiet hquiet) hquiet.sameIds rfl
  | flush p =>
    have hquiet := (Pool.Settles.flushNow s.pool p).quiet
    rw [← Pool.flush_eq_flushNow] at hquiet
    exact h.of_sameIds (h.issued.quiet hquiet) hquiet.sameIds rfl
  | flushAll =>
    have hquiet := (Pool.Settles.flushEach s.pool s.pool.cachedPages).quiet
    exact h.of_sameIds (h.issued.quiet hquiet) hquiet.sameIds rfl
  | delete p =>
    obtain ⟨hissued, ⟨e, he, -⟩ | hreleases⟩ := h.issued.delete p
    · cases he.symm.trans (deallocate_books rfl).1
    · refine ⟨hissued, hreleases.complete h.complete, fun q => ?_⟩
      have hall := hreleases.isAllocated_iff q
      rw [List.mem_singleton] at hall
      change q ∈ s.live.erase p ↔ _
      rw [Finset.mem_erase, and_comm, h.mem_live_iff]
      exact hall.symm

theorem run (h : s.Balanced) {calls : List Call} (hserves : s.Serves calls) :
    (s.run calls).Balanced := by
  induction calls generalizing s with
  | nil => exact h
  | cons c calls ih => exact ih (h.step c hserves.1) hserves.2

theorem count_freeIds (h : s.Balanced) (p : PageId) : s.pool.device.freeIds.count p =
    if p < s.pool.device.next ∧ p ∉ s.live then 1 else 0 := by
  have hordered : s.pool.device.Ordered := h.issued.ordered
  split
  · rename_i hp
    rw [h.mem_live_iff] at hp
    exact List.count_eq_one_of_mem hordered.free_nodup ((h.complete p hp.1).resolve_left hp.2)
  · rename_i hp
    apply List.count_eq_zero_of_not_mem
    intro hm
    apply hp
    rw [h.mem_live_iff]
    exact ⟨hordered.free_lt p hm, fun ha => hordered.not_mem_freeIds ha hm⟩

theorem created (h : s.Balanced) {p : PageId} (hp : s.pool.created? = some p) :
    p ∉ s.live ∧ ∀ g, (s.pool.frames.get g).page = some p →
      s.pool.free = [] ∧ s.pool.new.1 = .ok (some g) := by
  unfold Pool.created? at hp
  rcases hnew : s.pool.new.1 with e | _ | f <;> rw [hnew] at hp
  · cases hp
  · cases hp
  obtain ⟨-, ids, hids, hcreates⟩ := h.issued.new (Or.inr (by rw [hnew]; rfl))
  rw [hnew] at hcreates
  cases hcreates with
  | created hpage hunused =>
    obtain rfl := Option.some.inj (hpage.symm.trans hp)
    constructor
    · rw [h.mem_live_iff, Bool.not_eq_true]
      exact hids.absent _ (List.mem_singleton_self _)
    · intro g hg
      obtain ⟨rfl, hfree⟩ := hunused g hg
      exact ⟨hfree, rfl⟩
  | nothing hnone => exact absurd rfl (hnone f)

end Balanced

section Serving

open Pool

variable {b : Pool MemoryDisk n} {p : PageId}

theorem length_le_size (b : Pool MemoryDisk n) {ps : List PageId} (hn : ps.Nodup)
    (hps : ∀ p ∈ ps, b.isCached p = true) : ps.length ≤ b.table.size :=
  Nat.le_trans (b.length_le_countP hn fun p hp => ⟨hps p hp, rfl⟩)
    (b.countP_keys_le_size fun _ => true)

/-- There are more tries than ids in use, so an unused one is found. -/
theorem isOk_allocateUnused {taken : Option (Fin n)} (h : b.Issued taken)
    (hroom : b.device.next ≠ PageId.invalid) : b.allocateUnused.1.isOk = true := by
  rcases ha : b.allocateUnused with ⟨answer, b'⟩
  cases allocateUnused_outcome ha with
  | found => rfl
  | refused search =>
    have hids := search.handsOut h.ordered (Or.inl hroom) h.lt_next
    have hle := length_le_size b hids.nodup.of_append_left search.inUse_of_mem
    have heq := search.length_eq h.ordered hroom h.lt_next
    omega
  | unreturned _ back => cases back.eq_ok

theorem isMissing_of_write {x : Page} {e : DiskError} (hp : p ≠ PageId.invalid)
    (h : (MemoryDisk.write p x d).1 = .error e) : e.isMissing = true := by
  unfold MemoryDisk.write at h
  rw [if_neg hp] at h
  split at h
  · cases h
  · cases h
    unfold missing
    split <;> rfl

theorem isOk_flushNow_of_ne (hids : ∀ p, b.isCached p = true → p ≠ PageId.invalid) (p : PageId) :
    (b.flushNow p).1.isOk = true := by
  rcases hr : (b.flushNow p).1 with e | _
  · obtain ⟨hcached, x, cause, -, hw, hmissing⟩ := flushNow_error hr
    rw [isMissing_of_write (hids p hcached) hw] at hmissing
    cases hmissing
  · rfl

theorem isOk_flushNow (h : b.Issued none) (p : PageId) : (b.flushNow p).1.isOk = true :=
  isOk_flushNow_of_ne (fun p hp => ne_invalid_of_lt (h.lt_next p hp)) p

theorem isOk_new (h : b.Issued none) (hroom : b.device.next ≠ PageId.invalid) :
    b.new.1.isOk = true := by
  rcases hnew : b.new with ⟨answer, b'⟩
  cases new_outcome hnew with
  | full | created => rfl
  | refused ht =>
    obtain ⟨p, -, -, hflush⟩ := exists_flushNow_of_takeFrame ht
    have hok := isOk_flushNow h p
    rw [hflush] at hok
    cases hok
  | unallocated ht ha =>
    have htakes := takes_of_takeFrame ht
    have hok := isOk_allocateUnused (h.takes htakes) (htakes.sameIds.next ▸ hroom)
    rw [ha] at hok
    cases hok

end Serving

/-- A pool that has a memory disk to itself keeps account of the ids. The pages on the disk are
those that were created and not deleted since, and every other id that was handed out waits in the
queue once. A page is created under an id that is not live, and that no frame holds but the one that
was just evicted. Only a lack of ids can make that fail. -/
theorem ids_accounted (r : Replacer (Fin n)) (log : Option Log) (calls : List Call)
    (hserves : Serves { pool := .create r .empty log } calls) :
    let s : Ledger n := run { pool := .create r .empty log } calls
    (∀ p, s.pool.device.isAllocated p = true ↔ p ∈ s.live) ∧
      (∀ p, s.pool.device.freeIds.count p =
        if p < s.pool.device.next ∧ p ∉ s.live then 1 else 0) ∧
      (∀ p, s.pool.created? = some p → p ∉ s.live ∧
        ∀ g, (s.pool.frames.get g).page = some p →
          s.pool.free = [] ∧ s.pool.new.1 = .ok (some g)) ∧
      (s.pool.device.next ≠ PageId.invalid → s.pool.new.1.isOk = true) := by
  intro s
  have hs : s.Balanced := (Balanced.create r log).run hserves
  exact ⟨fun p => (hs.mem_live_iff p).symm, hs.count_freeIds, fun p => hs.created,
    isOk_new hs.issued⟩

/-- A page is deleted while it is pinned, and given back later. Meanwhile another one is created. -/
def condemning : List Call := [.new, .delete 0, .new, .unpin 0 false]

theorem ids_accounted_condemning :
    let s : Ledger 2 := run { pool := .create (.lru { capacity := 2 }) .empty none } condemning
    Serves { pool := .create (.lru { capacity := 2 }) .empty none : Ledger 2 } condemning ∧
      s.pool.created? = some 0 ∧ 0 ∉ s.live ∧ (s.pool.frames.get 0).page = some 0 ∧
      s.pool.free = [] ∧ s.pool.new.1 = .ok (some 0) := by
  intro s
  have hserves : Serves { pool := .create (.lru { capacity := 2 }) .empty none : Ledger 2 }
      condemning := by decide +kernel
  have hcreated : s.pool.created? = some 0 := by decide +kernel
  have hpage : (s.pool.frames.get 0).page = some 0 := by decide +kernel
  obtain ⟨-, -, hnew, -⟩ := ids_accounted (.lru { capacity := 2 }) none condemning hserves
  obtain ⟨hlive, hevicted⟩ := hnew 0 hcreated
  exact ⟨hserves, hcreated, hlive, hpage, hevicted 0 hpage⟩

end Ledger

end BufferPool
