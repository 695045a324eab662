import BufferPool.Disk.Memory
import BufferPool.Proofs.Disk.Lawful

/-! # The memory disk is lawful

As long as not all ids are handed out, a new id is below none of the ids that
came before it, and a released one names no stored page.
-/

namespace BufferPool.MemoryDisk

variable {d d' : MemoryDisk} {p : PageId}

/-- Every id was handed out once, and the released ones name no page. -/
structure Ordered (d : MemoryDisk) : Prop where
  stored_lt : ∀ p x, d.snapshot p = some x → p < d.next
  free_lt : ∀ p ∈ d.freeIds, p < d.next
  free_nodup : d.freeIds.Nodup
  free_absent : ∀ p ∈ d.freeIds, d.snapshot p = none

inductive Allocates (d : MemoryDisk) : Except DiskError PageId → MemoryDisk → Prop where
  | recycled {p : PageId} {rest : List PageId} (hf : d.freeIds = p :: rest) :
      Allocates d (.ok p) ({ d with freeIds := rest }.install p)
  | fresh (hf : d.freeIds = []) (hvalid : d.next ≠ PageId.invalid) :
      Allocates d (.ok d.next) ({ d with next := d.next + 1 }.install d.next)
  | exhausted (hf : d.freeIds = []) (hinvalid : d.next = PageId.invalid) :
      Allocates d (.error .invalidPageId) { d with next := d.next + 1 }

theorem allocates {r : Except DiskError PageId} (h : allocate d = (r, d')) : d.Allocates r d' := by
  unfold allocate at h
  split at h
  · rename_i hf
    cases h
    exact .recycled hf
  · rename_i hf
    simp only at h
    split at h
    · rename_i hinvalid
      cases h
      exact .exhausted hf hinvalid
    · rename_i hvalid
      cases h
      exact .fresh hf hvalid

inductive Deallocates (d : MemoryDisk) (p : PageId) :
    Except DiskError Unit → MemoryDisk → Prop where
  | released (hp : d.isAllocated p = true) : Deallocates d p (.ok ())
      { d.record (.deallocate p) with pages := d.pages.erase p, freeIds := d.freeIds ++ [p] }
  | absent (hp : ¬d.isAllocated p = true) : Deallocates d p (.ok ()) (d.record (.deallocate p))

theorem deallocates {r : Except DiskError Unit} (h : deallocate p d = (r, d')) :
    d.Deallocates p r d' := by
  unfold deallocate at h
  simp only at h
  split at h
  · rename_i hp
    cases h
    exact .released hp
  · rename_i hp
    cases h
    exact .absent hp

instance : Storage MemoryDisk where
  page? := snapshot
  Known d p := p < d.next
  Room d m := d.next.toNat + m ≤ PageId.invalid.toNat
  room_of_le hkm hroom := Nat.le_trans (Nat.add_le_add_left hkm _) hroom
  Fresh x := x = Page.zero
  Ok := Ordered

theorem ordered_empty : empty.Ordered := by
  constructor
  · intro p x hp
    simp [empty, snapshot] at hp
  all_goals simp [empty]

theorem room_empty {m : Nat} (hm : m ≤ PageId.invalid.toNat) : Storage.Room empty m := by
  change 0 + m ≤ PageId.invalid.toNat
  rwa [Nat.zero_add]

theorem isAllocated_eq_isSome : d.isAllocated p = (d.snapshot p).isSome :=
  Std.ExtTreeMap.contains_eq_isSome_getElem?

theorem snapshot_insert {x : Page} (hp : d'.pages = d.pages.insert p x) :
    d'.snapshot = Function.update d.snapshot p (some x) := by
  funext q
  rw [snapshot, hp, Std.ExtTreeMap.getElem?_insert, Function.update_apply]
  simp only [Std.LawfulEqCmp.compare_eq_iff_eq, snapshot]
  simp only [eq_comm]

theorem snapshot_erase (hp : d'.pages = d.pages.erase p) :
    d'.snapshot = Function.update d.snapshot p none := by
  funext q
  rw [snapshot, hp, Std.ExtTreeMap.getElem?_erase, Function.update_apply]
  simp only [Std.LawfulEqCmp.compare_eq_iff_eq, snapshot]
  simp only [eq_comm]

theorem toNat_add_one (h : p ≠ PageId.invalid) : (p + 1).toNat = p.toNat + 1 := by
  have hn : p.toNat ≠ 4294967295 := fun hn => h (UInt32.toNat_inj.mp hn)
  have hlt := p.toNat_lt
  rw [UInt32.toNat_add, UInt32.toNat_one]
  omega

theorem lt_add_one (h : p ≠ PageId.invalid) : p < p + 1 := by
  rw [UInt32.lt_iff_toNat_lt, toNat_add_one h]
  exact Nat.lt_succ_self _

theorem lt_add_one_iff {q : PageId} (hq : q ≠ PageId.invalid) : p < q + 1 ↔ p < q ∨ p = q := by
  rw [UInt32.lt_iff_toNat_lt, toNat_add_one hq, Nat.lt_succ_iff_lt_or_eq, UInt32.toNat_inj,
    UInt32.lt_iff_toNat_lt]

theorem next_ne_invalid (h : Storage.Room d 1) : d.next ≠ PageId.invalid := by
  intro hn
  change d.next.toNat + 1 ≤ PageId.invalid.toNat at h
  rw [hn] at h
  exact Nat.not_succ_le_self _ h

theorem room_of_next (next : d'.next = d.next) (m : Nat) (hm : Storage.Room d m) :
    Storage.Room d' m := by
  simp only [Storage.Room] at hm ⊢
  rwa [next]

namespace Ordered

variable {x : Page}

theorem lt_next (next : d'.next = d.next) {q : PageId} (hq : q < d.next) : q < d'.next :=
  (congrArg (q < ·) next).mpr hq

theorem steady_of_next (ok : d'.Ordered) (next : d'.next = d.next) : Storage.Steady d d' where
  ok := ok
  known _ := lt_next next
  room := room_of_next next

theorem stored_lt_of_update (h : d.Ordered)
    (hs : d'.snapshot = Function.update d.snapshot p (some x)) (hp : p < d'.next)
    (hnext : ∀ q, q < d.next → q < d'.next) (q : PageId) (z : Page)
    (hq : d'.snapshot q = some z) : q < d'.next := by
  rw [hs, Function.update_apply] at hq
  split at hq
  · rename_i he
    exact he ▸ hp
  · exact hnext q (h.stored_lt q z hq)

theorem steady (h : d.Ordered) (d' : MemoryDisk) (pages : d'.pages = d.pages)
    (next : d'.next = d.next) (freeIds : d'.freeIds = d.freeIds) :
    Storage.Steady d d' ∧ d'.snapshot = d.snapshot := by
  have hs : d'.snapshot = d.snapshot := by
    ext1 p
    rw [snapshot, snapshot, pages]
  have hok : d'.Ordered := by
    constructor
    · rw [hs, next]; exact h.stored_lt
    · rw [freeIds, next]; exact h.free_lt
    · rw [freeIds]; exact h.free_nodup
    · rw [freeIds, hs]; exact h.free_absent
  exact ⟨steady_of_next hok next, hs⟩

theorem write (h : d.Ordered) (hp : d.isAllocated p = true)
    (pages : d'.pages = d.pages.insert p x) (next : d'.next = d.next)
    (freeIds : d'.freeIds = d.freeIds) : Storage.Steady d d' := by
  have hs := snapshot_insert pages
  rw [isAllocated_eq_isSome, Option.isSome_iff_exists] at hp
  obtain ⟨y, hy⟩ := hp
  apply steady_of_next _ next
  constructor
  · exact h.stored_lt_of_update hs (lt_next next (h.stored_lt p y hy)) fun _ => lt_next next
  · rw [freeIds, next]; exact h.free_lt
  · rw [freeIds]; exact h.free_nodup
  · intro q hq
    rw [freeIds] at hq
    rw [hs, Function.update_of_ne, h.free_absent q hq]
    rintro rfl
    rw [h.free_absent q hq] at hy
    cases hy

theorem reuse (h : d.Ordered) {rest : List PageId} (hf : d.freeIds = p :: rest)
    (pages : d'.pages = d.pages.insert p Page.zero) (next : d'.next = d.next)
    (freeIds : d'.freeIds = rest) : Storage.Added d p d' := by
  have hs := snapshot_insert pages
  have hm : p ∈ d.freeIds := hf ▸ List.mem_cons_self
  have hp := lt_next next (h.free_lt p hm)
  have hn := h.free_nodup
  rw [hf, List.nodup_cons] at hn
  have hrest : ∀ q ∈ rest, q ∈ d.freeIds := fun q hq => hf ▸ List.mem_cons_of_mem p hq
  have hok : d'.Ordered := by
    constructor
    · exact h.stored_lt_of_update hs hp fun _ => lt_next next
    · rw [freeIds, next]
      exact fun q hq => h.free_lt q (hrest q hq)
    · rw [freeIds]; exact hn.2
    · intro q hq
      rw [freeIds] at hq
      rw [hs, Function.update_of_ne, h.free_absent q (hrest q hq)]
      rintro rfl
      exact hn.1 hq
  exact
    { ok := hok
      known := fun _ => lt_next next
      known_self := hp
      room := fun m hr => room_of_next next m (Storage.room_of_le (Nat.le_succ m) hr)
      absent := h.free_absent p hm
      page? := ⟨Page.zero, rfl, hs⟩ }

theorem extend (h : d.Ordered) (hvalid : d.next ≠ PageId.invalid)
    (pages : d'.pages = d.pages.insert d.next Page.zero) (next : d'.next = d.next + 1)
    (freeIds : d'.freeIds = []) : Storage.Added d d.next d' := by
  have hs := snapshot_insert pages
  have hlt : d.next < d'.next := by
    rw [next]
    exact lt_add_one hvalid
  have hnext : ∀ q, q < d.next → q < d'.next := fun q hq => UInt32.lt_trans hq hlt
  have hok : d'.Ordered := by
    constructor
    · exact h.stored_lt_of_update hs hlt hnext
    all_goals simp [freeIds]
  have habsent : d.snapshot d.next = none := by
    rcases hp : d.snapshot d.next with _ | y
    · rfl
    · exact absurd (h.stored_lt d.next y hp) (UInt32.lt_irrefl _)
  have hroom : ∀ m, Storage.Room d (m + 1) → Storage.Room d' m := by
    intro m hr
    change d.next.toNat + (m + 1) ≤ PageId.invalid.toNat at hr
    change d'.next.toNat + m ≤ PageId.invalid.toNat
    rw [next, toNat_add_one hvalid]
    omega
  exact ⟨hok, hnext, hlt, hroom, habsent, Page.zero, rfl, hs⟩

theorem release (h : d.Ordered) (hp : d.isAllocated p = true)
    (pages : d'.pages = d.pages.erase p) (next : d'.next = d.next)
    (freeIds : d'.freeIds = d.freeIds ++ [p]) : Storage.Steady d d' := by
  have hs := snapshot_erase pages
  rw [isAllocated_eq_isSome, Option.isSome_iff_exists] at hp
  obtain ⟨y, hy⟩ := hp
  have hm : p ∉ d.freeIds := by
    intro hm
    rw [h.free_absent p hm] at hy
    cases hy
  apply steady_of_next _ next
  constructor
  · intro q z hq
    rw [hs, Function.update_apply] at hq
    split at hq
    · cases hq
    · exact lt_next next (h.stored_lt q z hq)
  · intro q hq
    rw [freeIds, List.mem_append, List.mem_singleton] at hq
    rcases hq with hq | rfl
    · exact lt_next next (h.free_lt q hq)
    · exact lt_next next (h.stored_lt q y hy)
  · rw [freeIds]
    exact (List.perm_append_singleton p d.freeIds).nodup_iff.mpr
      (List.nodup_cons.mpr ⟨hm, h.free_nodup⟩)
  · intro q hq
    rw [freeIds, List.mem_append, List.mem_singleton] at hq
    rw [hs, Function.update_apply]
    split
    · rfl
    · rename_i hne
      exact h.free_absent q (hq.resolve_right hne)

end Ordered

instance : Lawful MemoryDisk where
  known_of_page? hok hp := hok.stored_lt _ _ hp
  read {d d' p r} hok h := by
    change MemoryDisk.read p d = (r, d') at h
    unfold MemoryDisk.read at h
    split at h
    · cases h
      exact ⟨.refl hok, rfl, fun _ hx => by cases hx⟩
    · split at h
      · rename_i hx
        cases h
        obtain ⟨hs, hpage⟩ := hok.steady
          ({ d with readCount := d.readCount + 1 }.record (.read p)) rfl rfl rfl
        refine ⟨hs, hpage, ?_⟩
        rintro _ ⟨⟩
        exact hx
      · cases h
        exact ⟨.refl hok, rfl, fun _ hx => by cases hx⟩
  write_ok {d d' p x} hok h := by
    change MemoryDisk.write p x d = (_, d') at h
    unfold MemoryDisk.write at h
    split at h
    · cases h
    · split at h
      · rename_i hp
        cases h
        refine ⟨hok.write hp rfl rfl rfl, ?_, snapshot_insert rfl⟩
        rw [isAllocated_eq_isSome] at hp
        exact Option.isSome_iff_ne_none.mp hp
      · cases h
  write_error {d d' p x e} hok h := by
    change MemoryDisk.write p x d = (_, d') at h
    unfold MemoryDisk.write at h
    split at h
    · cases h
      exact ⟨.refl hok, rfl, fun he => by cases he⟩
    · split at h
      · cases h
      · rename_i hp
        cases h
        refine ⟨.refl hok, rfl, fun _ => ?_⟩
        rw [isAllocated_eq_isSome] at hp
        exact Option.not_isSome_iff_eq_none.mp hp
  allocate_ok {d d' p} hok hroom h := by
    cases allocates h with
    | recycled hf => exact ⟨hok.reuse hf rfl rfl rfl, fun _ => room_of_next rfl⟩
    | fresh hf hvalid =>
      exact ⟨hok.extend hvalid rfl rfl hf, fun hk => absurd hk (UInt32.lt_irrefl _)⟩
  allocate_error {d d' e} hok hroom h := by
    cases allocates h with
    | exhausted _ hinvalid => exact absurd hinvalid (next_ne_invalid hroom)
  deallocate_ok {d d' p} hok h := by
    cases deallocates h with
    | released hp => exact ⟨hok.release hp rfl rfl rfl, snapshot_erase rfl⟩
    | absent hp =>
      obtain ⟨hs, hpage⟩ := hok.steady (d.record (.deallocate p)) rfl rfl rfl
      refine ⟨hs, hpage.trans (Function.update_eq_self_iff.mpr ?_).symm⟩
      rw [isAllocated_eq_isSome] at hp
      exact (Option.not_isSome_iff_eq_none.mp hp).symm
  deallocate_error {d d' p e} hok h := by
    cases deallocates h

end BufferPool.MemoryDisk
