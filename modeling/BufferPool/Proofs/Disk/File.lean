import BufferPool.Disk.File
import BufferPool.Proofs.Disk.Lawful

/-! # The file disk is lawful

Every live page lies at its home offset, so that pages do not overlap, and the
known ids are the first ones. A new page may show bytes that were left in its
place.
-/

namespace BufferPool

namespace Bytes

variable {bs new : Bytes} {n offset i : Nat}

theorem getElem?_resize : (bs.resize n)[i]? = if i < n then some (bs.getD i 0) else none := by
  simp only [resize, List.getElem?_append, List.length_take, List.getElem?_take,
    List.getElem?_replicate, List.getD_eq_getElem?_getD]
  by_cases hn : i < n
  · by_cases hl : i < bs.length
    · rw [if_pos (by omega), if_pos hn, if_pos hn, List.getElem?_eq_getElem hl]
      rfl
    · rw [if_neg (by omega), if_pos (by omega), if_pos hn, List.getElem?_eq_none (by omega)]
      rfl
  · rw [if_neg (by omega), if_neg (by omega), if_neg hn]

theorem getD_overlay : (bs.overlay offset new).getD i 0 =
    if offset ≤ i ∧ i < offset + new.length then new.getD (i - offset) 0 else bs.getD i 0 := by
  simp only [overlay, List.getD_eq_getElem?_getD, List.getElem?_append, List.length_append,
    length_resize, getElem?_resize, List.getElem?_drop]
  by_cases ho : i < offset
  · rw [if_pos (by omega), if_pos ho, if_pos ho, if_neg (by omega)]
    rfl
  · by_cases hn : i < offset + new.length
    · rw [if_pos hn, if_neg ho, if_pos (by omega)]
    · rw [if_neg hn, if_neg (by omega), Nat.add_sub_cancel' (by omega)]

end Bytes

namespace Page

variable {bs : Bytes} {x : Page} {o q : Nat}

theorem getElem?_ofStart_drop {i : Nat} : (ofStart (bs.drop o)).bytes[i]? =
    if i < size then some (bs.getD (o + i) 0) else none := by
  simp [ofStart, Bytes.getElem?_resize]

theorem ofStart_drop_overlay_self : ofStart ((bs.overlay o x.bytes).drop o) = x := by
  apply Page.ext
  apply List.ext_getElem?
  intro i
  rw [getElem?_ofStart_drop, Bytes.getD_overlay]
  by_cases hi : i < size
  · have hl : i < x.bytes.length := by rwa [x.length_bytes]
    rw [if_pos hi, if_pos (by omega), Nat.add_sub_cancel_left, List.getD_eq_getElem?_getD,
      List.getElem?_eq_getElem hl]
    rfl
  · rw [if_neg hi, List.getElem?_eq_none (by rw [x.length_bytes]; omega)]

theorem ofStart_drop_overlay_of_disjoint (h : q + size ≤ o ∨ o + size ≤ q) :
    ofStart ((bs.overlay o x.bytes).drop q) = ofStart (bs.drop q) := by
  apply Page.ext
  apply List.ext_getElem?
  intro i
  simp only [getElem?_ofStart_drop]
  by_cases hi : i < size
  · rw [if_pos hi, if_pos hi, Bytes.getD_overlay, x.length_bytes, if_neg (by omega)]
  · rw [if_neg hi, if_neg hi]

end Page

namespace FileDisk

variable {d d' : FileDisk} {p q : PageId}

/-- Pages lie at their home offsets, the known ids are the first ones, and the free slots are those
of the dead pages. -/
structure Ordered (d : FileDisk) : Prop where
  home : ∀ p o, d.slots[p]? = some (some o) → o = offset p
  known_iff : ∀ p, p ∈ d.slots ↔ p.toNat < d.slots.size
  size_lt : d.slots.size < UInt32.size
  free_nodup : (d.freeSlots.map Prod.fst).Nodup
  free_dead : ∀ s ∈ d.freeSlots, d.slots[s.1]? = some none ∧ s.2 = offset s.1

inductive Allocates (d : FileDisk) : Except DiskError PageId → FileDisk → Prop where
  | recycled {p : PageId} {o : Nat} {rest : List (PageId × Nat)}
      (hf : d.freeSlots = (p, o) :: rest) :
      Allocates d (.ok p) { d with slots := d.slots.insert p (some o), freeSlots := rest }
  | fresh {p : PageId} (hf : d.freeSlots = []) (hp : p = UInt32.ofNat d.slots.size)
      (hvalid : p ≠ PageId.invalid) :
      Allocates d (.ok p) { d with slots := d.slots.insert p (some (offset p)) }
  | exhausted (hf : d.freeSlots = []) (hinvalid : UInt32.ofNat d.slots.size = PageId.invalid) :
      Allocates d (.error .invalidPageId) d

theorem allocates {r : Except DiskError PageId} (h : allocate d = (r, d')) : d.Allocates r d' := by
  unfold allocate at h
  split at h
  · rename_i hf
    cases h
    exact .recycled hf
  · rename_i hf
    simp only at h
    split at h
    · rename_i hinvalid
      cases h
      exact .exhausted hf hinvalid
    · rename_i hvalid
      cases h
      exact .fresh hf rfl hvalid

inductive Deallocates (d : FileDisk) (p : PageId) : Except DiskError Unit → FileDisk → Prop where
  | released {o : Nat} (hp : d.slots[p]? = some (some o)) : Deallocates d p (.ok ())
      { d with slots := d.slots.insert p none, freeSlots := d.freeSlots ++ [(p, o)] }
  | absent (hp : ∀ o, d.slots[p]? ≠ some (some o)) : Deallocates d p (.ok ()) d

theorem deallocates {r : Except DiskError Unit} (h : deallocate p d = (r, d')) :
    d.Deallocates p r d' := by
  unfold deallocate at h
  split at h
  · rename_i hp
    cases h
    exact .released hp
  · rename_i hp
    cases h
    exact .absent hp

def stored (d : FileDisk) (p : PageId) : Option Page :=
  match d.slots[p]? with
  | some (some o) => some (Page.ofStart (d.bytes.drop o))
  | _ => none

instance : Storage FileDisk where
  page? := stored
  Known d p := p ∈ d.slots
  Room _ _ := True
  room_of_le _ := id
  Fresh _ := True
  Ok := Ordered

theorem mem_slots {s : Option Nat} (hp : d.slots[p]? = some s) : p ∈ d.slots := by
  rw [Std.ExtTreeMap.mem_iff_isSome_getElem?, hp]
  rfl

theorem mem_slots_insert {s : Option Nat} (slots : d'.slots = d.slots.insert p s) :
    q ∈ d'.slots ↔ p = q ∨ q ∈ d.slots := by
  rw [slots, Std.ExtTreeMap.mem_insert, Std.LawfulEqCmp.compare_eq_iff_eq]

theorem getElem?_slots_insert {s : Option Nat} (slots : d'.slots = d.slots.insert p s) :
    d'.slots[q]? = if p = q then some s else d.slots[q]? := by
  rw [slots, Std.ExtTreeMap.getElem?_insert]
  simp only [Std.LawfulEqCmp.compare_eq_iff_eq]

theorem stored_eq_some_iff {x : Page} : d.stored p = some x ↔
    ∃ o, d.slots[p]? = some (some o) ∧ x = Page.ofStart (d.bytes.drop o) := by
  unfold stored
  split
  · rename_i o ho
    simp [ho, eq_comm]
  · rename_i ho
    simp only [reduceCtorEq, false_iff]
    rintro ⟨o, hs, -⟩
    exact ho o hs

theorem offset_disjoint (h : p ≠ q) :
    offset q + Page.size ≤ offset p ∨ offset p + Page.size ≤ offset q := by
  have hn : p.toNat ≠ q.toNat := fun hn => h (UInt32.toNat_inj.mp hn)
  simp only [offset, Page.size]
  omega

theorem locate_eq_ok {o : Nat} (h : d.locate p = .ok o) : d.slots[p]? = some (some o) := by
  unfold locate at h
  split at h
  · cases h
  · split at h
    · cases h
      assumption
    · cases h
    · cases h

theorem stored_eq_none_of_locate {e : DiskError} (h : d.locate p = .error e)
    (he : e.isMissing = true) : d.stored p = none := by
  unfold locate at h
  split at h
  · cases h
    cases he
  · unfold stored
    split at h <;> simp_all

theorem stored_write (h : d.Ordered) {o : Nat} {x : Page} (hp : d.slots[p]? = some (some o))
    (slots : d'.slots = d.slots) (bytes : d'.bytes = d.bytes.overlay o x.bytes) :
    d'.stored = Function.update d.stored p (some x) := by
  funext q
  rw [Function.update_apply]
  split
  · rename_i he
    rw [he, stored, slots, hp, bytes]
    exact congrArg some Page.ofStart_drop_overlay_self
  · rename_i hne
    rw [stored, stored, slots, bytes]
    rcases hq : d.slots[q]? with _ | _ | o'
    · rfl
    · rfl
    · rw [h.home q o' hq, h.home p o hp]
      exact congrArg some (Page.ofStart_drop_overlay_of_disjoint (offset_disjoint hne).symm)

theorem stored_insert {s : Option Nat} (slots : d'.slots = d.slots.insert p s)
    (bytes : d'.bytes = d.bytes) : d'.stored =
      Function.update d.stored p (s.map fun o => Page.ofStart (d.bytes.drop o)) := by
  ext1 q
  rw [stored, getElem?_slots_insert slots, bytes, Function.update_apply]
  by_cases hq : q = p
  · rw [if_pos hq.symm, if_pos hq]
    cases s <;> rfl
  · rw [if_neg (Ne.symm hq), if_neg hq]
    rfl

theorem stored_deallocate {r : Except DiskError Unit} (h : deallocate p d = (r, d')) :
    d'.stored = Function.update d.stored p none := by
  cases deallocates h with
  | released => exact stored_insert (s := none) rfl rfl
  | absent hdead =>
    refine (Function.update_eq_self_iff.mpr ?_).symm
    unfold stored
    split
    · exact absurd ‹_› (hdead _)
    · rfl

section Bytes

/-- The bytes in the place of a page, whether or not it is live. -/
def slot (d : FileDisk) (p : PageId) : Page := Page.ofStart (d.bytes.drop (offset p))

theorem bytes_read {r : Except DiskError Page} (h : read p d = (r, d')) : d'.bytes = d.bytes := by
  unfold read at h
  split at h <;> cases h <;> rfl

theorem bytes_write_error {x : Page} {e : DiskError} (h : write p x d = (.error e, d')) :
    d'.bytes = d.bytes := by
  unfold write at h
  split at h <;> cases h
  rfl

theorem bytes_allocate {answer : Except DiskError PageId} (h : allocate d = (answer, d')) :
    d'.bytes = d.bytes := by
  cases allocates h <;> rfl

theorem bytes_deallocate {answer : Except DiskError Unit} (h : deallocate p d = (answer, d')) :
    d'.bytes = d.bytes := by
  cases deallocates h <;> rfl

theorem slot_empty (p : PageId) : (ofBytes []).slot p = Page.zero := by
  rw [slot, ofBytes, List.drop_nil, Page.ofStart_nil]

theorem slot_eq_of_bytes (h : d'.bytes = d.bytes) (p : PageId) : d'.slot p = d.slot p := by
  rw [slot, slot, h]

theorem slot_write {x : Page} (hd : d.Ordered) (h : write p x d = (.ok (), d')) :
    d'.slot = Function.update d.slot p x := by
  unfold write at h
  split at h <;> cases h
  rename_i o ho
  rw [hd.home p o (locate_eq_ok ho)]
  funext q
  rw [Function.update_apply]
  split
  · rename_i he
    rw [he]
    exact Page.ofStart_drop_overlay_self
  · rename_i hne
    exact Page.ofStart_drop_overlay_of_disjoint (offset_disjoint hne).symm

theorem slot_of_stored {x : Page} (hd : d.Ordered) (h : d.stored p = some x) : d.slot p = x := by
  obtain ⟨o, ho, rfl⟩ := stored_eq_some_iff.mp h
  rw [slot, hd.home p o ho]

end Bytes

namespace Ordered

theorem steady (h : d.Ordered) (slots : d'.slots = d.slots)
    (freeSlots : d'.freeSlots = d.freeSlots) : Storage.Steady d d' where
  ok := by
    constructor
    · rw [slots]; exact h.home
    · rw [slots]; exact h.known_iff
    · rw [slots]; exact h.size_lt
    · rw [freeSlots]; exact h.free_nodup
    · rw [freeSlots, slots]; exact h.free_dead
  known p hp := (congrArg (p ∈ ·) slots).mpr hp
  room _ := id

theorem home_insert (h : d.Ordered) {s : Option Nat} (hs : ∀ o, s = some o → o = offset p)
    (slots : d'.slots = d.slots.insert p s) (q : PageId) (o : Nat)
    (hq : d'.slots[q]? = some (some o)) : o = offset q := by
  rw [getElem?_slots_insert slots] at hq
  split at hq
  · rename_i he
    rw [← he]
    exact hs o (Option.some.inj hq)
  · exact h.home q o hq

theorem insert (h : d.Ordered) {s : Option Nat} (hp : p ∈ d.slots)
    (hs : ∀ o, s = some o → o = offset p) (slots : d'.slots = d.slots.insert p s)
    (nodup : (d'.freeSlots.map Prod.fst).Nodup)
    (dead : ∀ t ∈ d'.freeSlots, (t.1 = p → s = none) ∧
      (t.1 ≠ p → d.slots[t.1]? = some none) ∧ t.2 = offset t.1) : d'.Ordered := by
  have hsize : d'.slots.size = d.slots.size := by
    rw [slots, Std.ExtTreeMap.size_insert, if_pos (Std.ExtTreeMap.contains_iff_mem.mpr hp)]
  constructor
  · exact h.home_insert hs slots
  · intro q
    rw [hsize, ← h.known_iff q, mem_slots_insert slots]
    constructor
    · rintro (rfl | hq)
      · exact hp
      · exact hq
    · exact Or.inr
  · rw [hsize]
    exact h.size_lt
  · exact nodup
  · intro t ht
    obtain ⟨hself, hother, ho⟩ := dead t ht
    rw [getElem?_slots_insert slots]
    split
    · rename_i he
      exact ⟨congrArg some (hself he.symm), ho⟩
    · rename_i hne
      exact ⟨hother (Ne.symm hne), ho⟩

theorem added {o : Nat} (h : d'.Ordered) (absent : d.stored p = none)
    (slots : d'.slots = d.slots.insert p (some o)) (bytes : d'.bytes = d.bytes) :
    Storage.Added d p d' where
  ok := h
  known _ hq := (mem_slots_insert slots).mpr (Or.inr hq)
  known_self := (mem_slots_insert slots).mpr (Or.inl rfl)
  room _ := id
  absent := absent
  page? := ⟨_, trivial, stored_insert slots bytes⟩

theorem reuse (h : d.Ordered) {o : Nat} {rest : List (PageId × Nat)}
    (hf : d.freeSlots = (p, o) :: rest) (slots : d'.slots = d.slots.insert p (some o))
    (freeSlots : d'.freeSlots = rest) (bytes : d'.bytes = d.bytes) : Storage.Added d p d' := by
  have hn := h.free_nodup
  rw [hf, List.map_cons, List.nodup_cons] at hn
  obtain ⟨hdead, ho⟩ := h.free_dead (p, o) (hf ▸ List.mem_cons_self)
  have hok : d'.Ordered := by
    apply h.insert (mem_slots hdead) _ slots
    · rw [freeSlots]
      exact hn.2
    · rw [freeSlots]
      intro t ht
      obtain ⟨hd, ho'⟩ := h.free_dead t (hf ▸ List.mem_cons_of_mem _ ht)
      exact ⟨fun he => absurd (List.mem_map_of_mem ht) (he ▸ hn.1), fun _ => hd, ho'⟩
    · rintro _ ⟨⟩
      exact ho
  apply hok.added _ slots bytes
  rw [stored, hdead]

theorem toNat_size (h : d.Ordered) : (UInt32.ofNat d.slots.size).toNat = d.slots.size :=
  UInt32.toNat_ofNat_of_lt' h.size_lt

theorem size_not_mem (h : d.Ordered) : UInt32.ofNat d.slots.size ∉ d.slots := by
  rw [h.known_iff, h.toNat_size]
  exact Nat.lt_irrefl _

theorem extend (h : d.Ordered) (hp : p = UInt32.ofNat d.slots.size) (hv : p ≠ PageId.invalid)
    (slots : d'.slots = d.slots.insert p (some (offset p)))
    (freeSlots : d'.freeSlots = d.freeSlots) (bytes : d'.bytes = d.bytes) :
    Storage.Added d p d' := by
  have hlt := h.size_lt
  have hn : p.toNat = d.slots.size := hp ▸ h.toNat_size
  have hnew : p ∉ d.slots := hp ▸ h.size_not_mem
  have hne : p.toNat ≠ 4294967295 := fun hn => hv (UInt32.toNat_inj.mp hn)
  have hsize : d'.slots.size = d.slots.size + 1 := by
    rw [slots, Std.ExtTreeMap.size_insert, if_neg (mt Std.ExtTreeMap.contains_iff_mem.mp hnew)]
  have hok : d'.Ordered := by
    constructor
    · apply h.home_insert _ slots
      rintro _ ⟨⟩
      rfl
    · intro q
      rw [mem_slots_insert slots, h.known_iff, hsize, ← UInt32.toNat_inj]
      omega
    · unfold UInt32.size at hlt ⊢
      omega
    · rw [freeSlots]
      exact h.free_nodup
    · rw [freeSlots]
      intro t ht
      obtain ⟨hdead, ho⟩ := h.free_dead t ht
      rw [getElem?_slots_insert slots, if_neg, hdead]
      · exact ⟨rfl, ho⟩
      · rintro rfl
        exact hnew (mem_slots hdead)
  apply hok.added _ slots bytes
  rw [stored, Std.ExtTreeMap.getElem?_eq_none hnew]

theorem release (h : d.Ordered) {o : Nat} (hp : d.slots[p]? = some (some o))
    (slots : d'.slots = d.slots.insert p none)
    (freeSlots : d'.freeSlots = d.freeSlots ++ [(p, o)]) :
    Storage.Steady d d' where
  ok := by
    have hlive : p ∉ d.freeSlots.map Prod.fst := by
      intro hm
      obtain ⟨t, ht, rfl⟩ := List.mem_map.mp hm
      rw [(h.free_dead t ht).1] at hp
      cases hp
    apply h.insert (mem_slots hp) (by simp) slots
    · rw [freeSlots, List.map_append]
      exact (List.perm_append_singleton p _).nodup_iff.mpr
        (List.nodup_cons.mpr ⟨hlive, h.free_nodup⟩)
    · rw [freeSlots]
      intro t ht
      rcases List.mem_append.mp ht with ht | ht
      · obtain ⟨hdead, ho⟩ := h.free_dead t ht
        exact ⟨fun _ => rfl, fun _ => hdead, ho⟩
      · rw [List.mem_singleton.mp ht]
        exact ⟨fun _ => rfl, fun hne => absurd rfl hne, h.home p o hp⟩
  known _ hq := (mem_slots_insert slots).mpr (Or.inr hq)
  room _ := id

end Ordered

instance : Lawful FileDisk where
  known_of_page? {d p x} _ hp := by
    obtain ⟨o, ho, -⟩ := stored_eq_some_iff.mp hp
    exact mem_slots ho
  read {d d' p r} hok h := by
    change FileDisk.read p d = (r, d') at h
    unfold FileDisk.read at h
    split at h
    · rename_i o ho
      cases h
      refine ⟨hok.steady rfl rfl, rfl, ?_⟩
      rintro _ ⟨⟩
      exact stored_eq_some_iff.mpr ⟨o, locate_eq_ok ho, rfl⟩
    · cases h
      exact ⟨hok.steady rfl rfl, rfl, fun _ hx => by cases hx⟩
  write_ok {d d' p x} hok h := by
    change FileDisk.write p x d = (_, d') at h
    unfold FileDisk.write at h
    split at h
    · rename_i o ho
      cases h
      have hp := locate_eq_ok ho
      refine ⟨hok.steady rfl rfl, ?_, stored_write hok hp rfl rfl⟩
      exact Option.ne_none_iff_exists'.mpr ⟨_, stored_eq_some_iff.mpr ⟨o, hp, rfl⟩⟩
    · cases h
  write_error {d d' p x e} hok h := by
    change FileDisk.write p x d = (_, d') at h
    unfold FileDisk.write at h
    split at h
    · cases h
    · rename_i e hl
      cases h
      exact ⟨hok.steady rfl rfl, rfl, stored_eq_none_of_locate hl⟩
  allocate_ok {d d' p} hok _ h := by
    cases allocates h with
    | recycled hf => exact ⟨hok.reuse hf rfl rfl rfl, fun _ _ => id⟩
    | fresh _ hp hvalid => exact ⟨hok.extend hp hvalid rfl rfl rfl, fun _ _ => id⟩
  allocate_error {d d' e} hok _ h := by
    cases allocates h
    exact (Storage.Steady.refl hok).grown fun _ _ => id
  deallocate_ok {d d' p} hok h := by
    refine ⟨?_, stored_deallocate h⟩
    cases deallocates h with
    | released hp => exact hok.release hp rfl rfl
    | absent => exact hok.steady rfl rfl
  deallocate_error {d d' p e} hok h := by
    cases deallocates h

theorem slotsBelow_spec {m : Nat} (hm : m < UInt32.size) : (slotsBelow m).size = m ∧
    ∀ p, (slotsBelow m)[p]? = if p.toNat < m then some (some (offset p)) else none := by
  induction m with
  | zero => simp [slotsBelow]
  | succ m ih =>
    obtain ⟨hsize, hget⟩ := ih (by omega)
    have hn : (UInt32.ofNat m).toNat = m := UInt32.toNat_ofNat_of_lt' (Nat.lt_of_succ_lt hm)
    have hs : slotsBelow (m + 1) =
        (slotsBelow m).insert (UInt32.ofNat m) (some (m * Page.size)) := by
      simp only [slotsBelow, List.range_succ, List.foldl_append, List.foldl_cons, List.foldl_nil]
    constructor
    · rw [hs, Std.ExtTreeMap.size_insert, hsize, if_neg]
      rw [Std.ExtTreeMap.contains_eq_isSome_getElem?, hget, hn, if_neg (Nat.lt_irrefl m)]
      decide
    · intro p
      rw [hs, Std.ExtTreeMap.getElem?_insert, hget]
      simp only [Std.LawfulEqCmp.compare_eq_iff_eq, ← UInt32.toNat_inj, hn]
      by_cases hp : m = p.toNat
      · rw [if_pos hp, if_pos (by omega), offset, hp]
      · rw [if_neg hp]
        by_cases hlt : p.toNat < m
        · rw [if_pos hlt, if_pos (by omega)]
        · rw [if_neg hlt, if_neg (by omega)]

theorem ordered_ofBytes {bytes : Bytes} (h : bytes.length / Page.size < UInt32.size) :
    (ofBytes bytes).Ordered := by
  obtain ⟨hsize, hget⟩ := slotsBelow_spec h
  constructor
  · intro p o hp
    simp only [ofBytes, hget] at hp
    split at hp
    · cases hp
      rfl
    · cases hp
  · intro p
    simp only [ofBytes, Std.ExtTreeMap.mem_iff_isSome_getElem?, hget, hsize]
    split <;> simp_all
  · simp only [ofBytes, hsize]
    exact h
  · exact .nil
  · simp [ofBytes]

end FileDisk

end BufferPool
