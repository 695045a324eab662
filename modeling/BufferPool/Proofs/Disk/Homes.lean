import BufferPool.Proofs.Disk.Alike

/-! # Homes of pages

Every id that a file disk knows has a home in the file. Either the page is live
there, or it is dead and its slot waits once to be handed out again. Homes do not
overlap, so that a write shows in the page that it names and in no other.
-/

namespace BufferPool

open Device (Leads)

namespace FileDisk

variable {d d' : FileDisk} {p q : PageId} {x : Page}

theorem openAt_eq {place : Place} (h : openAt place = .ok d) : d = ofBytes d.bytes := by
  unfold openAt at h
  split at h <;> cases h
  rfl

theorem pages_lt {bytes : Bytes} (h : bytes.length < PageId.invalid.toNat * Page.size) :
    bytes.length / Page.size < UInt32.size :=
  Nat.lt_succ_of_lt (Nat.div_lt_of_lt_mul (Nat.mul_comm .. ▸ h))

/-- A slot of every dead page waits to be handed out again. -/
structure Complete (d : FileDisk) : Prop extends Ordered d where
  queued : ∀ p, d.slots[p]? = some none → p ∈ d.freeSlots.map Prod.fst

/-- The page is live at its home and has no free slot, or it is dead and has one free slot, which is
its home. -/
inductive AtHome (d : FileDisk) (p : PageId) : Prop where
  | live (slot : d.slots[p]? = some (some (p.toNat * Page.size)))
      (free : (d.freeSlots.map Prod.fst).count p = 0)
  | dead (slot : d.slots[p]? = some none) (free : (d.freeSlots.map Prod.fst).count p = 1)
      (home : (p, p.toNat * Page.size) ∈ d.freeSlots)

namespace Complete

theorem ofBytes {bytes : Bytes} (h : bytes.length / Page.size < UInt32.size) :
    (ofBytes bytes).Complete where
  toOrdered := ordered_ofBytes h
  queued p hp := by
    simp only [FileDisk.ofBytes, (slotsBelow_spec h).2] at hp
    split at hp <;> cases hp

theorem congr (h : d.Complete) (same : SameSlots d d') : d'.Complete where
  toOrdered := (h.toOrdered.steady same.slots same.freeSlots).ok
  queued := by
    rw [same.slots, same.freeSlots]
    exact h.queued

theorem dead_of_insert (h : d.Complete) {s : Option Nat} (slots : d'.slots = d.slots.insert q s)
    (hs : s ≠ none) (hp : d'.slots[p]? = some none) :
    p ≠ q ∧ p ∈ d.freeSlots.map Prod.fst := by
  rw [getElem?_slots_insert slots] at hp
  split at hp
  · exact absurd (Option.some.inj hp) hs
  · rename_i hne
    exact ⟨Ne.symm hne, h.queued p hp⟩

theorem allocate (h : d.Complete) {r : Except DiskError PageId}
    (ha : FileDisk.allocate d = (r, d')) : d'.Complete := by
  have hr : Device.Request d d' := .allocate (r := r) ha
  refine ⟨hr.ok h.toOrdered trivial, fun p hp => ?_⟩
  cases allocates ha with
  | recycled hf =>
    obtain ⟨hne, hfree⟩ := h.dead_of_insert rfl (by simp) hp
    rw [hf, List.map_cons, List.mem_cons] at hfree
    exact hfree.resolve_left hne
  | fresh => exact (h.dead_of_insert rfl (by simp) hp).2
  | exhausted => exact h.queued p hp

theorem deallocate (h : d.Complete) {r : Except DiskError Unit}
    (hd : FileDisk.deallocate q d = (r, d')) : d'.Complete := by
  have hr : Device.Request d d' := .deallocate (r := r) hd
  refine ⟨hr.ok h.toOrdered trivial, fun p hp => ?_⟩
  cases deallocates hd with
  | released =>
    rw [List.map_append, List.mem_append]
    rw [getElem?_slots_insert rfl] at hp
    split at hp
    · rename_i he
      simp [he]
    · exact Or.inl (h.queued p hp)
  | absent => exact h.queued p hp

theorem leads (h : d.Complete) (hl : Leads d d') : d'.Complete := by
  induction hl with
  | refl => exact h
  | tail _ hr ih =>
    cases hr with
    | read hr => exact ih.congr (sameSlots_read hr)
    | write hw => exact ih.congr (sameSlots_write hw)
    | allocate ha => exact ih.allocate ha
    | deallocate hd => exact ih.deallocate hd

theorem atHome (h : d.Complete) (hp : p.toNat < d.slots.size) : d.AtHome p := by
  have hknown : p ∈ d.slots := (h.known_iff p).mpr hp
  rw [Std.ExtTreeMap.mem_iff_isSome_getElem?] at hknown
  obtain ⟨slot, hslot⟩ := Option.isSome_iff_exists.mp hknown
  rcases slot with _ | o
  · have hqueued := h.queued p hslot
    obtain ⟨t, ht, rfl⟩ := List.mem_map.mp hqueued
    have hhome : t = (t.1, offset t.1) := Prod.ext rfl (h.free_dead t ht).2
    exact .dead hslot (List.count_eq_one_of_mem h.free_nodup hqueued) (hhome ▸ ht)
  · obtain rfl := h.home p o hslot
    apply AtHome.live hslot
    rw [List.count_eq_zero]
    intro hm
    obtain ⟨t, ht, rfl⟩ := List.mem_map.mp hm
    rw [(h.free_dead t ht).1] at hslot
    cases hslot

end Complete

theorem Ordered.readBuffer (h : d.Ordered) (hp : d.standing p = .live) :
    (Device.readBuffer p Page.size d).1 = .ok (d.slot p).bytes := by
  obtain ⟨o, ho⟩ := standing_eq_live_iff.mp hp
  have hstored : d.stored p = some (Page.ofStart (d.bytes.drop o)) :=
    stored_eq_some_iff.mpr ⟨o, ho, rfl⟩
  have hread : (Device.read p d).1 = .ok (d.slot p) := by
    change (FileDisk.read p d).1 = _
    rw [FileDisk.read, h.locate_of_stored hstored]
    rfl
  rw [Device.readBuffer, if_pos rfl]
  simp only [hread]
  rfl

theorem live_of_write (hw : write p x d = (.ok (), d')) : d.standing p = .live := by
  unfold write at hw
  split at hw <;> cases hw
  rename_i o ho
  exact standing_eq_live_iff.mpr ⟨o, locate_eq_ok ho⟩

end FileDisk

open FileDisk

/-- Whatever file a disk was opened on and whatever was asked of it since, every page that it knows
is at home. A write that succeeds is read back, and every other live page reads as it did before. -/
theorem pages_apart (place : Place) (d : FileDisk) (calls : List DeviceCall) (s : Served FileDisk)
    (hopen : FileDisk.openAt place = .ok d)
    (hlength : d.bytes.length < PageId.invalid.toNat * Page.size)
    (hs : s = Served.run ⟨d, []⟩ calls) :
    (∀ p : PageId, p.toNat < s.device.slots.size → s.device.AtHome p) ∧
    ∀ p buffer d', Device.writeBuffer p buffer s.device = (.ok (), d') →
      (Device.readBuffer p Page.size d').1 = .ok buffer ∧
      ∀ q, q ≠ p → s.device.standing q = .live →
        ∃ bs, bs.length = Page.size ∧ (Device.readBuffer q Page.size s.device).1 = .ok bs ∧
          (Device.readBuffer q Page.size d').1 = .ok bs := by
  have hd : d.Complete := by
    rw [openAt_eq hopen]
    exact .ofBytes (pages_lt hlength)
  have hcomplete : s.device.Complete := by
    rw [hs]
    exact hd.leads (Served.leads_run ⟨d, []⟩ calls)
  refine ⟨fun p hp => hcomplete.atHome hp, fun p buffer d' hw => ?_⟩
  unfold Device.writeBuffer at hw
  split at hw
  · rename_i x hx
    obtain rfl := Page.ofBytes?_eq_some_iff.mp hx
    have hwrite : FileDisk.write p x s.device = (.ok (), d') := hw
    have hsame := sameSlots_write hwrite
    have hslot := slot_write hcomplete.toOrdered hwrite
    have hordered := (hcomplete.congr hsame).toOrdered
    constructor
    · rw [hordered.readBuffer (hsame.standing.trans (live_of_write hwrite)), hslot,
        Function.update_self]
    · intro q hq hlive
      refine ⟨_, Page.length_bytes _, hcomplete.readBuffer hlive, ?_⟩
      rw [hordered.readBuffer (hsame.standing.trans hlive), hslot, Function.update_of_ne hq]
  · cases hw

/-- A disk on a file that ends within page 1, with page 2 behind the end. -/
def straddling : Served FileDisk :=
  Served.run ⟨FileDisk.ofBytes (List.replicate 4100 7), []⟩ [.allocate, .allocate, .deallocate 0]

theorem pages_apart_filling_a_gap :
    (FileDisk.ofBytes (List.replicate 4100 7)).bytes.length < PageId.invalid.toNat * Page.size ∧
    straddling.device.AtHome 0 ∧ ∃ d' bs,
      Device.writeBuffer 2 Page.zero.bytes straddling.device = (.ok (), d') ∧
      (Device.readBuffer 2 Page.size d').1 = .ok Page.zero.bytes ∧
      (Device.readBuffer 1 Page.size straddling.device).1 = .ok bs ∧
      (Device.readBuffer 1 Page.size d').1 = .ok bs := by
  have hlength : (FileDisk.ofBytes (List.replicate 4100 7)).bytes.length <
      PageId.invalid.toNat * Page.size := by
    decide +kernel
  obtain ⟨hhome, hwrites⟩ := pages_apart (.file (List.replicate 4100 7)) _
    [.allocate, .allocate, .deallocate 0] straddling rfl hlength rfl
  have hok : (Device.writeBuffer 2 Page.zero.bytes straddling.device).1.isOk = true := by
    decide +kernel
  rcases hw : Device.writeBuffer 2 Page.zero.bytes straddling.device with ⟨_ | _, d'⟩
  · rw [hw] at hok
    cases hok
  obtain ⟨hread, hothers⟩ := hwrites 2 Page.zero.bytes d' hw
  obtain ⟨bs, -, hbefore, hafter⟩ := hothers 1 (by decide) (by decide +kernel)
  exact ⟨hlength, hhome 0 (by decide +kernel), d', bs, rfl, hread, hbefore, hafter⟩

end BufferPool
