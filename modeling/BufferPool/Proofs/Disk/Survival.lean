import BufferPool.Proofs.Disk.Homes

/-! # Pages that survive

A disk that is opened on the file of another one knows its bytes and its length, and
nothing else. A page that was written lies before the end of the file, so that it is
there again. Ids behind the end are handed out anew, whether or not they were live.
-/

namespace BufferPool

namespace Reply

def Releases (p : PageId) : Reply → Prop
  | deallocate q _ => q = p
  | _ => False

instance (p : PageId) : DecidablePred (Releases p)
  | deallocate q _ => inferInstanceAs (Decidable (q = p))
  | read _ _ _ | write _ _ _ | allocate _ => inferInstanceAs (Decidable False)

def allocation? : Reply → Option (Except DiskError PageId)
  | allocate answer => some answer
  | _ => none

def allocations (past : List Reply) : List (Except DiskError PageId) :=
  past.reverse.filterMap allocation?

theorem allocations_cons (reply : Reply) (past : List Reply) :
    allocations (reply :: past) = allocations past ++ reply.allocation?.toList := by
  rw [allocations, List.reverse_cons, List.filterMap_append, allocations]
  cases reply <;> rfl

end Reply

open Reply

theorem Served.Step.exists_reply {δ : Type} [Device δ] {s t : Served δ} (hst : s.Step t) :
    ∃ reply, t.past = reply :: s.past := by
  cases hst <;> exact ⟨_, rfl⟩

namespace FileDisk

variable {d d' : FileDisk} {s t u : Served FileDisk} {p q : PageId} {m n : Nat}

def pageCount (d : FileDisk) : Nat := d.bytes.length / Page.size

theorem standing_ofBytes {bytes : Bytes} (h : (ofBytes bytes).pageCount < UInt32.size) :
    (ofBytes bytes).standing p = .live ↔ p.toNat < (ofBytes bytes).pageCount := by
  have hslot := (slotsBelow_spec h).2 p
  rw [standing_eq_live_iff]
  constructor
  · rintro ⟨o, ho⟩
    by_contra hlt
    rw [if_neg hlt] at hslot
    cases ho.symm.trans hslot
  · intro hlt
    rw [if_pos hlt] at hslot
    exact ⟨_, hslot⟩

theorem pageCount_write {x : Page} (h : d.Ordered) (hw : write p x d = (.ok (), d')) :
    d'.pageCount = max d.pageCount (p.toNat + 1) := by
  obtain ⟨-, -, hlength⟩ := of_write h hw
  simp only [pageCount, hlength, offset, Page.size]
  omega

theorem live_allocate {r : Except DiskError PageId} (ha : allocate d = (r, d'))
    (hp : d.standing p = .live) : d'.standing p = .live := by
  cases allocates ha with
  | recycled | fresh =>
    rw [standing_insert rfl, hp]
    split <;> rfl
  | exhausted => exact hp

theorem live_step (hst : s.Step t) (hkeep : ∀ reply ∈ t.past, ¬ reply.Releases p)
    (hp : s.device.standing p = .live) : t.device.standing p = .live := by
  cases hst with
  | refused => exact hp
  | read hr => exact (sameSlots_read hr).standing.trans hp
  | wrote hw | unwritten hw => exact (sameSlots_write hw).standing.trans hp
  | allocated ha | unallocated ha => exact live_allocate ha hp
  | deallocated hd =>
    rw [(standing_deallocate hd).2.2.2, if_neg]
    · exact hp
    · rintro ⟨rfl, -⟩
      exact hkeep _ List.mem_cons_self rfl

structure Grown (d : FileDisk) (s : Served FileDisk) : Prop where
  ordered : s.device.Ordered
  slot_eq : ∀ p, (s.device.slot p).bytes = (writtenEver p s.past).getD (d.slot p).bytes
  pages_le : s.device.pageCount ≤ s.device.slots.size
  length_le : d.bytes.length ≤ s.device.bytes.length
  reaches : ∀ p, writtenEver p s.past ≠ none → p.toNat < s.device.pageCount
  kept : ∀ p, p.toNat < d.pageCount → (∀ reply ∈ s.past, ¬ reply.Releases p) →
    s.device.standing p = .live

/-- The page is live and was written since it was allocated, or it was in the file at first and was
never released. -/
def Saved (d : FileDisk) (s : Served FileDisk) (p : PageId) : Prop :=
  (s.device.standing p = .live ∧ writtenSince p s.past ≠ none) ∨
    (p.toNat < d.pageCount ∧ ∀ reply ∈ s.past, ¬ reply.Releases p)

namespace Grown

theorem ofBytes {bytes : Bytes} (h : (ofBytes bytes).pageCount < UInt32.size) :
    Grown (ofBytes bytes) ⟨ofBytes bytes, []⟩ where
  ordered := ordered_ofBytes h
  slot_eq _ := rfl
  pages_le := Nat.le_of_eq (slotsBelow_spec h).1.symm
  length_le := Nat.le_refl _
  reaches _ hp := absurd rfl hp
  kept _ hp _ := (standing_ofBytes h).mpr hp

theorem step (hst : s.Step t) (h : Grown d s) : Grown d t := by
  have hordered := h.ordered.leads hst.leads
  have hslot := slot_step hst h.ordered h.slot_eq
  have hkept : ∀ p, p.toNat < d.pageCount → (∀ reply ∈ t.past, ¬ reply.Releases p) →
      t.device.standing p = .live := by
    intro p hp hkeep
    obtain ⟨reply, hpast⟩ := hst.exists_reply
    apply live_step hst hkeep
    apply h.kept p hp
    intro reply' hm
    exact hkeep reply' (hpast ▸ List.mem_cons_of_mem _ hm)
  rcases step_cases hst with ⟨hbytes, hpast⟩ | ⟨p, x, hw, hpast⟩
  · have hcount : t.device.pageCount = s.device.pageCount := by
      rw [pageCount, hbytes]
      rfl
    constructor
    · exact hordered
    · exact hslot
    · rw [hcount]
      exact Nat.le_trans h.pages_le (size_le_leads hst.leads)
    · rw [hbytes]
      exact h.length_le
    · intro q
      rw [hpast, hcount]
      exact h.reaches q
    · exact hkept
  · obtain ⟨hp, hslots, hlength⟩ := of_write h.ordered hw
    have hcount := pageCount_write h.ordered hw
    constructor
    · exact hordered
    · exact hslot
    · rw [hcount, hslots]
      exact Nat.max_le.mpr ⟨h.pages_le, (h.ordered.known_iff p).mp hp⟩
    · rw [hlength]
      exact Nat.le_trans h.length_le (Nat.le_max_left ..)
    · intro q hq
      rw [hcount]
      rw [hpast, writtenEver] at hq
      split at hq
      · rename_i he
        rw [← he]
        exact Nat.lt_of_lt_of_le (Nat.lt_succ_self _) (Nat.le_max_right ..)
      · exact Nat.lt_of_lt_of_le (h.reaches q hq) (Nat.le_max_left ..)
    · exact hkept

theorem run (h : Grown d s) (calls : List DeviceCall) : Grown d (s.run calls) :=
  Served.run_induction (fun _ _ => step) h calls

theorem pageCount_lt (h : Grown d s) : s.device.pageCount < UInt32.size :=
  Nat.lt_of_le_of_lt h.pages_le h.ordered.size_lt

theorem of_saved (h : Grown d s) (hp : Saved d s p) :
    s.device.standing p = .live ∧ p.toNat < s.device.pageCount := by
  rcases hp with ⟨hlive, hwritten⟩ | ⟨hfirst, hkeep⟩
  · obtain ⟨bs, hbs⟩ := Option.ne_none_iff_exists'.mp hwritten
    have hever : writtenEver p s.past ≠ none := by simp [writtenEver_eq_some hbs]
    exact ⟨hlive, h.reaches p hever⟩
  · have hle : d.pageCount ≤ s.device.pageCount := Nat.div_le_div_right h.length_le
    exact ⟨h.kept p hfirst hkeep, Nat.lt_of_lt_of_le hfirst hle⟩

end Grown

/-- From `s` to `t` no page died, and the next `m` ids were handed out in order. -/
structure Appends (s : Served FileDisk) (m : Nat) (t : Served FileDisk) : Prop where
  ordered : t.device.Ordered
  freeSlots : t.device.freeSlots = []
  size : t.device.slots.size = s.device.slots.size + m
  allocations : allocations t.past = allocations s.past ++
    (List.range' s.device.slots.size m).map fun i => .ok (UInt32.ofNat i)

namespace Appends

theorem keep (h : s.device.Ordered) (hfree : s.device.freeSlots = [])
    (same : SameSlots s.device d') {reply : Reply} (hreply : reply.allocation? = none) :
    Appends s 0 ⟨d', reply :: s.past⟩ where
  ordered := (h.steady same.slots same.freeSlots).ok
  freeSlots := same.freeSlots.trans hfree
  size := congrArg _ same.slots
  allocations := by
    rw [allocations_cons, hreply]
    rfl

theorem trans (h : Appends s m t) (h' : Appends t n u) : Appends s (m + n) u where
  ordered := h'.ordered
  freeSlots := h'.freeSlots
  size := by
    rw [h'.size, h.size, Nat.add_assoc]
  allocations := by
    rw [h'.allocations, h.allocations, h.size, List.append_assoc, ← List.map_append,
      List.range'_append_1]

theorem allocate (h : s.device.Ordered) (hfree : s.device.freeSlots = [])
    (hroom : s.device.slots.size < PageId.invalid.toNat) : Appends s 1 (s.call .allocate) := by
  obtain ⟨d', ha, hsize, hrest, -⟩ := standing_allocate h hroom
  have ha' : Device.allocate s.device = (.ok s.device.nextId, d') := ha
  have hnext : s.device.nextId = UInt32.ofNat s.device.slots.size := by
    rw [nextId, hfree]
    rfl
  simp only [Served.call, ha']
  constructor
  · exact (Lawful.allocate_ok h trivial ha').1.ok
  · rw [hrest, hfree]
    rfl
  · rw [hsize, if_pos hfree]
  · rw [allocations_cons, hnext]
    rfl

theorem call (h : s.device.Ordered) (hfree : s.device.freeSlots = []) {c : DeviceCall}
    (hc : ∀ p, c ≠ .deallocate p)
    (hroom : s.device.slots.size + [c].count .allocate ≤ PageId.invalid.toNat) :
    Appends s ([c].count .allocate) (s.call c) := by
  cases c with
  | read p length =>
    rcases hr : Device.readBuffer p length s.device with ⟨answer, d'⟩
    simp only [Served.call, hr]
    exact keep h hfree (access_readBuffer hr).1 rfl
  | write p buffer =>
    rcases hw : Device.writeBuffer p buffer s.device with ⟨answer, d'⟩
    simp only [Served.call, hw]
    exact keep h hfree (access_writeBuffer hw).1 rfl
  | allocate => exact allocate h hfree hroom
  | deallocate p => exact absurd rfl (hc p)

theorem run (h : s.device.Ordered) (hfree : s.device.freeSlots = []) (calls : List DeviceCall)
    (hkeep : ∀ p, .deallocate p ∉ calls)
    (hroom : s.device.slots.size + calls.count .allocate ≤ PageId.invalid.toNat) :
    Appends s (calls.count .allocate) (s.run calls) := by
  induction calls generalizing s with
  | nil => exact ⟨h, hfree, rfl, (List.append_nil _).symm⟩
  | cons c calls ih =>
    have hcount : (c :: calls).count .allocate = [c].count .allocate + calls.count .allocate := by
      rw [← List.count_append, List.singleton_append]
    rw [hcount] at hroom ⊢
    have hcall := call h hfree (fun p he => hkeep p (he ▸ List.mem_cons_self))
      (Nat.le_trans (Nat.add_le_add_left (Nat.le_add_right ..) _) hroom)
    apply hcall.trans
    apply ih hcall.ordered hcall.freeSlots
    · exact fun p hp => hkeep p (List.mem_cons_of_mem _ hp)
    · rw [hcall.size, Nat.add_assoc]
      exact hroom

end Appends

theorem allocations_ofBytes {bytes : Bytes} (h : (ofBytes bytes).pageCount < UInt32.size)
    (calls : List DeviceCall) (hkeep : ∀ p, .deallocate p ∉ calls)
    (hroom : (ofBytes bytes).pageCount + calls.count .allocate ≤ PageId.invalid.toNat) :
    allocations (Served.run ⟨ofBytes bytes, []⟩ calls).past =
      (List.range' (ofBytes bytes).pageCount (calls.count .allocate)).map
        fun i => .ok (UInt32.ofNat i) := by
  have hsize : (ofBytes bytes).slots.size = (ofBytes bytes).pageCount := (slotsBelow_spec h).1
  rw [← hsize] at hroom ⊢
  exact (Appends.run (s := ⟨ofBytes bytes, []⟩) (ordered_ofBytes h) rfl calls hkeep
    hroom).allocations

theorem le_of_mem_ids (hroom : n + m ≤ PageId.invalid.toNat)
    (hp : (.ok p : Except DiskError PageId) ∈
      (List.range' n m).map fun i => .ok (UInt32.ofNat i)) : n ≤ p.toNat := by
  obtain ⟨i, hi, he⟩ := List.mem_map.mp hp
  cases he
  obtain ⟨hle, hlt⟩ := List.mem_range'_1.mp hi
  have hbound : i < UInt32.size := Nat.lt_of_lt_of_le hlt (Nat.le_trans hroom (by decide))
  rw [UInt32.toNat_ofNat_of_lt' hbound]
  exact hle

end FileDisk

open FileDisk

/-- Whatever file a disk was opened on and whatever was asked of it since, a disk that is opened on
the same file again takes the file as it is. The saved pages are live again and read as before. The
live pages are those that lie in the file, and the next ids follow on them. -/
theorem saved_pages_survive (place : Place) (d : FileDisk) (calls : List DeviceCall)
    (s : Served FileDisk) (hopen : FileDisk.openAt place = .ok d)
    (hlength : d.bytes.length < PageId.invalid.toNat * Page.size)
    (hs : s = Served.run ⟨d, []⟩ calls) :
    ∃ d', FileDisk.openAt (.file s.device.bytes) = .ok d' ∧ d'.bytes = s.device.bytes ∧
      (∀ p, Saved d s p → s.device.standing p = .live ∧ d'.standing p = .live ∧
        ∃ bs, bs = (writtenEver p s.past).getD (d.slot p).bytes ∧
          (Device.readBuffer p Page.size s.device).1 = .ok bs ∧
          (Device.readBuffer p Page.size d').1 = .ok bs) ∧
      (∀ p, d'.standing p = .live ↔ p.toNat < s.device.pageCount) ∧
      ∀ later : List DeviceCall, (∀ p, .deallocate p ∉ later) →
        s.device.pageCount + later.count .allocate ≤ PageId.invalid.toNat →
        allocations (Served.run ⟨d', []⟩ later).past =
            (List.range' s.device.pageCount (later.count .allocate)).map
              (fun i => .ok (UInt32.ofNat i)) ∧
          ∀ p, Saved d s p → .ok p ∉ allocations (Served.run ⟨d', []⟩ later).past := by
  have hgrown : Grown d s := by
    rw [hs, openAt_eq hopen]
    exact (Grown.ofBytes (pages_lt hlength)).run calls
  have hfit : (FileDisk.ofBytes s.device.bytes).pageCount < UInt32.size := hgrown.pageCount_lt
  have hagain : (FileDisk.ofBytes s.device.bytes).Ordered := ordered_ofBytes hfit
  refine ⟨FileDisk.ofBytes s.device.bytes, rfl, rfl, fun p hp => ?_,
    fun p => standing_ofBytes hfit, fun later hkeep hroom => ?_⟩
  · obtain ⟨hlive, hlt⟩ := hgrown.of_saved hp
    have hlive' := (standing_ofBytes (p := p) hfit).mpr hlt
    refine ⟨hlive, hlive', _, rfl, ?_, ?_⟩
    · rw [hgrown.ordered.readBuffer hlive, hgrown.slot_eq]
    · have hslot : (FileDisk.ofBytes s.device.bytes).slot p = s.device.slot p :=
        slot_eq_of_bytes rfl p
      rw [hagain.readBuffer hlive', hslot, hgrown.slot_eq]
  · have hids := allocations_ofBytes hfit later hkeep hroom
    refine ⟨hids, fun p hp hm => ?_⟩
    rw [hids] at hm
    exact Nat.not_lt.mpr (le_of_mem_ids hroom hm) (hgrown.of_saved hp).2

/-- A file of one page and a rest, in which page 2 is written and page 3 is not. Page 1 is released
and handed out again. -/
def gapped : Served FileDisk :=
  Served.run ⟨FileDisk.ofBytes (List.replicate 4100 7), []⟩
    [.allocate, .allocate, .allocate, .write 2 (List.replicate Page.size 9), .deallocate 1,
      .allocate]

theorem saved_pages_survive_behind_a_gap :
    (FileDisk.ofBytes (List.replicate 4100 7)).bytes.length < PageId.invalid.toNat * Page.size ∧
    gapped.device.standing 3 = .live ∧
    ∃ d', FileDisk.openAt (.file gapped.device.bytes) = .ok d' ∧ d'.standing 0 = .live ∧
      (∃ bs, (Device.readBuffer 2 Page.size d').1 = .ok bs ∧ bs.head? = some 9) ∧
      d'.standing 3 ≠ .live ∧
      allocations (Served.run ⟨d', []⟩ [.allocate, .read 3 Page.size, .allocate]).past =
        [.ok 3, .ok 4] := by
  have hlength : (FileDisk.ofBytes (List.replicate 4100 7)).bytes.length <
      PageId.invalid.toNat * Page.size := by
    decide +kernel
  have hcount : gapped.device.pageCount = 3 := by
    decide +kernel
  have hfirst : Saved (FileDisk.ofBytes (List.replicate 4100 7)) gapped 0 :=
    Or.inr ⟨by decide +kernel, by decide +kernel⟩
  have hwritten : Saved (FileDisk.ofBytes (List.replicate 4100 7)) gapped 2 :=
    Or.inl ⟨by decide +kernel, by decide +kernel⟩
  have hhead : ((writtenEver 2 gapped.past).getD
      ((FileDisk.ofBytes (List.replicate 4100 7)).slot 2).bytes).head? = some 9 := by
    decide +kernel
  obtain ⟨d', hopen, -, hsaved, hlive, hids⟩ :=
    saved_pages_survive (.file (List.replicate 4100 7)) _ _ gapped rfl hlength rfl
  obtain ⟨-, -, bs, hbs, -, hread⟩ := hsaved 2 hwritten
  refine ⟨hlength, by decide +kernel, d', hopen, (hsaved 0 hfirst).2.1, ?_, ?_, ?_⟩
  · exact ⟨bs, hread, hbs ▸ hhead⟩
  · rw [Ne, hlive, hcount]
    decide
  · rw [(hids [.allocate, .read 3 Page.size, .allocate] (by simp) (by rw [hcount]; decide)).1,
      hcount]
    rfl

end BufferPool
