import BufferPool.Proofs.Disk.File
import BufferPool.Proofs.Disk.Requests

/-! # Reopening a file

A file that grew from nothing has whole pages only. A disk that is opened on it
has every page that lies before its end, and hands out none of them.
-/

namespace BufferPool.FileDisk

open Device (Leads Writes)

variable {d d' : FileDisk} {p : PageId} {x : Page}

/-- The file has whole pages, and no more than were handed out. -/
structure Whole (d : FileDisk) : Prop where
  ordered : d.Ordered
  length_le : d.bytes.length ≤ d.slots.size * Page.size
  dvd : Page.size ∣ d.bytes.length

def InFile (d : FileDisk) (p : PageId) : Prop := offset p < d.bytes.length

instance (d : FileDisk) (p : PageId) : Decidable (d.InFile p) :=
  inferInstanceAs (Decidable (offset p < d.bytes.length))

theorem Ordered.ne_invalid (h : d.Ordered) (hp : p ∈ d.slots) : p ≠ PageId.invalid := by
  rintro rfl
  have hlt := (h.known_iff _).mp hp
  have hsize := h.size_lt
  rw [show (PageId.invalid).toNat = 4294967295 from rfl] at hlt
  unfold UInt32.size at hsize
  omega

theorem Ordered.isMissing_of_locate (h : d.Ordered) (hp : p ∈ d.slots) {e : DiskError}
    (he : d.locate p = .error e) : e.isMissing = true := by
  unfold locate at he
  rw [if_neg (h.ne_invalid hp)] at he
  split at he <;> cases he <;> rfl

theorem Ordered.locate_of_stored (h : d.Ordered) (hp : d.stored p = some x) :
    d.locate p = .ok (offset p) := by
  obtain ⟨o, ho, -⟩ := stored_eq_some_iff.mp hp
  rw [locate, if_neg (h.ne_invalid (mem_slots ho)), ho, h.home p o ho]

theorem of_write (h : d.Ordered) (hw : write p x d = (.ok (), d')) : p ∈ d.slots ∧
    d'.slots = d.slots ∧ d'.bytes.length = max d.bytes.length (offset p + Page.size) := by
  unfold write at hw
  split at hw <;> cases hw
  rename_i o ho
  have hp := locate_eq_ok ho
  refine ⟨mem_slots hp, rfl, ?_⟩
  rw [Bytes.length_overlay, x.length_bytes, h.home p o hp]

theorem slots_write {r : Except DiskError Unit} (hw : write p x d = (r, d')) :
    d'.slots = d.slots := by
  unfold write at hw
  split at hw <;> cases hw <;> rfl

theorem slots_read {r : Except DiskError Page} (hr : read p d = (r, d')) : d'.slots = d.slots := by
  unfold read at hr
  split at hr <;> cases hr <;> rfl

theorem size_le_allocate {r : Except DiskError PageId} (ha : allocate d = (r, d')) :
    d.slots.size ≤ d'.slots.size := by
  cases allocates ha with
  | recycled | fresh => exact Std.ExtTreeMap.size_le_size_insert
  | exhausted => exact Nat.le_refl _

theorem size_le_deallocate {r : Except DiskError Unit} (hd : deallocate p d = (r, d')) :
    d.slots.size ≤ d'.slots.size := by
  cases deallocates hd with
  | released => exact Std.ExtTreeMap.size_le_size_insert
  | absent => exact Nat.le_refl _

theorem size_le_request (hr : Device.Request d d') : d.slots.size ≤ d'.slots.size := by
  cases hr with
  | read hr => exact Nat.le_of_eq (congrArg _ (slots_read hr).symm)
  | write hw => exact Nat.le_of_eq (congrArg _ (slots_write hw).symm)
  | allocate ha => exact size_le_allocate ha
  | deallocate hd => exact size_le_deallocate hd

theorem size_le_leads (hl : Leads d d') : d.slots.size ≤ d'.slots.size := by
  induction hl with
  | refl => exact Nat.le_refl _
  | tail _ hr ih => exact Nat.le_trans ih (size_le_request hr)

/-- A request leaves the file as it is, unless it is a write that succeeds. -/
theorem request_cases (hr : Device.Request d d') :
    d'.bytes = d.bytes ∨ ∃ p x, write p x d = (.ok (), d') := by
  cases hr with
  | read hr => exact Or.inl (bytes_read hr)
  | @write p x r hw =>
    rcases r with e | _
    · exact Or.inl (bytes_write_error hw)
    · exact Or.inr ⟨p, x, hw⟩
  | allocate ha => exact Or.inl (bytes_allocate ha)
  | deallocate hd => exact Or.inl (bytes_deallocate hd)

theorem inFile_write (h : d.Ordered) (hw : write p x d = (.ok (), d')) : d'.InFile p := by
  obtain ⟨-, -, hlength⟩ := of_write h hw
  rw [InFile, hlength]
  exact Nat.lt_of_lt_of_le (Nat.lt_add_of_pos_right (by decide)) (Nat.le_max_right ..)

theorem InFile.mono (h : d.InFile p) (hle : d.bytes.length ≤ d'.bytes.length) : d'.InFile p :=
  Nat.lt_of_lt_of_le h hle

namespace Whole

theorem ofBytes_nil : (ofBytes []).Whole :=
  ⟨ordered_ofBytes (by decide), by simp [ofBytes], by simp [ofBytes]⟩

theorem keep (h : d.Whole) (ordered : d'.Ordered) (bytes : d'.bytes = d.bytes)
    (slots : d.slots.size ≤ d'.slots.size) : d'.Whole ∧ d.bytes.length ≤ d'.bytes.length := by
  constructor
  · constructor
    · exact ordered
    · rw [bytes]
      exact Nat.le_trans h.length_le (Nat.mul_le_mul_right _ slots)
    · exact bytes ▸ h.dvd
  · exact Nat.le_of_eq (congrArg List.length bytes.symm)

theorem write (h : d.Whole) (ordered : d'.Ordered) (hw : FileDisk.write p x d = (.ok (), d')) :
    d'.Whole ∧ d.bytes.length ≤ d'.bytes.length := by
  obtain ⟨hp, hslots, hlength⟩ := of_write h.ordered hw
  have hend : offset p + Page.size ≤ d.slots.size * Page.size := by
    rw [offset, ← Nat.succ_mul]
    exact Nat.mul_le_mul_right _ ((h.ordered.known_iff p).mp hp)
  constructor
  · constructor
    · exact ordered
    · rw [hlength, hslots]
      exact Nat.max_le.mpr ⟨h.length_le, hend⟩
    · rw [hlength, Nat.max_def]
      split
      · exact Nat.dvd_add (Nat.dvd_mul_left ..) (Nat.dvd_refl _)
      · exact h.dvd
  · rw [hlength]
    exact Nat.le_max_left ..

theorem request (h : d.Whole) (hr : Device.Request d d') :
    d'.Whole ∧ d.bytes.length ≤ d'.bytes.length := by
  have hok : d'.Ordered := hr.ok h.ordered trivial
  rcases request_cases hr with hbytes | ⟨p, x, hw⟩
  · exact h.keep hok hbytes (size_le_request hr)
  · exact h.write hok hw

theorem leads (h : d.Whole) (hl : Leads d d') : d'.Whole ∧ d.bytes.length ≤ d'.bytes.length := by
  induction hl with
  | refl => exact ⟨h, Nat.le_refl _⟩
  | tail _ hr ih =>
    obtain ⟨hw, hle⟩ := ih
    obtain ⟨hw', hle'⟩ := hw.request hr
    exact ⟨hw', Nat.le_trans hle hle'⟩

theorem inFile_of_writes (h : d.Whole) (hw : Writes p d d') : d'.InFile p := by
  obtain ⟨d₁, d₂, x, hl, hw, hl'⟩ := hw
  have h₁ := (h.leads hl).1
  have h₂ := (h₁.request (.write hw)).1
  exact (inFile_write h₁.ordered hw).mono (h₂.leads hl').2

theorem length_div_lt (h : d.Whole) : d.bytes.length / Page.size < UInt32.size :=
  Nat.lt_of_le_of_lt (Nat.div_le_of_le_mul (Nat.mul_comm .. ▸ h.length_le)) h.ordered.size_lt

theorem stored_ofBytes (h : d.Whole) (hp : d.InFile p) :
    (ofBytes d.bytes).stored p = some (d.slot p) := by
  obtain ⟨m, hm⟩ := h.dvd
  have hlt : p.toNat < d.bytes.length / Page.size := by
    unfold InFile offset at hp
    rw [hm, Nat.mul_comm p.toNat] at hp
    rw [hm, Nat.mul_div_cancel_left _ (by decide)]
    exact Nat.lt_of_mul_lt_mul_left hp
  refine stored_eq_some_iff.mpr ⟨offset p, ?_, rfl⟩
  rw [ofBytes, (slotsBelow_spec h.length_div_lt).2 p, if_pos hlt]

theorem ofBytes (h : d.Whole) : (ofBytes d.bytes).Whole := by
  refine ⟨ordered_ofBytes h.length_div_lt, ?_, h.dvd⟩
  rw [FileDisk.ofBytes, (slotsBelow_spec h.length_div_lt).1]
  exact Nat.le_of_eq (Nat.div_mul_cancel h.dvd).symm

end Whole

end BufferPool.FileDisk
