import BufferPool.Proofs.Disk.Ids
import BufferPool.Proofs.Disk.Reopened
import BufferPool.Proofs.Disk.Service

/-! # Disks that manage their ids alike

A memory disk and a file disk that start empty answer the same calls alike, but
for the bytes that they read. They hand out the same ids, and they refuse a call
for the same reason, which can be told from the replies that came before.
-/

namespace BufferPool

/-- What became of an id so far. -/
inductive Standing where
  | unknown
  | live
  | dead
  deriving DecidableEq

def Standing.reach (p : PageId) : Standing → Except DiskError Unit
  | unknown => .error (.notAllocated p)
  | live => .ok ()
  | dead => .error (.deallocated p)

def Standing.access (p : PageId) (length : Nat) (standing : Standing) : Except DiskError Unit :=
  if length ≠ Page.size then .error (.bufferSize length)
  else if p = PageId.invalid then .error .invalidPageId
  else standing.reach p

namespace Reply

def hideBytes : Reply → Reply
  | read p length answer => read p length (answer.map fun _ => [])
  | reply => reply

/-- What the replies tell of an id. The latest reply comes first. -/
def standing (p : PageId) : List Reply → Standing
  | [] => .unknown
  | allocate (.ok q) :: past => if p = q then .live else standing p past
  | deallocate q (.ok ()) :: past =>
    if p = q ∧ standing p past = .live then .dead else standing p past
  | _ :: past => standing p past

/-- The reply is the one to give after those that came before, whatever bytes were read and
whichever id was handed out. -/
def Due (past : List Reply) : Reply → Prop
  | read p length answer => (answer.map fun _ => ()) = (standing p past).access p length
  | write p buffer answer => answer = (standing p past).access p buffer.length
  | allocate answer => ∃ p, answer = .ok p
  | deallocate _ answer => answer = .ok ()

def AllDue : List Reply → Prop
  | [] => True
  | reply :: past => reply.Due past ∧ AllDue past

variable {p : PageId} {past : List Reply}

theorem standing_hideBytes : standing p (past.map hideBytes) = standing p past := by
  induction past with
  | nil => rfl
  | cons reply past ih =>
    cases reply with
    | read | write => exact ih
    | allocate answer =>
      rcases answer with e | q
      · exact ih
      · simp only [List.map_cons, hideBytes, standing, ih]
    | deallocate q answer =>
      rcases answer with e | _
      · exact ih
      · simp only [List.map_cons, hideBytes, standing, ih]

theorem due_hideBytes {reply : Reply} :
    reply.hideBytes.Due (past.map hideBytes) ↔ reply.Due past := by
  cases reply with
  | read p length answer =>
    simp only [hideBytes, Due, standing_hideBytes]
    cases answer <;> rfl
  | write => simp only [hideBytes, Due, standing_hideBytes]
  | allocate | deallocate => rfl

theorem allDue_hideBytes : AllDue (past.map hideBytes) ↔ AllDue past := by
  induction past with
  | nil => rfl
  | cons reply past ih => exact and_congr due_hideBytes ih

end Reply

namespace MemoryDisk

variable {d d' : MemoryDisk} {p q : PageId} {x : Page}

/-- What the disk knows of an id. -/
def standing (d : MemoryDisk) (p : PageId) : Standing :=
  if d.isAllocated p then .live else if p < d.next then .dead else .unknown

theorem standing_eq_live_iff : d.standing p = .live ↔ d.isAllocated p = true := by
  unfold standing
  split
  · simp_all
  · split <;> simp_all

theorem SameIds.standing (h : SameIds d d') : d'.standing p = d.standing p := by
  rw [MemoryDisk.standing, h.isAllocated, h.next]
  rfl

theorem answer_read : ((read p d).1.map fun _ => ()) =
    if p = PageId.invalid then .error .invalidPageId else (d.standing p).reach p := by
  unfold read
  split
  · rfl
  · rcases hx : d.pages[p]? with _ | x
    · have ha : d.isAllocated p = false := isAllocated_eq_false_iff.mpr hx
      simp only [standing, ha, missing]
      split <;> rfl
    · have ha : d.isAllocated p = true := by rw [isAllocated_eq_isSome, snapshot, hx]; rfl
      rw [standing_eq_live_iff.mpr ha]
      rfl

theorem answer_write : (write p x d).1 =
    if p = PageId.invalid then .error .invalidPageId else (d.standing p).reach p := by
  unfold write
  split
  · rfl
  · split
    · rename_i ha
      rw [standing_eq_live_iff.mpr ha]
      rfl
    · rename_i ha
      simp only [standing, ha, missing]
      split <;> rfl

theorem standing_allocate (hroom : d.next ≠ PageId.invalid) :
    ∃ d', allocate d = (.ok d.nextId, d') ∧
      d'.next = (if d.freeIds = [] then d.next + 1 else d.next) ∧ d'.freeIds = d.freeIds.tail ∧
      ∀ q, d'.standing q = if q = d.nextId then .live else d.standing q := by
  obtain ⟨d', ha, hnext, hfree, hallocated⟩ := exists_allocate hroom
  refine ⟨d', ha, hnext, hfree, fun q => ?_⟩
  by_cases hq : q = d.nextId
  · rw [if_pos hq, standing_eq_live_iff, hallocated, if_pos hq]
  · have hlt : q < d'.next ↔ q < d.next := by
      rw [hnext]
      split
      · rename_i hf
        rw [nextId, hf, List.headD_nil, ← UInt32.toNat_inj] at hq
        rw [UInt32.lt_iff_toNat_lt, UInt32.lt_iff_toNat_lt, toNat_add_one hroom]
        omega
      · rfl
    simp only [if_neg hq, standing, hallocated, hlt]

theorem standing_deallocate {r : Except DiskError Unit} (hd : d.Ordered)
    (h : deallocate p d = (r, d')) :
    d'.standing q = if q = p ∧ d.standing q = .live then .dead else d.standing q := by
  obtain ⟨-, hr⟩ := releases_of_deallocate hd h
  by_cases hq : q = p ∧ d.standing q = .live
  · obtain ⟨rfl, hlive⟩ := hq
    have hlt := hd.lt_next_of_isAllocated (standing_eq_live_iff.mp hlive)
    have ha : d'.isAllocated q = false := by
      rw [← Bool.not_eq_true, hr.isAllocated_iff]
      simp
    rw [if_pos ⟨rfl, hlive⟩, standing, ha, hr.next, if_pos hlt]
    rfl
  · have ha : d'.isAllocated q = d.isAllocated q := by
      rw [Bool.eq_iff_iff, hr.isAllocated_iff, List.mem_singleton, ← standing_eq_live_iff]
      tauto
    rw [if_neg hq, standing, ha, hr.next]
    rfl

end MemoryDisk

namespace FileDisk

variable {d d' : FileDisk} {p q : PageId} {x : Page}

/-- What the disk knows of an id. -/
def standing (d : FileDisk) (p : PageId) : Standing :=
  match d.slots[p]? with
  | some (some _) => .live
  | some none => .dead
  | none => .unknown

theorem standing_eq_live_iff : d.standing p = .live ↔ ∃ o, d.slots[p]? = some (some o) := by
  unfold standing
  rcases d.slots[p]? with _ | _ | o <;> simp

theorem isSome_stored_iff : (d.stored p).isSome = true ↔ d.standing p = .live := by
  unfold standing stored
  rcases d.slots[p]? with _ | _ | o <;> simp

def nextId (d : FileDisk) : PageId :=
  (d.freeSlots.map Prod.fst).headD (UInt32.ofNat d.slots.size)

/-- From `d` to `d'` no slot has changed. -/
structure SameSlots (d d' : FileDisk) : Prop where
  slots : d'.slots = d.slots
  freeSlots : d'.freeSlots = d.freeSlots

theorem SameSlots.refl (d : FileDisk) : SameSlots d d := ⟨rfl, rfl⟩

theorem SameSlots.standing (h : SameSlots d d') : d'.standing p = d.standing p := by
  rw [FileDisk.standing, h.slots]
  rfl

theorem standing_insert {s : Option Nat} (slots : d'.slots = d.slots.insert p s) :
    d'.standing q = if q = p then (if s.isSome then .live else .dead) else d.standing q := by
  rw [standing, getElem?_slots_insert slots]
  by_cases hq : p = q
  · rw [if_pos hq, if_pos hq.symm]
    cases s <;> rfl
  · rw [if_neg hq, if_neg (Ne.symm hq)]
    rfl

theorem locate_eq : ((d.locate p).map fun _ => ()) =
    if p = PageId.invalid then .error .invalidPageId else (d.standing p).reach p := by
  unfold locate standing
  split
  · rfl
  · rcases d.slots[p]? with _ | _ | o <;> rfl

theorem answer_read : ((read p d).1.map fun _ => ()) =
    if p = PageId.invalid then .error .invalidPageId else (d.standing p).reach p := by
  rw [← locate_eq, read]
  split
  · rename_i o ho
    rw [ho]
    rfl
  · rename_i e he
    rw [he]
    rfl

theorem answer_write : (write p x d).1 =
    if p = PageId.invalid then .error .invalidPageId else (d.standing p).reach p := by
  rw [← locate_eq, write]
  split
  · rename_i o ho
    rw [ho]
    rfl
  · rename_i e he
    rw [he]
    rfl

theorem sameSlots_read {r : Except DiskError Page} (h : read p d = (r, d')) : SameSlots d d' := by
  unfold read at h
  split at h <;> cases h <;> exact ⟨rfl, rfl⟩

theorem sameSlots_write {r : Except DiskError Unit} (h : write p x d = (r, d')) :
    SameSlots d d' := by
  unfold write at h
  split at h <;> cases h <;> exact ⟨rfl, rfl⟩

theorem size_insert_of_mem {s : Option Nat} (hp : p ∈ d.slots) :
    (d.slots.insert p s).size = d.slots.size := by
  rw [Std.ExtTreeMap.size_insert, if_pos (Std.ExtTreeMap.contains_iff_mem.mpr hp)]

theorem standing_allocate (hd : d.Ordered) (hroom : d.slots.size < PageId.invalid.toNat) :
    ∃ d', allocate d = (.ok d.nextId, d') ∧
      d'.slots.size = (if d.freeSlots = [] then d.slots.size + 1 else d.slots.size) ∧
      d'.freeSlots = d.freeSlots.tail ∧
      ∀ q, d'.standing q = if q = d.nextId then .live else d.standing q := by
  rcases hf : d.freeSlots with _ | ⟨⟨p, o⟩, rest⟩
  · have hv : UInt32.ofNat d.slots.size ≠ PageId.invalid := by
      rintro hv
      have hn := hd.toNat_size
      rw [hv] at hn
      exact Nat.ne_of_gt hroom hn
    let p := UInt32.ofNat d.slots.size
    refine ⟨{ d with slots := d.slots.insert p (some (offset p)) }, ?_, ?_, hf, fun q => ?_⟩
    · simp only [allocate, hf, if_neg hv, nextId, List.map_nil, List.headD_nil, p]
    · rw [if_pos rfl, Std.ExtTreeMap.size_insert,
        if_neg (mt Std.ExtTreeMap.contains_iff_mem.mp hd.size_not_mem)]
    · rw [standing_insert rfl, nextId, hf]
      rfl
  · have hdead := (hd.free_dead (p, o) (hf ▸ List.mem_cons_self)).1
    refine ⟨{ d with slots := d.slots.insert p (some o), freeSlots := rest }, ?_, ?_, rfl,
      fun q => ?_⟩
    · simp only [allocate, hf, nextId, List.map_cons, List.headD_cons]
    · rw [if_neg (List.cons_ne_nil _ _)]
      exact size_insert_of_mem (mem_slots hdead)
    · rw [standing_insert rfl, nextId, hf]
      rfl

theorem standing_deallocate {r : Except DiskError Unit} (h : deallocate p d = (r, d')) :
    r = .ok () ∧ d'.slots.size = d.slots.size ∧
      d'.freeSlots.map Prod.fst = (if d.standing p = .live then d.freeSlots.map Prod.fst ++ [p]
        else d.freeSlots.map Prod.fst) ∧
      ∀ q, d'.standing q = if q = p ∧ d.standing q = .live then .dead else d.standing q := by
  unfold deallocate at h
  split at h
  · rename_i o ho
    have hlive : d.standing p = .live := by rw [standing, ho]
    cases h
    refine ⟨rfl, size_insert_of_mem (mem_slots ho), ?_, fun q => ?_⟩
    · rw [if_pos hlive, List.map_append]
      rfl
    · rw [standing_insert rfl]
      by_cases hq : q = p
      · rw [if_pos hq]
        exact (if_pos ⟨hq, hq ▸ hlive⟩).symm
      · rw [if_neg hq]
        exact (if_neg fun h => hq h.1).symm
  · rename_i hdead
    have hlive : d.standing p ≠ .live := by
      unfold standing
      split
      · exact absurd ‹_› (hdead _)
      · simp
      · simp
    cases h
    refine ⟨rfl, rfl, (if_neg hlive).symm, fun q => (if_neg ?_).symm⟩
    rintro ⟨rfl, hq⟩
    exact hlive hq

end FileDisk

namespace Device

variable {δ : Type} [Device δ] {d d' : δ} {p : PageId} {standing : Standing} {P : δ → Prop}

theorem access_read {length : Nat} {answer : Except DiskError Bytes} (hd : P d)
    (hread : P (read p d).2 ∧ ((read p d).1.map fun _ => ()) =
      if p = PageId.invalid then .error .invalidPageId else standing.reach p)
    (h : readBuffer p length d = (answer, d')) :
    P d' ∧ (answer.map fun _ => ()) = standing.access p length := by
  unfold readBuffer at h
  split at h
  · rename_i hl
    rcases hr : read p d with ⟨r, d''⟩
    rw [hr] at hread h
    cases h
    rw [Standing.access, if_neg (not_not.mpr hl), ← hread.2]
    exact ⟨hread.1, by cases r <;> rfl⟩
  · rename_i hl
    cases h
    exact ⟨hd, (if_pos hl).symm⟩

theorem access_write {buffer : Bytes} {answer : Except DiskError Unit} (hd : P d)
    (hwrite : ∀ x, P (write p x d).2 ∧ (write p x d).1 =
      if p = PageId.invalid then .error .invalidPageId else standing.reach p)
    (h : writeBuffer p buffer d = (answer, d')) :
    P d' ∧ answer = standing.access p buffer.length := by
  unfold writeBuffer at h
  split at h
  · rename_i x hx
    obtain rfl := Page.ofBytes?_eq_some_iff.mp hx
    obtain ⟨hd', ha⟩ := hwrite x
    rw [h] at hd' ha
    rw [Standing.access, if_neg (not_not.mpr x.length_bytes)]
    exact ⟨hd', ha⟩
  · rename_i hx
    cases h
    exact ⟨hd, (if_pos (Page.ofBytes?_eq_none_iff.mp hx)).symm⟩

end Device

namespace FileDisk

variable {d d' : FileDisk} {p : PageId}

theorem access_readBuffer {length : Nat} {answer : Except DiskError Bytes}
    (h : Device.readBuffer p length d = (answer, d')) :
    SameSlots d d' ∧ (answer.map fun _ => ()) = (d.standing p).access p length :=
  Device.access_read (P := SameSlots d) (.refl d) ⟨sameSlots_read rfl, answer_read⟩ h

theorem access_writeBuffer {buffer : Bytes} {answer : Except DiskError Unit}
    (h : Device.writeBuffer p buffer d = (answer, d')) :
    SameSlots d d' ∧ answer = (d.standing p).access p buffer.length :=
  Device.access_write (P := SameSlots d) (.refl d) (fun _ => ⟨sameSlots_write rfl, answer_write⟩) h

end FileDisk

open Reply

/-- The disks know the same of every id, which is what the replies tell of it, and they hand out the
same ids next. They have given the same replies, each the one to give. -/
structure Alike (m : Served MemoryDisk) (f : Served FileDisk) : Prop where
  memory : m.device.Ordered
  file : f.device.Ordered
  next : m.device.next.toNat = f.device.slots.size
  freeIds : m.device.freeIds = f.device.freeSlots.map Prod.fst
  standing : ∀ p, m.device.standing p = f.device.standing p
  told : ∀ p, f.device.standing p = Reply.standing p f.past
  past : m.past.map hideBytes = f.past.map hideBytes
  due : AllDue f.past

namespace Alike

variable {m : Served MemoryDisk} {f : Served FileDisk} {m' : MemoryDisk} {f' : FileDisk}
  {reply reply' : Reply}

theorem empty : Alike ⟨MemoryDisk.empty, []⟩ ⟨FileDisk.ofBytes [], []⟩ where
  memory := MemoryDisk.ordered_empty
  file := FileDisk.ordered_ofBytes (by decide)
  next := rfl
  freeIds := rfl
  standing p := by
    rw [MemoryDisk.standing, FileDisk.standing]
    simp [MemoryDisk.empty, MemoryDisk.isAllocated, FileDisk.ofBytes, FileDisk.slotsBelow]
  told p := by
    rw [FileDisk.standing]
    simp [FileDisk.ofBytes, FileDisk.slotsBelow, Reply.standing]
  past := rfl
  due := trivial

theorem keep (h : Alike m f) (hm : MemoryDisk.SameIds m.device m')
    (hf : FileDisk.SameSlots f.device f')
    (inert : ∀ p, Reply.standing p (reply' :: f.past) = Reply.standing p f.past)
    (same : reply.hideBytes = reply'.hideBytes) (due : reply'.Due f.past) :
    Alike ⟨m', reply :: m.past⟩ ⟨f', reply' :: f.past⟩ where
  memory := hm.ordered h.memory
  file := (h.file.steady hf.slots hf.freeSlots).ok
  next := by
    rw [hm.next, hf.slots]
    exact h.next
  freeIds := by
    rw [hm.freeIds, hf.freeSlots]
    exact h.freeIds
  standing p := by
    rw [hm.standing, hf.standing]
    exact h.standing p
  told p := by
    rw [hf.standing, inert]
    exact h.told p
  past := congrArg₂ List.cons same h.past
  due := ⟨due, h.due⟩

theorem read (h : Alike m f) (p : PageId) (length : Nat) :
    Alike (m.call (.read p length)) (f.call (.read p length)) := by
  rcases hm : Device.readBuffer p length m.device with ⟨answer, m'⟩
  rcases hf : Device.readBuffer p length f.device with ⟨answer', f'⟩
  obtain ⟨hids, ha⟩ := Device.access_read (P := MemoryDisk.SameIds m.device) (.refl _)
    ⟨MemoryDisk.sameIds_read rfl, MemoryDisk.answer_read⟩ hm
  obtain ⟨hslots, ha'⟩ := FileDisk.access_readBuffer hf
  simp only [Served.call, hm, hf]
  refine h.keep hids hslots (fun _ => rfl) (congrArg (Reply.read p length) ?_) ?_
  · rw [h.standing, ← ha'] at ha
    rcases answer with e | bs <;> rcases answer' with e' | bs' <;> cases ha <;> rfl
  · rw [Due, ha', h.told]

theorem write (h : Alike m f) (p : PageId) (buffer : Bytes) :
    Alike (m.call (.write p buffer)) (f.call (.write p buffer)) := by
  rcases hm : Device.writeBuffer p buffer m.device with ⟨answer, m'⟩
  rcases hf : Device.writeBuffer p buffer f.device with ⟨answer', f'⟩
  obtain ⟨hids, ha⟩ := Device.access_write (P := MemoryDisk.SameIds m.device) (.refl _)
    (fun _ => ⟨MemoryDisk.sameIds_write rfl, MemoryDisk.answer_write⟩) hm
  obtain ⟨hslots, ha'⟩ := FileDisk.access_writeBuffer hf
  simp only [Served.call, hm, hf]
  refine h.keep hids hslots (fun _ => rfl) (congrArg (Reply.write p buffer) ?_) ?_
  · rw [ha, ha', h.standing]
  · rw [Due, ha', h.told]

theorem nextId (h : Alike m f) : m.device.nextId = f.device.nextId := by
  rw [MemoryDisk.nextId, FileDisk.nextId, h.freeIds, ← h.next, UInt32.ofNat_toNat]

theorem allocate (h : Alike m f) (hroom : f.device.slots.size < PageId.invalid.toNat) :
    Alike (m.call .allocate) (f.call .allocate) := by
  have hnext : m.device.next ≠ PageId.invalid := by
    intro hn
    rw [← h.next, hn] at hroom
    exact Nat.lt_irrefl _ hroom
  obtain ⟨m', hm, hmnext, hmfree, hmstanding⟩ := MemoryDisk.standing_allocate hnext
  obtain ⟨f', hf, hfsize, hffree, hfstanding⟩ := FileDisk.standing_allocate h.file hroom
  have hempty : m.device.freeIds = [] ↔ f.device.freeSlots = [] := by
    rw [h.freeIds, List.map_eq_nil_iff]
  have hm' : Device.allocate m.device = (.ok m.device.nextId, m') := hm
  have hf' : Device.allocate f.device = (.ok f.device.nextId, f') := hf
  simp only [Served.call, hm', hf']
  constructor
  · exact (MemoryDisk.handsOut_of_allocate h.memory hm).1.ordered
  · exact (Lawful.allocate_ok h.file trivial hf').1.ok
  · simp only [hmnext, hfsize, hempty]
    split
    · rw [MemoryDisk.toNat_add_one hnext, h.next]
    · exact h.next
  · rw [hmfree, hffree, h.freeIds, List.map_tail]
  · intro p
    rw [hmstanding, hfstanding, h.nextId, h.standing]
  · intro p
    rw [hfstanding, h.told, Reply.standing]
  · rw [h.nextId]
    exact congrArg (List.cons _) h.past
  · exact ⟨⟨_, rfl⟩, h.due⟩

theorem deallocate (h : Alike m f) (p : PageId) :
    Alike (m.call (.deallocate p)) (f.call (.deallocate p)) := by
  rcases hm : Device.deallocate p m.device with ⟨r, m'⟩
  rcases hf : Device.deallocate p f.device with ⟨r', f'⟩
  obtain ⟨rfl, hmnext, hmfree⟩ := MemoryDisk.deallocate_books hm
  obtain ⟨rfl, hfsize, hffree, hfstanding⟩ := FileDisk.standing_deallocate hf
  have hlive : m.device.isAllocated p = true ↔ f.device.standing p = .live := by
    rw [← MemoryDisk.standing_eq_live_iff, h.standing]
  simp only [Served.call, hm, hf]
  constructor
  · exact (MemoryDisk.releases_of_deallocate h.memory hm).2.ordered
  · exact (Lawful.deallocate_ok h.file hf).1.ok
  · rw [hmnext, hfsize]
    exact h.next
  · simp only [hmfree, hffree, hlive, h.freeIds]
  · intro q
    rw [MemoryDisk.standing_deallocate h.memory hm, hfstanding, h.standing]
  · intro q
    rw [hfstanding, h.told, Reply.standing]
  · exact congrArg (List.cons _) h.past
  · exact ⟨rfl, h.due⟩

theorem call (h : Alike m f) (hroom : f.device.slots.size < PageId.invalid.toNat)
    (c : DeviceCall) : Alike (m.call c) (f.call c) := by
  cases c with
  | read p length => exact h.read p length
  | write p buffer => exact h.write p buffer
  | allocate => exact h.allocate hroom
  | deallocate p => exact h.deallocate p

theorem size_le_run (f : Served FileDisk) (calls : List DeviceCall) :
    f.device.slots.size ≤ (f.run calls).device.slots.size :=
  FileDisk.size_le_leads (Served.leads_run f calls)

theorem run (h : Alike m f) (calls : List DeviceCall)
    (hroom : (f.run calls).device.slots.size < PageId.invalid.toNat) :
    Alike (m.run calls) (f.run calls) := by
  induction calls generalizing m f with
  | nil => exact h
  | cons c calls ih =>
    exact ih (h.call (Nat.lt_of_le_of_lt (size_le_run f (c :: calls)) hroom) c) hroom

end Alike

/-- A new memory disk and a file disk on an empty file give the same replies to the same calls, but
for the bytes that they read, as long as they have not handed out all ids. An id is always handed
out, a release always succeeds, and a refusal tells of the length of the buffer first, then of the
invalid id, and then of what became of the page. -/
theorem disks_alike (calls : List DeviceCall) (m : Served MemoryDisk) (f : Served FileDisk)
    (hm : m = Served.run ⟨MemoryDisk.empty, []⟩ calls)
    (hf : f = Served.run ⟨FileDisk.ofBytes [], []⟩ calls)
    (hroom : f.device.slots.size < PageId.invalid.toNat) :
    m.past.map hideBytes = f.past.map hideBytes ∧ AllDue m.past ∧ AllDue f.past := by
  subst hm hf
  have h := Alike.empty.run calls hroom
  refine ⟨h.past, ?_, h.due⟩
  rw [← allDue_hideBytes, h.past, allDue_hideBytes]
  exact h.due

def comingAndGoing : List DeviceCall :=
  [.read 0 Page.size, .allocate, .allocate, .write 1 [7], .read PageId.invalid 0,
    .write PageId.invalid Page.zero.bytes, .deallocate 0, .deallocate 0, .deallocate 5,
    .read 0 Page.size, .allocate, .write 0 Page.zero.bytes, .allocate, .read 2 Page.size]

theorem disks_alike_coming_and_going :
    (Served.run ⟨FileDisk.ofBytes [], []⟩ comingAndGoing).device.slots.size <
        PageId.invalid.toNat ∧
      (Served.run ⟨MemoryDisk.empty, []⟩ comingAndGoing).past.map hideBytes =
        (Served.run ⟨FileDisk.ofBytes [], []⟩ comingAndGoing).past.map hideBytes := by
  have hroom : (Served.run ⟨FileDisk.ofBytes [], []⟩ comingAndGoing).device.slots.size <
      PageId.invalid.toNat := by
    decide +kernel
  exact ⟨hroom, (disks_alike comingAndGoing _ _ rfl rfl hroom).1⟩

end BufferPool
