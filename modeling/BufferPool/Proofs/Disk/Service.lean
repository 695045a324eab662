import BufferPool.Proofs.Disk.File
import BufferPool.Proofs.Disk.Memory
import BufferPool.Proofs.Disk.Requests

/-! # Devices in service

A device answers calls with any page ids and buffers of any length, and all
its replies are kept. A memory disk reads back what was written to a page since
it was allocated. A file disk reads back what was last written in the page's
place, so that a page that was handed out again can show bytes from before.
-/

namespace BufferPool

inductive DeviceCall where
  | read (p : PageId) (length : Nat)
  | write (p : PageId) (buffer : Bytes)
  | allocate
  | deallocate (p : PageId)
  deriving DecidableEq, Repr

inductive Reply where
  | read (p : PageId) (length : Nat) (answer : Except DiskError Bytes)
  | write (p : PageId) (buffer : Bytes) (answer : Except DiskError Unit)
  | allocate (answer : Except DiskError PageId)
  | deallocate (p : PageId) (answer : Except DiskError Unit)

namespace Reply

/-- What was written to a page since it was last allocated. The latest reply comes first. -/
def writtenSince (p : PageId) : List Reply → Option Bytes
  | [] => none
  | write q buffer (.ok ()) :: past => if q = p then some buffer else writtenSince p past
  | allocate (.ok q) :: past => if q = p then none else writtenSince p past
  | _ :: past => writtenSince p past

/-- What was ever written to a page last, however often it was allocated. -/
def writtenEver (p : PageId) : List Reply → Option Bytes
  | [] => none
  | write q buffer (.ok ()) :: past => if q = p then some buffer else writtenEver p past
  | _ :: past => writtenEver p past

theorem writtenEver_eq_some {p : PageId} {past : List Reply} {bs : Bytes}
    (h : writtenSince p past = some bs) : writtenEver p past = some bs := by
  fun_induction writtenSince p past with
  | case1 => cases h
  | case2 buffer past => simpa [writtenEver] using h
  | case3 q buffer past hq ih => simpa [writtenEver, hq] using ih h
  | case4 past => cases h
  | case5 q past hq ih => exact ih h
  | case6 reply past hwrite hallocate ih =>
    rw [writtenEver]
    · exact ih h
    · exact hwrite

/-- The reply tells of no write and of no allocation that succeeded. -/
def IsInert : Reply → Prop
  | write _ _ (.ok _) | allocate (.ok _) => False
  | _ => True

theorem IsInert.written_cons {reply : Reply} (h : reply.IsInert) (p : PageId)
    (past : List Reply) : writtenSince p (reply :: past) = writtenSince p past ∧
      writtenEver p (reply :: past) = writtenEver p past := by
  cases reply with
  | read | deallocate => exact ⟨rfl, rfl⟩
  | write q buffer answer | allocate answer =>
    cases answer with
    | error => exact ⟨rfl, rfl⟩
    | ok => exact h.elim

end Reply

/-- A device and its replies, the latest first. -/
structure Served (δ : Type) where
  device : δ
  past : List Reply := []

namespace Served

open Device (Leads)

variable {δ : Type} [Device δ] {s t : Served δ}

def call (s : Served δ) : DeviceCall → Served δ
  | .read p length =>
    let (answer, device) := Device.readBuffer p length s.device
    ⟨device, .read p length answer :: s.past⟩
  | .write p buffer =>
    let (answer, device) := Device.writeBuffer p buffer s.device
    ⟨device, .write p buffer answer :: s.past⟩
  | .allocate =>
    let (answer, device) := Device.allocate s.device
    ⟨device, .allocate answer :: s.past⟩
  | .deallocate p =>
    let (answer, device) := Device.deallocate p s.device
    ⟨device, .deallocate p answer :: s.past⟩

def run (s : Served δ) (calls : List DeviceCall) : Served δ := calls.foldl call s

inductive Step (s : Served δ) : Served δ → Prop where

  | refused {reply : Reply} (h : reply.IsInert) : Step s ⟨s.device, reply :: s.past⟩

  | read {p : PageId} {length : Nat} {r : Except DiskError Page} {answer : Except DiskError Bytes}
      {d : δ} (h : Device.read p s.device = (r, d)) :
      Step s ⟨d, .read p length answer :: s.past⟩

  | wrote {p : PageId} {x : Page} {d : δ} (h : Device.write p x s.device = (.ok (), d)) :
      Step s ⟨d, .write p x.bytes (.ok ()) :: s.past⟩

  | unwritten {p : PageId} {x : Page} {e : DiskError} {d : δ}
      (h : Device.write p x s.device = (.error e, d)) :
      Step s ⟨d, .write p x.bytes (.error e) :: s.past⟩

  | allocated {p : PageId} {d : δ} (h : Device.allocate s.device = (.ok p, d)) :
      Step s ⟨d, .allocate (.ok p) :: s.past⟩

  | unallocated {e : DiskError} {d : δ} (h : Device.allocate s.device = (.error e, d)) :
      Step s ⟨d, .allocate (.error e) :: s.past⟩

  | deallocated {p : PageId} {answer : Except DiskError Unit} {d : δ}
      (h : Device.deallocate p s.device = (answer, d)) :
      Step s ⟨d, .deallocate p answer :: s.past⟩

theorem step_call (s : Served δ) (c : DeviceCall) : Step s (s.call c) := by
  cases c with
  | read p length =>
    simp only [call, Device.readBuffer]
    split
    · exact .read rfl
    · exact .refused trivial
  | write p buffer =>
    simp only [call, Device.writeBuffer]
    rcases hx : Page.ofBytes? buffer with _ | x
    · exact .refused trivial
    · obtain rfl := Page.ofBytes?_eq_some_iff.mp hx
      rcases hw : Device.write p x s.device with ⟨e | _, d⟩
      · simp only [hw]
        exact .unwritten hw
      · simp only [hw]
        exact .wrote hw
  | allocate =>
    simp only [call]
    rcases ha : Device.allocate s.device with ⟨e | p, d⟩
    · exact .unallocated ha
    · exact .allocated ha
  | deallocate p => exact .deallocated rfl

theorem run_induction {P : Served δ → Prop} (hstep : ∀ s t, Step s t → P s → P t) {s : Served δ}
    (h : P s) (calls : List DeviceCall) : P (s.run calls) := by
  induction calls generalizing s with
  | nil => exact h
  | cons c calls ih => exact ih (hstep s _ (s.step_call c) h)

theorem Step.leads (h : Step s t) : Leads s.device t.device := by
  cases h with
  | refused => exact .refl
  | read h => exact .single (.read h)
  | wrote h | unwritten h => exact .single (.write h)
  | allocated h | unallocated h => exact .single (.allocate h)
  | deallocated h => exact .single (.deallocate h)

theorem leads_run (s : Served δ) (calls : List DeviceCall) :
    Leads s.device (s.run calls).device :=
  run_induction (P := fun t => Leads s.device t.device)
    (fun _ _ hst hl => hl.trans hst.leads) .refl calls

end Served

theorem Device.exists_read_of_readBuffer {δ : Type} [Device δ] {p : PageId} {length : Nat} {d : δ}
    {bs : Bytes} (h : (readBuffer p length d).1 = .ok bs) :
    ∃ x, (read p d).1 = .ok x ∧ x.bytes = bs := by
  unfold readBuffer at h
  split at h
  · rcases hr : read p d with ⟨e | x, d'⟩ <;> rw [hr] at h <;> cases h
    exact ⟨x, rfl, rfl⟩
  · cases h

open Reply

namespace MemoryDisk

variable {d d' : MemoryDisk} {p q : PageId} {x y : Page}

theorem snapshot_read {r : Except DiskError Page} (h : read p d = (r, d')) :
    d'.snapshot = d.snapshot := by
  unfold read at h
  split at h
  · cases h
    rfl
  · split at h <;> cases h <;> rfl

theorem snapshot_of_read (h : (read p d).1 = .ok x) : d.snapshot p = some x := by
  unfold read at h
  split at h
  · cases h
  · split at h
    · rename_i hy
      cases h
      exact hy
    · cases h

theorem snapshot_write (h : write p x d = (.ok (), d')) :
    d'.snapshot = Function.update d.snapshot p (some x) := by
  unfold write at h
  split at h
  · cases h
  · split at h <;> cases h
    exact snapshot_insert rfl

theorem eq_of_write_error {e : DiskError} (h : write p x d = (.error e, d')) : d' = d := by
  unfold write at h
  split at h
  · cases h
    rfl
  · split at h <;> cases h
    rfl

theorem snapshot_allocate (h : allocate d = (.ok p, d')) :
    d'.snapshot = Function.update d.snapshot p (some Page.zero) := by
  cases allocates h with
  | recycled | fresh => exact snapshot_insert rfl

theorem snapshot_allocate_error {e : DiskError} (h : allocate d = (.error e, d')) :
    d'.snapshot = d.snapshot := by
  cases allocates h
  rfl

theorem snapshot_of_deallocate {answer : Except DiskError Unit} (h : deallocate p d = (answer, d'))
    (hq : d'.snapshot q = some x) : d.snapshot q = some x := by
  cases deallocates h with
  | released =>
    rw [snapshot_erase rfl, Function.update_apply] at hq
    split at hq
    · cases hq
    · exact hq
  | absent => exact hq

/-- Every stored page has the bytes that were written to it since it was allocated. -/
def Faithful (s : Served MemoryDisk) : Prop :=
  ∀ p x, s.device.snapshot p = some x → x.bytes = (writtenSince p s.past).getD Page.zero.bytes

theorem Faithful.update {s t : Served MemoryDisk} (h : Faithful s)
    (hsnapshot : t.device.snapshot = Function.update s.device.snapshot p (some x))
    (hself : (writtenSince p t.past).getD Page.zero.bytes = x.bytes)
    (hothers : ∀ q, p ≠ q → writtenSince q t.past = writtenSince q s.past) : Faithful t := by
  intro q y hq
  rw [hsnapshot, Function.update_apply] at hq
  split at hq
  · rename_i he
    cases hq
    rw [he, hself]
  · rename_i hne
    rw [hothers q (Ne.symm hne)]
    exact h q y hq

theorem Faithful.step {s t : Served MemoryDisk} (hst : s.Step t) (h : Faithful s) :
    Faithful t := by
  cases hst with
  | refused hinert =>
    intro q y hq
    rw [(hinert.written_cons q _).1]
    exact h q y hq
  | read hr =>
    intro q y hq
    rw [snapshot_read hr] at hq
    exact h q y hq
  | wrote hw =>
    apply h.update (snapshot_write hw)
    · rw [writtenSince, if_pos rfl]
      rfl
    · intro q hpq
      rw [writtenSince, if_neg hpq]
  | unwritten hw =>
    intro q y hq
    rw [eq_of_write_error hw] at hq
    exact h q y hq
  | allocated ha =>
    apply h.update (snapshot_allocate ha)
    · rw [writtenSince, if_pos rfl]
      rfl
    · intro q hpq
      rw [writtenSince, if_neg hpq]
  | unallocated ha =>
    intro q y hq
    rw [snapshot_allocate_error ha] at hq
    exact h q y hq
  | deallocated hd => exact fun q y hq => h q y (snapshot_of_deallocate hd hq)

end MemoryDisk

namespace FileDisk

variable {d d' : FileDisk} {p q : PageId} {x : Page}

/-- Every place has the bytes that were ever written to its page last. -/
structure Lasting (s : Served FileDisk) : Prop where
  ordered : s.device.Ordered
  slot_eq : ∀ p, (s.device.slot p).bytes = (writtenEver p s.past).getD Page.zero.bytes

theorem slot_of_read (hd : d.Ordered) (h : (read p d).1 = .ok x) : d.slot p = x := by
  unfold read at h
  split at h
  · rename_i o ho
    cases h
    rw [slot, hd.home p o (locate_eq_ok ho)]
  · cases h

theorem Ordered.leads (h : d.Ordered) (hl : Device.Leads d d') : d'.Ordered := by
  induction hl with
  | refl => exact h
  | tail _ hr ih => exact hr.ok ih trivial

theorem step_cases {s t : Served FileDisk} (hst : s.Step t) :
    (t.device.bytes = s.device.bytes ∧ ∀ p, writtenEver p t.past = writtenEver p s.past) ∨
      ∃ p x, write p x s.device = (.ok (), t.device) ∧
        t.past = .write p x.bytes (.ok ()) :: s.past := by
  cases hst with
  | refused hinert => exact Or.inl ⟨rfl, fun p => (hinert.written_cons p _).2⟩
  | read hr => exact Or.inl ⟨bytes_read hr, fun _ => rfl⟩
  | wrote hw => exact Or.inr ⟨_, _, hw, rfl⟩
  | unwritten hw => exact Or.inl ⟨bytes_write_error hw, fun _ => rfl⟩
  | allocated ha | unallocated ha => exact Or.inl ⟨bytes_allocate ha, fun _ => rfl⟩
  | deallocated hd => exact Or.inl ⟨bytes_deallocate hd, fun _ => rfl⟩

theorem slot_step {s t : Served FileDisk} {first : PageId → Bytes} (hst : s.Step t)
    (hd : s.device.Ordered)
    (h : ∀ p, (s.device.slot p).bytes = (writtenEver p s.past).getD (first p)) (q : PageId) :
    (t.device.slot q).bytes = (writtenEver q t.past).getD (first q) := by
  rcases step_cases hst with ⟨hbytes, hpast⟩ | ⟨p, x, hw, hpast⟩
  · rw [slot_eq_of_bytes hbytes, hpast]
    exact h q
  · rw [slot_write hd hw, Function.update_apply, hpast, writtenEver]
    split
    · rename_i he
      rw [if_pos he.symm]
      rfl
    · rename_i hne
      rw [if_neg (Ne.symm hne)]
      exact h q

theorem Lasting.step {s t : Served FileDisk} (hst : s.Step t) (h : Lasting s) : Lasting t where
  ordered := h.ordered.leads hst.leads
  slot_eq := slot_step hst h.ordered h.slot_eq

end FileDisk

/-- A read from a memory disk answers what was written to the page since it was allocated, or zeros.
A read from a file disk answers what was ever written to the page last, or zeros. That is the same
if and only if the page was written since it was allocated, or its place held zeros. -/
theorem read_written (calls : List DeviceCall) (p : PageId) (length : Nat) (bs : Bytes) :
    (∀ s, s = Served.run ⟨MemoryDisk.empty, []⟩ calls →
      (Device.readBuffer p length s.device).1 = .ok bs →
      bs = (writtenSince p s.past).getD Page.zero.bytes) ∧
    ∀ s, s = Served.run ⟨FileDisk.ofBytes [], []⟩ calls →
      (Device.readBuffer p length s.device).1 = .ok bs →
      bs = (writtenEver p s.past).getD Page.zero.bytes ∧
      (bs = (writtenSince p s.past).getD Page.zero.bytes ↔
        writtenSince p s.past ≠ none ∨
          (writtenEver p s.past).getD Page.zero.bytes = Page.zero.bytes) := by
  constructor
  · rintro s rfl h
    have hs : MemoryDisk.Faithful (Served.run ⟨MemoryDisk.empty, []⟩ calls) := by
      refine Served.run_induction (fun _ _ => MemoryDisk.Faithful.step) (fun p x hx => ?_) calls
      simp [MemoryDisk.empty, MemoryDisk.snapshot] at hx
    obtain ⟨x, hx, rfl⟩ := Device.exists_read_of_readBuffer h
    exact hs p x (MemoryDisk.snapshot_of_read hx)
  · rintro s rfl h
    have hs : FileDisk.Lasting (Served.run ⟨FileDisk.ofBytes [], []⟩ calls) :=
      Served.run_induction (fun _ _ => FileDisk.Lasting.step)
        ⟨FileDisk.ordered_ofBytes (by decide), fun p => by rw [FileDisk.slot_empty]; rfl⟩ calls
    obtain ⟨x, hx, rfl⟩ := Device.exists_read_of_readBuffer h
    obtain rfl := FileDisk.slot_of_read hs.ordered hx
    rw [hs.slot_eq p]
    refine ⟨rfl, ?_⟩
    rcases hw : writtenSince p (Served.run ⟨FileDisk.ofBytes [], []⟩ calls).past with _ | w
    · simp
    · simp [writtenEver_eq_some hw]

def recycling : List DeviceCall :=
  [.allocate, .write 0 (List.replicate Page.size 7), .deallocate 0, .allocate]

/-- A file disk hands the page out with its old bytes. -/
theorem read_written_recycling : ∃ bs,
    (Device.readBuffer 0 Page.size (Served.run ⟨FileDisk.ofBytes [], []⟩ recycling).device).1 =
      .ok bs ∧
    writtenSince 0 (Served.run ⟨FileDisk.ofBytes [], []⟩ recycling).past = none ∧
    bs ≠ Page.zero.bytes := by
  have hok : (Device.readBuffer 0 Page.size
      (Served.run ⟨FileDisk.ofBytes [], []⟩ recycling).device).1.isOk = true := by
    decide +kernel
  rcases hbs : (Device.readBuffer 0 Page.size
      (Served.run ⟨FileDisk.ofBytes [], []⟩ recycling).device).1 with e | bs
  · rw [hbs] at hok
    cases hok
  have hsince : writtenSince 0 (Served.run ⟨FileDisk.ofBytes [], []⟩ recycling).past = none := by
    decide +kernel
  have hhead : ((writtenEver 0 (Served.run ⟨FileDisk.ofBytes [], []⟩ recycling).past).getD
      Page.zero.bytes).head? = some 7 := by
    decide +kernel
  obtain ⟨hlast, -⟩ := (read_written recycling 0 Page.size bs).2 _ rfl hbs
  refine ⟨bs, rfl, hsince, fun hzero => ?_⟩
  rw [← hlast, hzero] at hhead
  exact absurd hhead (by decide +kernel)

end BufferPool
