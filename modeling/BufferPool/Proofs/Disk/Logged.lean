import BufferPool.Proofs.Disk.Memory
import BufferPool.Proofs.Disk.Requests

/-! # Logged devices

A device that notes every request that it carries out. The notes do not show:
forgetting them commutes with every request.
-/

namespace BufferPool

namespace DiskEvent

def isRead : DiskEvent → Bool
  | read _ => true
  | _ => false

def isWrite : DiskEvent → Bool
  | write _ => true
  | _ => false

def isTransfer (e : DiskEvent) : Bool := e.isRead || e.isWrite

end DiskEvent

/-- A device with an account of the requests that it has carried out. -/
class Journaled (δ : Type) [Device δ] where
  journal : δ → List DiskEvent
  read {d d' : δ} {p : PageId} {r : Except DiskError Page} : Device.read p d = (r, d') →
    journal d' = journal d ++ (r.toOption.map fun _ => .read p).toList
  write {d d' : δ} {p : PageId} {x : Page} {r : Except DiskError Unit} :
    Device.write p x d = (r, d') →
    journal d' = journal d ++ (r.toOption.map fun _ => .write p).toList
  allocate {d d' : δ} {r : Except DiskError PageId} : Device.allocate d = (r, d') →
    journal d' = journal d ++ (r.toOption.map .allocate).toList
  deallocate {d d' : δ} {p : PageId} {r : Except DiskError Unit} :
    Device.deallocate p d = (r, d') →
    journal d' = journal d ++ (r.toOption.map fun _ => .deallocate p).toList

instance : Journaled MemoryDisk where
  journal := MemoryDisk.history
  read {d d' p r} h := by
    change MemoryDisk.read p d = (r, d') at h
    unfold MemoryDisk.read at h
    split at h
    · cases h
      exact (List.append_nil _).symm
    · split at h <;> cases h
      · rfl
      · exact (List.append_nil _).symm
  write {d d' p x r} h := by
    change MemoryDisk.write p x d = (r, d') at h
    unfold MemoryDisk.write at h
    split at h
    · cases h
      exact (List.append_nil _).symm
    · split at h <;> cases h
      · rfl
      · exact (List.append_nil _).symm
  allocate {d d' r} h := by
    cases MemoryDisk.allocates h with
    | recycled | fresh => rfl
    | exhausted => exact (List.append_nil _).symm
  deallocate {d d' p r} h := by
    cases MemoryDisk.deallocates h <;> rfl

open Journaled

def SameTransfers {δ : Type} [Device δ] [Journaled δ] (d d' : δ) : Prop :=
  (journal d').filter DiskEvent.isTransfer = (journal d).filter DiskEvent.isTransfer

section Transfers

variable {δ : Type} [Device δ] [Journaled δ] {d d' : δ}

theorem SameTransfers.countP (h : SameTransfers d d') {k : DiskEvent → Bool}
    (hk : ∀ e, k e = true → e.isTransfer = true) :
    (journal d').countP k = (journal d).countP k := by
  have hcount : ∀ es : List DiskEvent, es.countP k = (es.filter DiskEvent.isTransfer).countP k := by
    intro es
    rw [List.countP_filter]
    refine List.countP_congr fun e _ => ?_
    simpa using hk e
  rw [hcount, hcount (journal d), h]

theorem SameTransfers.count_write (h : SameTransfers d d') (p : PageId) :
    (journal d').count (.write p) = (journal d).count (.write p) := by
  refine h.countP fun e he => ?_
  rw [eq_of_beq he]
  rfl

theorem count_write_read {q : PageId} {r : Except DiskError Page} (h : Device.read q d = (r, d'))
    (p : PageId) : (journal d').count (.write p) = (journal d).count (.write p) := by
  rw [Journaled.read h, List.count_append]
  cases r <;> rfl

theorem count_write_error {q : PageId} {x : Page} {e : DiskError}
    (h : Device.write q x d = (.error e, d')) (p : PageId) :
    (journal d').count (.write p) = (journal d).count (.write p) := by
  rw [Journaled.write h, List.count_append]
  rfl

theorem journal_of_leads (h : Device.Leads d d') : ∃ events, journal d' = journal d ++ events := by
  induction h with
  | refl => exact ⟨[], (List.append_nil _).symm⟩
  | tail _ hr ih =>
    obtain ⟨events, he⟩ := ih
    cases hr with
    | read h => exact ⟨_, by rw [Journaled.read h, he, List.append_assoc]⟩
    | write h => exact ⟨_, by rw [Journaled.write h, he, List.append_assoc]⟩
    | allocate h => exact ⟨_, by rw [Journaled.allocate h, he, List.append_assoc]⟩
    | deallocate h => exact ⟨_, by rw [Journaled.deallocate h, he, List.append_assoc]⟩

theorem SameTransfers.of_events {events : List DiskEvent} (h : journal d' = journal d ++ events)
    (hevents : ∀ e ∈ events, e.isTransfer = false) : SameTransfers d d' := by
  have hnone : events.filter DiskEvent.isTransfer = [] := by
    rw [List.filter_eq_nil_iff]
    exact fun e he => Bool.eq_false_iff.mp (hevents e he)
  rw [SameTransfers, h, List.filter_append, hnone, List.append_nil]

theorem sameTransfers_allocate {r : Except DiskError PageId} (h : Device.allocate d = (r, d')) :
    SameTransfers d d' := by
  apply SameTransfers.of_events (Journaled.allocate h)
  cases r with
  | error e => exact nofun
  | ok p => exact List.forall_mem_singleton.mpr rfl

theorem sameTransfers_deallocate {p : PageId} {r : Except DiskError Unit}
    (h : Device.deallocate p d = (r, d')) : SameTransfers d d' := by
  apply SameTransfers.of_events (Journaled.deallocate h)
  cases r with
  | error e => exact nofun
  | ok u => exact List.forall_mem_singleton.mpr rfl

theorem Pool.BoundedSearch.sameTransfers {inUse : PageId → Bool} {fuel : Nat}
    {answer : Except DiskError PageId} {skipped : List PageId}
    (h : BoundedSearch inUse fuel d answer skipped d') : SameTransfers d d' := by
  induction h with
  | spent => rfl
  | refused ha | found ha => exact sameTransfers_allocate ha
  | skipped ha _ _ ih => exact ih.trans (sameTransfers_allocate ha)

theorem Pool.GivesBack.sameTransfers {ps : List PageId} {r : Except PoolError Unit}
    (h : GivesBack ps d r d') : SameTransfers d d' := by
  induction h with
  | done => rfl
  | refused hd => exact sameTransfers_deallocate hd
  | released hd _ ih => exact ih.trans (sameTransfers_deallocate hd)

theorem Pool.sameTransfers_allocateUnused {n : Nat} {b b' : Pool δ n}
    {answer : Except PoolError PageId} (h : b.allocateUnused = (answer, b')) :
    SameTransfers b.device b'.device := by
  cases allocateUnused_outcome h with
  | found search back | refused search back | unreturned search back =>
    exact back.sameTransfers.trans search.sameTransfers

end Transfers

/-- Whatever is asked of a device is asked of its image, with the same answer. -/
structure Device.Hom {δ ε : Type} [Device δ] [Device ε] (φ : δ → ε) : Prop where
  read (p : PageId) (d : δ) : Device.read p (φ d) = Prod.map id φ (Device.read p d)
  write (p : PageId) (x : Page) (d : δ) :
    Device.write p x (φ d) = Prod.map id φ (Device.write p x d)
  allocate (d : δ) : Device.allocate (φ d) = Prod.map id φ (Device.allocate d)
  deallocate (p : PageId) (d : δ) :
    Device.deallocate p (φ d) = Prod.map id φ (Device.deallocate p d)

/-- A device with a log of the requests that it has carried out. -/
structure Logged (δ : Type) where
  device : δ
  log : List DiskEvent := []

namespace Logged

variable {δ : Type}

def carry {α : Type} (event : α → DiskEvent) (request : δ → Except DiskError α × δ)
    (d : Logged δ) : Except DiskError α × Logged δ :=
  let (answer, device) := request d.device
  (answer, ⟨device, d.log ++ (answer.toOption.map event).toList⟩)

variable [Device δ]

instance : Device (Logged δ) where
  read p := carry (fun _ => .read p) (Device.read p)
  write p x := carry (fun _ => .write p) (Device.write p x)
  allocate := carry .allocate Device.allocate
  deallocate p := carry (fun _ => .deallocate p) (Device.deallocate p)

omit [Device δ] in
theorem log_carry {α : Type} {event : α → DiskEvent} {request : δ → Except DiskError α × δ}
    {d d' : Logged δ} {r : Except DiskError α} (h : carry event request d = (r, d')) :
    d'.log = d.log ++ (r.toOption.map event).toList := by
  cases h
  rfl

instance : Journaled (Logged δ) where
  journal := log
  read := log_carry
  write := log_carry
  allocate := log_carry
  deallocate := log_carry

theorem hom_device : Device.Hom (device : Logged δ → δ) where
  read _ _ := rfl
  write _ _ _ := rfl
  allocate _ := rfl
  deallocate _ _ := rfl

end Logged

end BufferPool
