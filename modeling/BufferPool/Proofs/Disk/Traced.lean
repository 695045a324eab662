import BufferPool.Proofs.Disk.Logged

/-! # Traced devices

A device that notes every request that is made of it, whether it is granted or
not, with the bytes that are to be written. Like a log, the trace does not show.
-/

namespace BufferPool

/-- A request as it is made, whatever comes of it. -/
inductive DiskCall where
  | read (p : PageId)
  | write (p : PageId) (x : Page)
  | allocate
  | deallocate (p : PageId)
  deriving DecidableEq

structure Traced (δ : Type) where
  device : δ
  calls : List DiskCall := []

namespace Traced

variable {δ : Type}

def pass {α : Type} (c : DiskCall) (request : δ → Except DiskError α × δ) (d : Traced δ) :
    Except DiskError α × Traced δ :=
  let (answer, device) := request d.device
  (answer, ⟨device, d.calls ++ [c]⟩)

variable [Device δ] {d d' : Traced δ}

instance : Device (Traced δ) where
  read p := pass (.read p) (Device.read p)
  write p x := pass (.write p x) (Device.write p x)
  allocate := pass .allocate Device.allocate
  deallocate p := pass (.deallocate p) (Device.deallocate p)

theorem hom_device : Device.Hom (device : Traced δ → δ) where
  read _ _ := rfl
  write _ _ _ := rfl
  allocate _ := rfl
  deallocate _ _ := rfl

theorem calls_of_leads (h : Device.Leads d d') : ∃ cs, d'.calls = d.calls ++ cs := by
  induction h with
  | refl => exact ⟨[], (List.append_nil _).symm⟩
  | tail _ hr ih =>
    obtain ⟨cs, hcs⟩ := ih
    cases hr with
    | read h | write h | allocate h | deallocate h =>
      cases h
      exact ⟨cs ++ [_], (congrArg (· ++ [_]) hcs).trans (List.append_assoc _ _ _)⟩

end Traced

end BufferPool
