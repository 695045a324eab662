import BufferPool.Proofs.Disk.Requests
import BufferPool.Proofs.Disk.Service

/-! # Devices that go by pages

What a request changes of the stored bytes is in the pages that it names. A
request that is refused changes none of them. The devices may run out of ids
all the same, and hand out an id a second time.
-/

namespace BufferPool

open Storage
open Device (Leads)

/-- A device on which pages do not overlap. If it is in order, it finds the pages that are there. -/
class Pagewise (δ : Type) [Device δ] [Storage δ] where
  InOrder : δ → Prop
  request {d d' : δ} : Device.Request d d' → InOrder d → InOrder d'
  read {d d' : δ} {p : PageId} {r : Except DiskError Page} :
    Device.read p d = (r, d') → page? d' = page? d
  write_ok {d d' : δ} {p : PageId} {x : Page} : InOrder d → Device.write p x d = (.ok (), d') →
    page? d p ≠ none ∧ page? d' = Function.update (page? d) p (some x)
  write_error {d d' : δ} {p : PageId} {x : Page} {e : DiskError} :
    Device.write p x d = (.error e, d') → page? d' = page? d
  missing {d d' : δ} {p : PageId} {x : Page} {e : DiskError} :
    InOrder d → Device.write p x d = (.error e, d') → e.isMissing = true → page? d p = none
  allocate {d d' : δ} {r : Except DiskError PageId} {p : PageId} :
    Device.allocate d = (r, d') → r ≠ .ok p → page? d' p = page? d p
  deallocate {d d' : δ} {r : Except DiskError Unit} {p q : PageId} :
    Device.deallocate p d = (r, d') → q ≠ p → page? d' q = page? d q

namespace Pagewise

variable {δ : Type} [Device δ] [Storage δ] [Pagewise δ] {d d' : δ}

theorem inOrder_of_leads (h : Leads d d') (hd : InOrder d) : InOrder d' := by
  induction h with
  | refl => exact hd
  | tail _ hr ih => exact request hr ih

end Pagewise

instance : Pagewise MemoryDisk where
  InOrder _ := True
  request _ _ := trivial
  read := MemoryDisk.snapshot_read
  write_ok {d d' p x} _ h := by
    change MemoryDisk.write p x d = (_, d') at h
    refine ⟨?_, MemoryDisk.snapshot_write h⟩
    unfold MemoryDisk.write at h
    split at h
    · cases h
    · split at h
      · rename_i hp
        rw [MemoryDisk.isAllocated_eq_isSome] at hp
        exact Option.isSome_iff_ne_none.mp hp
      · cases h
  write_error h := congrArg MemoryDisk.snapshot (MemoryDisk.eq_of_write_error h)
  missing {d d' p x e} _ h he := by
    change MemoryDisk.write p x d = (_, d') at h
    unfold MemoryDisk.write at h
    split at h
    · cases h
      cases he
    · split at h
      · cases h
      · rename_i hp
        rw [MemoryDisk.isAllocated_eq_isSome] at hp
        exact Option.not_isSome_iff_eq_none.mp hp
  allocate {d d' r p} h hp := by
    rcases r with e | q
    · exact congrFun (MemoryDisk.snapshot_allocate_error h) p
    · have hne : p ≠ q := fun he => hp (congrArg _ he.symm)
      exact (congrFun (MemoryDisk.snapshot_allocate h) p).trans (Function.update_of_ne hne _ _)
  deallocate {d d' r p q} h hq := by
    cases MemoryDisk.deallocates h with
    | released =>
      exact (congrFun (MemoryDisk.snapshot_erase rfl) q).trans (Function.update_of_ne hq _ _)
    | absent => rfl

theorem FileDisk.stored_eq_of_insert {d d' : FileDisk} {p q : PageId} {s : Option Nat}
    (slots : d'.slots = d.slots.insert p s) (bytes : d'.bytes = d.bytes) (hq : q ≠ p) :
    d'.stored q = d.stored q := by
  rw [stored_insert slots bytes, Function.update_of_ne hq]

instance : Pagewise FileDisk where
  InOrder := FileDisk.Ordered
  request hr hd := hr.ok hd trivial
  read {d d' p r} h := by
    change FileDisk.read p d = (r, d') at h
    unfold FileDisk.read at h
    split at h <;> cases h <;> rfl
  write_ok hd h := (Lawful.write_ok hd h).2
  write_error {d d' p x e} h := by
    change FileDisk.write p x d = (_, d') at h
    unfold FileDisk.write at h
    split at h <;> cases h
    rfl
  missing hd h := (Lawful.write_error hd h).2.2
  allocate {d d' r p} h hp := by
    cases FileDisk.allocates h with
    | recycled | fresh =>
      exact FileDisk.stored_eq_of_insert rfl rfl fun he => hp (congrArg _ he.symm)
    | exhausted => rfl
  deallocate {d d' r p q} h hq := by
    cases FileDisk.deallocates h with
    | released => exact FileDisk.stored_eq_of_insert rfl rfl hq
    | absent => rfl

namespace FaultyDisk

variable {δ : Type} [Device δ]

section Request

variable {d d' : FaultyDisk δ}

theorem keepsPages_request (hr : Device.Request d d') (hd : d.KeepsPages) : d'.KeepsPages := by
  cases hr with
  | read h | write h | allocate h | deallocate h => exact hd.congr (attempt_cases h).1

theorem request_device {P : δ → Prop} (hP : ∀ {d d' : δ}, Device.Request d d' → P d → P d')
    (hr : Device.Request d d') (hd : P d.device) : P d'.device := by
  cases hr with
  | read h | write h | allocate h | deallocate h =>
    obtain ⟨-, ⟨_, -, -, hsame⟩ | ⟨-, hrequest⟩⟩ := attempt_cases h
    · exact hsame ▸ hd
    · first
        | exact hP (.read hrequest) hd
        | exact hP (.write hrequest) hd
        | exact hP (.allocate hrequest) hd
        | exact hP (.deallocate hrequest) hd

end Request

instance [Storage δ] [Pagewise δ] : Pagewise (FaultyDisk δ) where
  InOrder d := Pagewise.InOrder d.device ∧ d.KeepsPages
  request hr hd := ⟨request_device Pagewise.request hr hd.1, keepsPages_request hr hd.2⟩
  read h := by
    obtain ⟨-, ⟨_, -, -, hsame⟩ | ⟨-, hr⟩⟩ := attempt_cases h
    · exact congrArg (page? (δ := δ)) hsame
    · have hpage := Pagewise.read hr
      exact hpage
  write_ok hd h := by
    obtain ⟨-, ⟨_, -, hx, -⟩ | ⟨-, hr⟩⟩ := attempt_cases h
    · cases hx
    · have hpage := Pagewise.write_ok hd.1 hr
      exact hpage
  write_error h := by
    obtain ⟨-, ⟨_, -, -, hsame⟩ | ⟨-, hr⟩⟩ := attempt_cases h
    · exact congrArg (page? (δ := δ)) hsame
    · have hpage := Pagewise.write_error hr
      exact hpage
  missing {d d' p x e} hd h he := by
    obtain ⟨-, ⟨error, hn, hx, -⟩ | ⟨-, hr⟩⟩ := attempt_cases h
    · have hkeep : (error p).isMissing = false := hd.2 _ error p hn
      rw [Except.error.inj hx, hkeep] at he
      cases he
    · have hpage := Pagewise.missing hd.1 hr he
      exact hpage
  allocate {d d' r p} h hp := by
    obtain ⟨-, ⟨_, -, -, hsame⟩ | ⟨-, hr⟩⟩ := attempt_cases h
    · exact congrFun (congrArg (page? (δ := δ)) hsame) p
    · have hpage := Pagewise.allocate hr hp
      exact hpage
  deallocate {d d' r p q} h hq := by
    obtain ⟨-, ⟨_, -, -, hsame⟩ | ⟨-, hr⟩⟩ := attempt_cases h
    · exact congrFun (congrArg (page? (δ := δ)) hsame) q
    · have hpage := Pagewise.deallocate hr hq
      exact hpage

end FaultyDisk

namespace Pool

open Pagewise

variable {δ : Type} [Device δ] [Storage δ] [Pagewise δ] {d d' : δ} {n : Nat} {b b' : Pool δ n}
  {p : PageId}

theorem BoundedSearch.page?_eq {inUse : PageId → Bool} {fuel : Nat}
    {answer : Except DiskError PageId} {skipped : List PageId}
    (h : BoundedSearch inUse fuel d answer skipped d') (hp : p ∉ skipped) (hne : answer ≠ .ok p) :
    page? d' p = page? d p := by
  induction h with
  | spent => rfl
  | refused ha => exact Pagewise.allocate ha nofun
  | found ha => exact Pagewise.allocate ha hne
  | skipped ha _ _ ih =>
    rw [List.mem_cons, not_or] at hp
    rw [ih hp.2 hne]
    apply Pagewise.allocate ha
    rintro ⟨⟩
    exact hp.1 rfl

theorem GivesBack.page?_eq {ps : List PageId} {r : Except PoolError Unit}
    (h : GivesBack ps d r d') (hp : p ∉ ps) : page? d' p = page? d p := by
  induction h with
  | done => rfl
  | refused hd =>
    rw [List.mem_cons, not_or] at hp
    exact Pagewise.deallocate hd hp.1
  | released hd _ ih =>
    rw [List.mem_cons, not_or] at hp
    exact (ih hp.2).trans (Pagewise.deallocate hd hp.1)

/-- The unused id that the device comes up with, unless it refuses an allocation before. -/
def unusedId? (b : Pool δ n) : Option PageId :=
  (searchId b.isCached (b.table.size + 1) b.device).1.toOption

omit [Storage δ] [Pagewise δ] in
theorem unusedId?_eq {answer : Except DiskError PageId} {skipped : List PageId}
    (h : BoundedSearch b.isCached (b.table.size + 1) b.device answer skipped d) :
    b.unusedId? = answer.toOption := by
  rw [unusedId?, searchId_eq_iff.mpr h]

omit [Storage δ] [Pagewise δ] in
/-- If the allocation failed, and not the return of an id that is in use, then there was no id. -/
theorem unusedId?_of_allocating {e : DiskError}
    (h : b.allocateUnused = (.error (.allocating e), b')) : b.unusedId? = none := by
  cases allocateUnused_outcome h with
  | refused search => exact unusedId?_eq search
  | unreturned _ back =>
    obtain ⟨_, _, he⟩ := back.exists_releasing
    cases he

theorem page?_allocateUnused {answer : Except PoolError PageId}
    (h : b.allocateUnused = (answer, b')) (hp : b.frameOf? p = none) (hid : b.unusedId? ≠ some p) :
    page? b'.device p = page? b.device p := by
  have hcached : ¬b.isCached p = true := by
    rw [isCached, hp]
    exact Bool.false_ne_true
  cases allocateUnused_outcome h with
  | found search back | refused search back | unreturned search back =>
    have hmem := mt (search.inUse_of_mem p) hcached
    rw [back.page?_eq hmem]
    apply search.page?_eq hmem
    intro hanswer
    rw [unusedId?_eq search, hanswer] at hid
    exact hid rfl

end Pool

end BufferPool
