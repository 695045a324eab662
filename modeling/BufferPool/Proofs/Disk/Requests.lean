import Mathlib.Logic.Relation
import BufferPool.Proofs.Disk.Lawful

/-! # Requests

Whatever a pool does, its device is led on by requests, one after the other.
What every request keeps, the pool keeps.
-/

namespace BufferPool

open Relation

namespace Device

variable {δ : Type} [Device δ]

/-- One request leads from one state of the device to another. -/
inductive Request : δ → δ → Prop where
  | read {d d' : δ} {p : PageId} {r : Except DiskError Page} :
      Device.read p d = (r, d') → Request d d'
  | write {d d' : δ} {p : PageId} {x : Page} {r : Except DiskError Unit} :
      Device.write p x d = (r, d') → Request d d'
  | allocate {d d' : δ} {r : Except DiskError PageId} : Device.allocate d = (r, d') → Request d d'
  | deallocate {d d' : δ} {p : PageId} {r : Except DiskError Unit} :
      Device.deallocate p d = (r, d') → Request d d'

abbrev Leads : δ → δ → Prop := ReflTransGen Request

/-- A write of the page succeeds on the way from one state of the device to another. -/
def Writes (p : PageId) (d d' : δ) : Prop :=
  ∃ d₁ d₂ x, Leads d d₁ ∧ Device.write p x d₁ = (.ok (), d₂) ∧ Leads d₂ d'

theorem Writes.of_write {d d' : δ} {p : PageId} {x : Page}
    (h : Device.write p x d = (.ok (), d')) : Writes p d d' :=
  ⟨d, d', x, .refl, h, .refl⟩

open Storage in
theorem Request.ok [Lawful δ] {d d' : δ} (hr : Request d d') (hok : Ok d) (hroom : Room d 1) :
    Ok d' := by
  cases hr with
  | read h => exact (Lawful.read hok h).1.ok
  | @write p x r h =>
    rcases r with e | _
    · exact (Lawful.write_error hok h).1.ok
    · exact (Lawful.write_ok hok h).1.ok
  | @allocate r h =>
    rcases r with e | p
    · exact (Lawful.allocate_error hok hroom h).ok
    · exact (Lawful.allocate_ok hok hroom h).1.ok
  | @deallocate p r h =>
    rcases r with e | _
    · exact (Lawful.deallocate_error hok h).1.ok
    · exact (Lawful.deallocate_ok hok h).1.ok

end Device

namespace Pool

open Device

variable {δ : Type} [Device δ] {d d' : δ} {n : Nat} {b b' : Pool δ n}

theorem leads_writeBack {p : PageId} {data : Page} {r : Except PoolError Unit}
    (h : b.writeBack p data = (r, b')) : Leads b.device b'.device := by
  unfold writeBack at h
  rcases hw : Device.write p data b.device with ⟨e | _, d⟩ <;> rw [hw] at h <;> cases h
  all_goals exact .single (.write hw)

theorem leads_flushNow (b : Pool δ n) (p : PageId) : Leads b.device (b.flushNow p).2.device := by
  unfold flushNow
  split
  · exact .refl
  split
  · rename_i f _ _
    rcases hw : b.writeBack p (b.frames.get f).data with ⟨_ | _, b'⟩
    all_goals
      have hlead := leads_writeBack hw
      exact hlead
  · exact .refl

theorem leads_takeFrame (b : Pool δ n) : Leads b.device b.takeFrame.2.device := by
  obtain ⟨b', rfl | ⟨p, rfl⟩, hdevice, -⟩ := takeFrame_flushes b <;> rw [hdevice]
  exact leads_flushNow b p

theorem GivesBack.leads {ps : List PageId} {r : Except PoolError Unit}
    (h : GivesBack ps d r d') : Leads d d' := by
  induction h with
  | done => exact .refl
  | refused hd => exact .single (.deallocate hd)
  | released hd _ ih => exact .head (.deallocate hd) ih

theorem BoundedSearch.leads {inUse : PageId → Bool} {fuel : Nat} {answer : Except DiskError PageId}
    {skipped : List PageId} (h : BoundedSearch inUse fuel d answer skipped d') : Leads d d' := by
  induction h with
  | spent => exact .refl
  | refused ha | found ha => exact .single (.allocate ha)
  | skipped ha _ _ ih => exact .head (.allocate ha) ih

theorem leads_allocateUnused {answer : Except PoolError PageId}
    (h : b.allocateUnused = (answer, b')) : Leads b.device b'.device := by
  cases allocateUnused_outcome h with
  | found search back | refused search back | unreturned search back =>
    exact search.leads.trans back.leads

end Pool

end BufferPool
