import BufferPool.Pool.Operations

/-! # Searches for an unused id

A search asks the device for one id after the other, and the ids that it skips
are given back in their order. What holds of every search is proved by induction
on what was asked.
-/

namespace BufferPool.Pool

variable {δ : Type} [Device δ] {d d' : δ} {inUse : PageId → Bool} {fuel : Nat}
  {answer : Except DiskError PageId} {skipped ps : List PageId} {r : Except PoolError Unit}

/-- A search for an unused id with so many allocations at most. -/
inductive BoundedSearch (inUse : PageId → Bool) :
    Nat → δ → Except DiskError PageId → List PageId → δ → Prop where

  | spent (d : δ) : BoundedSearch inUse 0 d (.error .invalidPageId) [] d

  | refused {d d' : δ} {fuel : Nat} {e : DiskError} (h : Device.allocate d = (.error e, d')) :
      BoundedSearch inUse (fuel + 1) d (.error e) [] d'

  | found {d d' : δ} {fuel : Nat} {p : PageId} (h : Device.allocate d = (.ok p, d'))
      (unused : inUse p = false) : BoundedSearch inUse (fuel + 1) d (.ok p) [] d'

  | skipped {d d₁ d' : δ} {fuel : Nat} {p : PageId} {answer : Except DiskError PageId}
      {skipped : List PageId} (h : Device.allocate d = (.ok p, d₁)) (used : inUse p = true)
      (rest : BoundedSearch inUse fuel d₁ answer skipped d') :
      BoundedSearch inUse (fuel + 1) d answer (p :: skipped) d'

theorem searchId_eq_iff : searchId inUse fuel d = (answer, skipped, d') ↔
    BoundedSearch inUse fuel d answer skipped d' := by
  constructor
  · intro h
    induction fuel generalizing d answer skipped with
    | zero =>
      cases h
      exact .spent _
    | succ fuel ih =>
      rw [searchId] at h
      rcases ha : Device.allocate d with ⟨e | p, d₁⟩ <;> simp only [ha] at h
      · cases h
        exact .refused ha
      split at h
      · rename_i hused
        cases h
        exact .skipped ha hused (ih rfl)
      · rename_i hunused
        cases h
        exact .found ha (Bool.eq_false_iff.mpr hunused)
  · intro h
    induction h with
    | spent => rfl
    | refused ha => simp only [searchId, ha]
    | found ha hunused => simp only [searchId, ha, hunused, Bool.false_eq_true, if_false]
    | skipped ha hused _ ih => simp only [searchId, ha, hused, if_true, ih]

namespace BoundedSearch

theorem inUse_of_mem (h : BoundedSearch inUse fuel d answer skipped d') :
    ∀ p ∈ skipped, inUse p = true := by
  induction h with
  | spent | refused | found => exact nofun
  | skipped _ hused _ ih => exact List.forall_mem_cons.mpr ⟨hused, ih⟩

theorem unused {p : PageId} (h : BoundedSearch inUse fuel d (.ok p) skipped d') :
    inUse p = false := by
  generalize ha : (Except.ok p : Except DiskError PageId) = answer at h
  induction h with
  | spent | refused => cases ha
  | found _ hunused =>
    cases ha
    exact hunused
  | skipped _ _ _ ih => exact ih ha

theorem not_mem_skipped {p : PageId} (h : BoundedSearch inUse fuel d (.ok p) skipped d') :
    p ∉ skipped := by
  intro hp
  have hused := h.inUse_of_mem p hp
  rw [h.unused] at hused
  cases hused

end BoundedSearch

inductive GivesBack : List PageId → δ → Except PoolError Unit → δ → Prop where

  | done (d : δ) : GivesBack [] d (.ok ()) d

  | refused {d d' : δ} {p : PageId} {ps : List PageId} {e : DiskError}
      (h : Device.deallocate p d = (.error e, d')) :
      GivesBack (p :: ps) d (.error (.releasing p e)) d'

  | released {d d₁ d' : δ} {p : PageId} {ps : List PageId} {r : Except PoolError Unit}
      (h : Device.deallocate p d = (.ok (), d₁)) (rest : GivesBack ps d₁ r d') :
      GivesBack (p :: ps) d r d'

theorem releaseEach_eq_iff : releaseEach ps d = (r, d') ↔ GivesBack ps d r d' := by
  constructor
  · intro h
    induction ps generalizing d with
    | nil =>
      cases h
      exact .done _
    | cons p ps ih =>
      rw [releaseEach] at h
      rcases hd : Device.deallocate p d with ⟨e | _, d₁⟩ <;> rw [hd] at h
      · cases h
        exact .refused hd
      · exact .released hd (ih h)
  · intro h
    induction h with
    | done => rfl
    | refused hd => simp only [releaseEach, hd]
    | released hd _ ih => simp only [releaseEach, hd, ih]

theorem GivesBack.exists_releasing {e : PoolError} (h : GivesBack ps d (.error e) d') :
    ∃ p cause, e = .releasing p cause := by
  generalize hr : (Except.error e : Except PoolError Unit) = r at h
  induction h with
  | done => cases hr
  | refused =>
    cases hr
    exact ⟨_, _, rfl⟩
  | released _ _ ih => exact ih hr

end BufferPool.Pool
