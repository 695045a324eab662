import BufferPool.Proofs.Pool.Ids
import BufferPool.Proofs.Session.Basic

/-! # Pages that nobody received

A request for a new page that fails leaves the allocation of the disk as it
was, unless an id cannot be given back. Then the page that was deleted under
that id is on the disk again.
-/

namespace BufferPool.Session

open Pool OnMemory MemoryDisk

variable {δ : Type} [Device δ] [OnMemory δ] {n : Nat} {s : Session δ n} {a : Action n}
  {as : List (Action n)}

omit [OnMemory δ] in
/-- Pages come and go only when a page is created, fetched or deleted. -/
theorem settles_step (s : Session δ n) (a : Action n) :
    Settles s.pool (s.step a).pool ∨
      a = .call .new ∨ ∃ p, a = .call (.fetch p) ∨ a = .call (.delete p) := by
  cases a with
  | call c =>
    cases c with
    | new => exact Or.inr (Or.inl rfl)
    | fetch p => exact Or.inr (Or.inr ⟨p, Or.inl rfl⟩)
    | delete p => exact Or.inr (Or.inr ⟨p, Or.inr rfl⟩)
    | unpin p dirty => exact Or.inl (.unpin s.pool p dirty)
    | flush p =>
      simp only [step, after, flush_eq_flushNow]
      exact Or.inl (.flushNow s.pool p)
    | flushAll => exact Or.inl (.flushEach s.pool _)
  | put f offset new => exact Or.inl (.of_frames rfl rfl rfl fun _ => rfl)
  | beginFlush p =>
    have hsettles := Settles.beginFlush s.pool p
    simp only [step]
    generalize s.pool.beginFlush p = r at hsettles
    obtain ⟨_ | _, b⟩ := r <;> exact Or.inl hsettles
  | writeWindow i =>
    simp only [step]
    split
    · exact Or.inl (.writeBack s.pool _ _)
    · exact Or.inl (.refl s.pool)
  | closeWindow i =>
    simp only [step]
    split
    · exact Or.inl (.closeWindow s.pool _ _)
    · exact Or.inl (.refl s.pool)

theorem issued_step (h : s.pool.Issued none) (hroom : (memory s.pool.device).next ≠ PageId.invalid)
    (a : Action n) : (s.step a).pool.Issued none := by
  rcases settles_step s a with hsettles | rfl | ⟨p, rfl | rfl⟩
  · exact h.quiet hsettles.quiet
  · exact (h.new (Or.inl hroom)).1
  · exact (h.fetch p).1
  · exact (h.delete p).1

theorem issued_run (h : s.pool.Issued none)
    (hroom : s.Along (fun s _ => (memory s.pool.device).next ≠ PageId.invalid) as) :
    (s.run as).pool.Issued none := by
  induction as generalizing s with
  | nil => exact h
  | cons a as ih => exact ih (issued_step h hroom.1 a) hroom.2

/-- Whatever requests fail, a new page that nobody receives leaves every page on the disk. It leaves
the same pages there if and only if it does not fail at giving an id back, which is that of a
deleted page in the pool. That page is then on the disk again. -/
theorem allocation_kept_iff (r : Replacer (Fin n)) {d : FaultyDisk MemoryDisk}
    (hd : d.device.Ordered) (log : Option Log) (as : List (Action n))
    (hroom : (start (.create r d log)).Along
      (fun s _ => s.pool.device.device.next ≠ PageId.invalid) (as ++ [.call .new]))
    (b : Pool (FaultyDisk MemoryDisk) n) (hb : b = ((start (.create r d log)).run as).pool)
    (hnone : ∀ f, b.new.1 ≠ .ok (some f)) :
    (∀ p, b.device.device.isAllocated p = true → b.new.2.device.device.isAllocated p = true) ∧
      ((∀ p, b.new.2.device.device.isAllocated p = b.device.device.isAllocated p) ↔
        ∀ p e, b.new.1 ≠ .error (.releasing p e)) ∧
      ∀ p e, b.new.1 = .error (.releasing p e) → b.isCached p = true ∧
        b.device.device.isAllocated p = false ∧ b.new.2.device.device.isAllocated p = true := by
  obtain ⟨hrun, hlast, -⟩ := along_append.mp hroom
  have hissued : b.Issued none := hb ▸ issued_run (.create r hd log) hrun
  obtain ⟨-, ids, hids, hcreates⟩ := hissued.new (Or.inl (hb ▸ hlast))
  have hkept := fun p hp => (hids.isAllocated_iff p).mpr (Or.inl hp)
  have hback : ∀ p ∈ ids, b.device.device.isAllocated p = false ∧
      b.new.2.device.device.isAllocated p = true :=
    fun p hp => ⟨hids.absent p hp, (hids.isAllocated_iff p).mpr (Or.inr hp)⟩
  refine ⟨hkept, ?_⟩
  generalize b.new.1 = answer at hnone hcreates
  cases hcreates with
  | created => exact absurd rfl (hnone _)
  | @unreleased _ p e ids hp hcached =>
    obtain ⟨hbefore, hafter⟩ := hback p hp
    constructor
    · refine iff_of_false (fun hsame => ?_) (fun hne => hne p e rfl)
      rw [hsame, hbefore] at hafter
      cases hafter
    · rintro q e' heq
      cases heq
      exact ⟨hcached, hbefore, hafter⟩
  | nothing _ hreleased =>
    constructor
    · refine iff_of_true (fun p => Bool.eq_iff_iff.mpr ?_) hreleased
      exact (hids.isAllocated_iff p).trans (by simp; rfl)
    · exact fun p e he => absurd he (hreleased p e)

def unplugged : FaultyDisk MemoryDisk where
  device := .empty
  deallocations := .burst 1 1 fun _ => .io (.other "device unplugged")

/-- The deleted page is on the disk again. -/
theorem not_kept_unplugged :
    let s := start (.create (.lru { capacity := 2 }) unplugged none : Pool _ 2)
    let b := (s.run [.call .new, .call (.delete 0)]).pool
    s.Along (fun s _ => s.pool.device.device.next ≠ PageId.invalid)
        ([.call .new, .call (.delete 0)] ++ [.call .new]) ∧
      (∀ f, b.new.1 ≠ .ok (some f)) ∧ b.device.device.isAllocated 0 = false ∧
      b.new.2.device.device.isAllocated 0 = true := by
  intro s b
  have hroom : s.Along (fun s _ => s.pool.device.device.next ≠ PageId.invalid)
      ([.call .new, .call (.delete 0)] ++ [.call .new]) := by decide +kernel
  have herror : b.new.1 = .error (.releasing 0 (.io (.other "device unplugged"))) := by
    decide +kernel
  have hnone : ∀ f, b.new.1 ≠ .ok (some f) := by
    rw [herror]
    exact nofun
  obtain ⟨-, -, hreleasing⟩ := allocation_kept_iff (.lru { capacity := 2 }) (d := unplugged)
    MemoryDisk.ordered_empty none _ hroom b rfl hnone
  exact ⟨hroom, hnone, (hreleasing 0 _ herror).2⟩

end BufferPool.Session
