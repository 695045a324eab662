import BufferPool.Proofs.Session.Valid

/-! # The account of pins

An action takes at most one more pin of a page, so a run cannot use up the
pins of a page before it is longer than there are any.
-/

namespace BufferPool.Session

open Pool

variable {δ : Type} [Device δ] {n : Nat} {s : Session δ n}

theorem held_update_le {pins : PageId → Pins} {p : PageId} {a : Pins}
    (ha : a.held ≤ (pins p).held + 1) (q : PageId) :
    (Function.update pins p a q).held ≤ (pins q).held + 1 := by
  by_cases hq : q = p
  · subst hq
    rwa [Function.update_self]
  · rw [Function.update_of_ne hq]
    exact Nat.le_succ _

theorem held_account (b : Pool δ n) (pins : PageId → Pins) (c : Call) (q : PageId) :
    (b.account pins c q).held ≤ (pins q).held + 1 := by
  have first : ∀ p, Pins.first.held ≤ (pins p).held + 1 := fun p => by simp [Pins.first, Pins.held]
  have handOut : ∀ p, (pins p).handOut.held ≤ (pins p).held + 1 := fun p => by
    simp only [Pins.handOut, Pins.held]; omega
  have takeBack : ∀ p, (pins p).takeBack.held ≤ (pins p).held + 1 := fun p => by
    simp only [Pins.takeBack, Pins.held]; omega
  cases c with
  | new =>
    simp only [account]
    rcases b.new with ⟨_ | _ | f, b'⟩
    · exact Nat.le_succ _
    · exact Nat.le_succ _
    · simp only
      rcases (b'.frames.get f).page with _ | p
      · exact Nat.le_succ _
      · exact held_update_le (first p) q
  | fetch p =>
    simp only [account]
    rcases (b.fetch p).1 with _ | _ | f
    · exact Nat.le_succ _
    · exact Nat.le_succ _
    · rcases b.isCached p with _ | _
      · exact held_update_le (first p) q
      · exact held_update_le (handOut p) q
  | unpin p dirty =>
    simp only [account]
    rcases (b.unpin p dirty).1 with _ | _
    · exact Nat.le_succ _
    · exact held_update_le (takeBack p) q
  | flush | flushAll | delete => exact Nat.le_succ _

theorem held_add_windowsOn_step (s : Session δ n) (a : Action n) (p : PageId) :
    ((s.step a).pins p).held + (s.step a).windowsOn p ≤ (s.pins p).held + s.windowsOn p + 1 := by
  cases a with
  | call c =>
    have := held_account s.pool s.pins c p
    simp only [step, windowsOn]
    omega
  | put f offset new => exact Nat.le_succ _
  | beginFlush q =>
    simp only [step]
    split
    · exact Nat.le_succ _
    · simp only [windowsOn, List.countP_append, List.countP_singleton]
      split <;> omega
  | writeWindow i =>
    simp only [step]
    split
    · rename_i w hi
      have := countP_set_add hi ⟨w, .written (s.pool.writeWindow w).1⟩ (Flight.isOpenOn p)
      simp only [windowsOn]
      simp only [Flight.isOpenOn, Flight.isOpen] at this ⊢
      omega
    · exact Nat.le_succ _
  | closeWindow i =>
    simp only [step]
    split
    · rename_i w answer hi
      have := countP_set_add hi ⟨w, .closed answer⟩ (Flight.isOpenOn p)
      simp only [windowsOn]
      simp only [Flight.isOpenOn, Flight.isOpen, Bool.false_and, Bool.toNat_false] at this ⊢
      omega
    · exact Nat.le_succ _

theorem along_pinsFit {m : Nat} (as : List (Action n))
    (hm : ∀ p, (s.pins p).held + s.windowsOn p ≤ m)
    (hlt : m + as.length < UInt32.size) : s.Along (fun s a => (s.step a).PinsFit) as := by
  induction as generalizing s m with
  | nil => trivial
  | cons a as ih =>
    rw [List.length_cons] at hlt
    have hstep := fun p => (held_add_windowsOn_step s a p).trans (Nat.succ_le_succ (hm p))
    exact ⟨fun p => (hstep p).trans_lt (by omega), ih hstep (by omega)⟩

end BufferPool.Session
