import BufferPool.Disk.Faulty
import BufferPool.Disk.Memory
import BufferPool.Proofs.Session.Account

/-! # Sessions of calls

When a pool is only called, no flush is ever in a window, and the pins of a
cached page are those that its users hold. After every call each frame is
free, pinned or evictable, whatever the call answered.
-/

namespace BufferPool.Session

open Pool

variable {δ : Type} [Device δ] {n : Nat} {s : Session δ n}

theorem flights_run_calls (s : Session δ n) (calls : List Call) :
    (s.run (calls.map .call)).flights = s.flights := by
  induction calls generalizing s with
  | nil => rfl
  | cons c calls ih => exact ih (s.step (.call c))

theorem along_orderly_calls (hs : s.flights = []) (calls : List Call)
    (hfit : s.Along (fun s a => ∀ p, ((s.step a).pins p).held < UInt32.size) (calls.map .call)) :
    s.Along Orderly (calls.map .call) := by
  induction calls generalizing s with
  | nil => trivial
  | cons c calls ih =>
    have hw : ∀ p, s.windowsOn p = 0 := fun p => by simp [windowsOn, hs]
    refine ⟨⟨?_, fun p => ?_⟩, ih hs hfit.2⟩
    · cases c with
      | unpin p dirty => exact Or.inl (hw p)
      | _ => trivial
    · have := hfit.1 p
      rwa [show (s.step (.call c)).windowsOn p = s.windowsOn p from rfl, hw p]

/-- Whatever is called and whatever the device answers, the frames stay partitioned, and the pins
of a cached page are those handed out since it came in and not given back. -/
theorem partitioned_run_calls {c : Config} {d : δ} {log : Option Log} {b : Pool δ c.poolSize}
    (hb : Pool.ofConfig c d log = .ok b) (calls : List Call)
    (hfit : (start b).Along (fun s a => ∀ p, ((s.step a).pins p).held < UInt32.size)
      (calls.map .call)) :
    ((start b).run (calls.map .call)).pool.Partitioned ∧
      ∀ (p : PageId) (f : Fin c.poolSize),
        ((start b).run (calls.map .call)).pool.frameOf? p = some f →
        (((start b).run (calls.map .call)).pool.frames.get f).pins.toNat +
            (((start b).run (calls.map .call)).pins p).returned =
          (((start b).run (calls.map .call)).pins p).handed := by
  have hv := (Valid.start hb).run (along_orderly_calls rfl calls hfit)
  refine ⟨hv.sound.partitioned, fun p f hp => ?_⟩
  have heq := hv.pins_eq p f hp
  rwa [windowsOn, flights_run_calls, show (start b).flights = [] from rfl,
    List.countP_nil, Nat.add_zero] at heq

theorem partitioned_after_failed_eviction :
    ∃ b : Pool (FaultyDisk MemoryDisk) 1, Pool.ofConfig ⟨1, .lruK 2⟩
        { device := .empty, writes := .burst 0 1 fun _ => .invalidPageId } none = .ok b ∧
      ((start b).run ([.new, .unpin 0 true, .new].map .call)).pool.Partitioned :=
  ⟨_, rfl, (partitioned_run_calls (c := ⟨1, .lruK 2⟩) rfl [.new, .unpin 0 true, .new]
    ((along_pinsFit (m := 0) _ (fun _ => Nat.le_refl _) (by decide)).imp
      fun _ _ h p => (Nat.le_add_right _ _).trans_lt (h p))).1⟩

end BufferPool.Session
