import BufferPool.Proofs.Pool.Flush

/-! # Tidy pools

A pool is tidy if it would be sound with other pins and flags in its frames.
That takes no account of the pins, and so no bound on how many there are.
-/

namespace BufferPool.Pool

variable {δ : Type} {n : Nat} {b : Pool δ n} {f g : Fin n} {p q : PageId}

/-- With other pins and flags in its frames the pool is sound. -/
def Tidy (b : Pool δ n) : Prop :=
  ∃ frames : Vector Frame n, ({ b with frames } : Pool δ n).Sound ∧
    ∀ g : Fin n, (frames.get g).page = (b.frames.get g).page

theorem Sound.tidy (h : b.Sound) : b.Tidy := ⟨b.frames, h, fun _ => rfl⟩

namespace Tidy

theorem frameOf?_iff (h : b.Tidy) : b.frameOf? p = some f ↔ (b.frames.get f).page = some p := by
  obtain ⟨frames, hs, hpage⟩ := h
  rw [← hpage f]
  exact hs.frameOf?_iff p f

theorem page_eq (h : b.Tidy) (hp : b.frameOf? p = some f) : (b.frames.get f).page = some p :=
  h.frameOf?_iff.mp hp

theorem frameOf?_injective (h : b.Tidy) (hp : b.frameOf? p = some f)
    (hq : b.frameOf? q = some f) : p = q :=
  Option.some.inj ((h.page_eq hp).symm.trans (h.page_eq hq))

theorem frame_ne (h : b.Tidy) (hpq : p ≠ q) (hp : b.frameOf? p = some f)
    (hq : b.frameOf? q = some g) : f ≠ g := by
  rintro rfl
  exact hpq (h.frameOf?_injective hp hq)

theorem head_ne (h : b.Tidy) {free : List (Fin n)} (hf : b.free = f :: free)
    (hp : b.frameOf? p = some g) : f ≠ g := by
  obtain ⟨frames, hs, -⟩ := h
  exact hs.head_ne hf hp

theorem of_peek (h : b.Tidy) (hf : b.replacer.peek = some f) : ∃ p, b.frameOf? p = some f := by
  obtain ⟨frames, hs, -⟩ := h
  exact (hs.of_peek hf).1

theorem congr (h : b.Tidy) {b' : Pool δ n} (table : b'.table = b.table) (free : b'.free = b.free)
    (replacer : b'.replacer = b.replacer)
    (page : ∀ g : Fin n, (b'.frames.get g).page = (b.frames.get g).page) : b'.Tidy := by
  obtain ⟨frames, hs, hpage⟩ := h
  exact ⟨frames, hs.congr rfl table free replacer, fun g => (hpage g).trans (page g).symm⟩

theorem modify (h : b.Tidy) (f : Fin n) {k : Frame → Frame} (hk : ∀ x, (k x).page = x.page) :
    (b.modifyFrame f k).Tidy :=
  h.congr rfl rfl rfl (apply_modifyFrame b f Frame.page hk)

theorem flushNow [Device δ] (h : b.Tidy) (p : PageId) : (b.flushNow p).2.Tidy := by
  obtain ⟨htable, hfree, hreplacer⟩ := flushNow_books b p
  exact h.congr htable hfree hreplacer (Settles.flushNow b p).page

theorem page_modifyFrame {frames : Vector Frame n}
    (hpage : ∀ g : Fin n, (frames.get g).page = (b.frames.get g).page) (x : Frame) (g : Fin n) :
    ((({ b with frames } : Pool δ n).modifyFrame f fun _ => x).frames.get g).page =
      ((b.modifyFrame f fun _ => x).frames.get g).page := by
  rw [getElem_modifyFrame, getElem_modifyFrame]
  split
  · rfl
  · exact hpage g

theorem vacate (h : b.Tidy) (hp : b.frameOf? p = some f) : (b.vacate f p).Tidy := by
  obtain ⟨frames, hs, hpage⟩ := h
  exact ⟨_, hs.vacate hp, page_modifyFrame hpage Frame.empty⟩

theorem seat (h : b.Tidy) {free : List (Fin n)} (hf : b.free = f :: free)
    (hp : b.frameOf? p = none) (data : Page) : (b.seat f p data).Tidy := by
  obtain ⟨frames, hs, hpage⟩ := h
  exact ⟨_, hs.seat hf hp, page_modifyFrame hpage ⟨some p, 1, false, data⟩⟩

theorem requeue (h : b.Tidy) {free : List (Fin n)} (hf : b.free = f :: free) :
    (b.requeue f).Tidy := by
  obtain ⟨frames, hs, hpage⟩ := h
  exact ⟨_, hs.requeue hf, page_modifyFrame hpage Frame.empty⟩

theorem discard (h : b.Tidy) (hp : b.frameOf? p = some f) : (b.discard f p).Tidy := by
  obtain ⟨frames, hs, hpage⟩ := h
  exact ⟨_, hs.discard hp, page_modifyFrame hpage Frame.empty⟩

theorem rerank (h : b.Tidy) (hp : b.frameOf? p = some f) {r : Replacer (Fin n)} (hr : r.Sound)
    (hev : ∀ g, g ≠ f → r.isEvictable g = b.replacer.isEvictable g) :
    Tidy { b with replacer := r } := by
  obtain ⟨frames, hs, hpage⟩ := h
  have hk : ∀ x : Frame, ({ x with pins := if r.isEvictable f = true then 0 else 1 } : Frame).page =
      x.page := fun _ => rfl
  refine ⟨_, hs.repin (k := fun x => { x with pins := if r.isEvictable f = true then 0 else 1 }) hp
    hr hk hev ?_, fun g => (apply_modifyFrame _ f Frame.page hk g).trans (hpage g)⟩
  dsimp only
  split <;> simp_all

theorem pin (h : b.Tidy) (hp : b.frameOf? p = some f) :
    Tidy { b with replacer := b.replacer.pin f } := by
  have hr : b.replacer.Sound := h.choose_spec.1.replacer
  refine h.rerank hp hr.pin fun g hg => ?_
  rw [Replacer.isEvictable_pin hr]
  simp [hg]

theorem release (h : b.Tidy) (hp : b.frameOf? p = some f) (last : Prop) [Decidable last] :
    Tidy { b with replacer := if last then b.replacer.unpin f else b.replacer } := by
  split
  · refine h.rerank hp h.choose_spec.1.replacer.unpin fun g hg => ?_
    rw [Replacer.isEvictable_unpin]
    simp [hg]
  · exact h

end Tidy

end BufferPool.Pool
