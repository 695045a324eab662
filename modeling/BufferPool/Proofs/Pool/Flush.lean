import Mathlib.Logic.Relation
import BufferPool.Proofs.Pool.Partition

/-! # Flushing without interruption

A flush that nobody interrupts does what a flush under the latch does, also for
a pinned page: the extra pin and the cleared flag leave no trace.
-/

namespace BufferPool.Pool

variable {δ : Type} {n : Nat}

theorem modifyFrame_modifyFrame (b : Pool δ n) (f : Fin n) (h k : Frame → Frame) :
    (b.modifyFrame f h).modifyFrame f k = b.modifyFrame f (k ∘ h) := by
  have hx : (b.modifyFrame f h).frames.get f = h (b.frames.get f) := by
    rw [getElem_modifyFrame, if_pos rfl]
  simp only [modifyFrame] at hx ⊢
  simp only [hx, Vector.set_set, Function.comp_apply]

theorem modifyFrame_congr {b : Pool δ n} {f : Fin n} {h k : Frame → Frame}
    (hx : h (b.frames.get f) = k (b.frames.get f)) : b.modifyFrame f h = b.modifyFrame f k := by
  simp only [modifyFrame, hx]

theorem modifyFrame_eq_self {b : Pool δ n} {f : Fin n} {h : Frame → Frame}
    (hx : h (b.frames.get f) = b.frames.get f) : b.modifyFrame f h = b := by
  simp only [modifyFrame, hx]
  congr 1
  exact (Vector.set_getElem_self f.isLt : b.frames.set f b.frames[f] = b.frames)

variable {b : Pool δ n} {f : Fin n} {p : PageId}

theorem closeWindow_eq (b : Pool δ n) (w : Window n) (answer : Except PoolError Unit) :
    b.closeWindow w answer = { b.modifyFrame w.frame fun x =>
        { x with pins := x.pins - 1, dirty := x.dirty || !answer.isOk } with
      replacer :=
        if (b.frames.get w.frame).pins = 1 then b.replacer.unpin w.frame else b.replacer } := by
  simp only [closeWindow]
  split <;> rfl

theorem frameOf?_closeWindow {w : Window n} {answer : Except PoolError Unit} :
    (b.closeWindow w answer).frameOf? p = b.frameOf? p := by
  rw [closeWindow_eq]
  rfl

theorem getElem_closeWindow {w : Window n} {answer : Except PoolError Unit} {g : Fin n} :
    (b.closeWindow w answer).frames.get g = if w.frame = g then
      ⟨(b.frames.get w.frame).page, (b.frames.get w.frame).pins - 1,
        (b.frames.get w.frame).dirty || !answer.isOk, (b.frames.get w.frame).data⟩
      else b.frames.get g := by
  rw [closeWindow_eq]
  simp only [getElem_modifyFrame]

theorem Sound.closeWindow (h : b.Sound) {w : Window n} (hp : b.frameOf? w.page = some w.frame)
    (hpins : (b.frames.get w.frame).pins ≠ 0) (answer : Except PoolError Unit) :
    (b.closeWindow w answer).Sound := by
  rw [closeWindow_eq]
  exact h.release hp hpins fun _ => ⟨rfl, rfl⟩

theorem unpin_eq {dirty : Bool} (hp : b.frameOf? p = some f) (hpins : (b.frames.get f).pins ≠ 0) :
    b.unpin p dirty = (true, { b.modifyFrame f fun x =>
        { x with pins := x.pins - 1, dirty := x.dirty || dirty } with
      replacer := if (b.frames.get f).pins = 1 then b.replacer.unpin f else b.replacer }) := by
  simp only [unpin, hp]
  rw [if_neg hpins]
  split <;> rfl

theorem unpin_eq_false_iff {dirty : Bool} : b.unpin p dirty = (false, b) ↔
    ∀ f, b.frameOf? p = some f → (b.frames.get f).pins = 0 := by
  rcases hp : b.frameOf? p with _ | f
  · simp [unpin, hp]
  · by_cases hpins : (b.frames.get f).pins = 0
    · simp [unpin, hp, hpins]
    · rw [unpin_eq hp hpins]
      simp [hpins]

theorem frameOf?_unpin (b : Pool δ n) (p : PageId) (dirty : Bool) (q : PageId) :
    (b.unpin p dirty).2.frameOf? q = b.frameOf? q := by
  rcases hp : b.frameOf? p with _ | f
  · simp only [unpin, hp]
  by_cases hpins : (b.frames.get f).pins = 0
  · simp only [unpin, hp, if_pos hpins]
  · rw [unpin_eq hp hpins]
    rfl

variable [Device δ]

theorem writeBack_modifyFrame (b : Pool δ n) (f : Fin n) (h : Frame → Frame) (p : PageId)
    (data : Page) : (b.modifyFrame f h).writeBack p data =
      ((b.writeBack p data).1, (b.writeBack p data).2.modifyFrame f h) := by
  simp only [writeBack, device_modifyFrame]
  rcases Device.write p data b.device with ⟨_ | _, d⟩ <;> rfl

theorem frames_writeBack (b : Pool δ n) (p : PageId) (data : Page) :
    (b.writeBack p data).2.frames = b.frames := by
  simp only [writeBack]
  rcases Device.write p data b.device with ⟨_ | _, d⟩ <;> rfl

theorem writeBack_books (b : Pool δ n) (p : PageId) (data : Page) :
    (b.writeBack p data).2.table = b.table ∧ (b.writeBack p data).2.free = b.free ∧
      (b.writeBack p data).2.replacer = b.replacer := by
  simp only [writeBack]
  rcases Device.write p data b.device with ⟨_ | _, d⟩ <;> exact ⟨rfl, rfl, rfl⟩

theorem flushNow_of_clean (hp : b.frameOf? p = some f) (hd : (b.frames.get f).dirty = false) :
    b.flushNow p = (.ok true, b) := by
  simp only [flushNow, hp]
  rw [if_neg (by rw [hd]; decide)]

theorem flushNow_of_dirty (hp : b.frameOf? p = some f) (hd : (b.frames.get f).dirty = true) :
    b.flushNow p = ((b.writeBack p (b.frames.get f).data).1.map fun _ => true,
      (b.writeBack p (b.frames.get f).data).2.modifyFrame f fun x =>
        { x with dirty := !(b.writeBack p (b.frames.get f).data).1.isOk }) := by
  simp only [flushNow, hp]
  rw [if_pos hd]
  have hf := frames_writeBack b p (b.frames.get f).data
  generalize b.writeBack p (b.frames.get f).data = r at hf
  obtain ⟨_ | _, b'⟩ := r
  · have hx : b'.modifyFrame f (fun x => { x with dirty := true }) = b' := by
      apply modifyFrame_eq_self
      rw [show b'.frames = b.frames from hf, ← hd]
    exact Prod.ext rfl hx.symm
  · rfl

theorem finishFlush_opened (hpins : (b.frames.get f).pins ≠ 0) :
    (b.modifyFrame f fun x => { x with pins := x.pins + 1, dirty := false }).finishFlush ⟨p, f⟩ =
      ((b.writeBack p (b.frames.get f).data).1.map fun _ => true,
        (b.writeBack p (b.frames.get f).data).2.modifyFrame f fun x =>
          { x with dirty := !(b.writeBack p (b.frames.get f).data).1.isOk }) := by
  have hf := frames_writeBack b p (b.frames.get f).data
  simp only [finishFlush, writeWindow, getElem_modifyFrame, if_true, writeBack_modifyFrame]
  generalize b.writeBack p (b.frames.get f).data = r at hf
  obtain ⟨answer, b'⟩ := r
  refine Prod.ext rfl ?_
  simp only [closeWindow, getElem_modifyFrame, if_true, modifyFrame_modifyFrame,
    show b'.frames = b.frames from hf]
  rw [if_neg (by simpa using hpins)]
  exact modifyFrame_congr (by simp)

theorem flush_eq_flushNow (b : Pool δ n) (p : PageId) : b.flush p = b.flushNow p := by
  unfold flush beginFlush
  rcases hp : b.frameOf? p with _ | f
  · simp only [flushNow, hp]
  by_cases hpins : (b.frames.get f).pins = 0
  · simp only [hpins, if_true]
  by_cases hd : (b.frames.get f).dirty = true
  · simp only [if_neg hpins, if_pos hd]
    exact (finishFlush_opened hpins).trans (flushNow_of_dirty hp hd).symm
  · simp only [if_neg hpins, if_neg hd]
    exact (flushNow_of_clean hp (Bool.eq_false_iff.mpr hd)).symm

/-- Only a page that is pinned and dirty is flushed in a window. -/
theorem beginFlush_eq_window {w : Window n} (h : (b.beginFlush p).1 = .window w) :
    ∃ f, b.frameOf? p = some f ∧ (b.frames.get f).pins ≠ 0 ∧ (b.frames.get f).dirty = true ∧
      w = ⟨p, f⟩ := by
  unfold beginFlush at h
  rcases hp : b.frameOf? p with _ | f
  · simp only [hp] at h
    cases h
  simp only [hp] at h
  split at h
  · cases h
  · rename_i hpins
    split at h
    · rename_i hd
      exact ⟨f, rfl, hpins, hd, (FlushStart.window.inj h).symm⟩
    · cases h

/-- A flush leaves the pool as it is, or it writes the page and marks its frame. -/
theorem flushNow_cases (b : Pool δ n) (p : PageId) : (b.flushNow p).2 = b ∨
    ∃ f data dirty, (b.flushNow p).2 = (b.writeBack p data).2.modifyFrame f fun x =>
      { x with dirty } := by
  rcases hp : b.frameOf? p with _ | f
  · exact Or.inl (by simp only [flushNow, hp])
  rcases hd : (b.frames.get f).dirty with _ | _
  · rw [flushNow_of_clean hp hd]
    exact Or.inl rfl
  · rw [flushNow_of_dirty hp hd]
    exact Or.inr ⟨f, _, _, rfl⟩

theorem flushNow_books (b : Pool δ n) (p : PageId) :
    (b.flushNow p).2.table = b.table ∧ (b.flushNow p).2.free = b.free ∧
      (b.flushNow p).2.replacer = b.replacer := by
  rcases flushNow_cases b p with h | ⟨f, data, dirty, h⟩
  · rw [h]
    exact ⟨rfl, rfl, rfl⟩
  · rw [h]
    exact writeBack_books b p data

theorem flushEach_induction {P : Pool δ n → Prop} (hflush : ∀ b p, P b → P (b.flushNow p).2)
    (h : P b) (ps : List PageId) : P (b.flushEach ps).2 := by
  induction ps generalizing b with
  | nil => exact h
  | cons p ps ih =>
    have hp := hflush b p h
    simp only [flushEach, flush_eq_flushNow]
    generalize b.flushNow p = r at hp
    obtain ⟨_ | _, b'⟩ := r
    · exact hp
    · exact ih hp

theorem frameOf?_flushNow (b : Pool δ n) (p q : PageId) :
    (b.flushNow p).2.frameOf? q = b.frameOf? q := by
  simp only [frameOf?, (flushNow_books b p).1]

/-- From `b` to `b'` pages were written to the device, and no page came or went in the pool. -/
structure Settles (b b' : Pool δ n) : Prop where
  device : Relation.ReflTransGen (fun d d' => ∃ p x r, Device.write p x d = (r, d'))
    b.device b'.device
  table : b'.table = b.table
  page : ∀ g : Fin n, (b'.frames.get g).page = (b.frames.get g).page

namespace Settles

variable {b' b'' : Pool δ n}

theorem refl (b : Pool δ n) : Settles b b := ⟨.refl, rfl, fun _ => rfl⟩

theorem trans (h : Settles b b') (h' : Settles b' b'') : Settles b b'' where
  device := h.device.trans h'.device
  table := h'.table.trans h.table
  page g := (h'.page g).trans (h.page g)

theorem keeps {P : δ → Prop} (h : Settles b b')
    (hwrite : ∀ {d d' : δ} {p : PageId} {x : Page} {r : Except DiskError Unit},
      P d → Device.write p x d = (r, d') → P d') (hb : P b.device) : P b'.device := by
  have hall : ∀ d, Relation.ReflTransGen (fun d d' => ∃ p x r, Device.write p x d = (r, d'))
      b.device d → P d := by
    intro d hd
    induction hd with
    | refl => exact hb
    | tail _ hw ih =>
      obtain ⟨p, x, r, hw⟩ := hw
      exact hwrite ih hw
  exact hall _ h.device

/-- A frame changes, but not its page. The free list, the replacer and the statistics do not
matter. -/
theorem of_frames {f : Fin n} {k : Frame → Frame} (device : b'.device = b.device)
    (table : b'.table = b.table) (frames : b'.frames = (b.modifyFrame f k).frames)
    (hk : ∀ x, (k x).page = x.page) : Settles b b' where
  device := by rw [device]
  table := table
  page g := by
    rw [frames]
    exact apply_modifyFrame b f Frame.page hk g

theorem writeBack (b : Pool δ n) (p : PageId) (data : Page) :
    Settles b (b.writeBack p data).2 := by
  refine ⟨.single ⟨p, data, ?_⟩, (writeBack_books b p data).1, fun g => by rw [frames_writeBack]⟩
  unfold Pool.writeBack
  rcases hw : Device.write p data b.device with ⟨e | _, d⟩ <;> exact ⟨_, rfl⟩

theorem flushNow (b : Pool δ n) (p : PageId) : Settles b (b.flushNow p).2 := by
  rcases flushNow_cases b p with h | ⟨f, data, dirty, h⟩
  · rw [h]
    exact .refl b
  · rw [h]
    exact (writeBack b p data).trans (.of_frames rfl rfl rfl fun _ => rfl)

theorem flushEach (b : Pool δ n) (ps : List PageId) : Settles b (b.flushEach ps).2 :=
  flushEach_induction (fun b' p h => h.trans (flushNow b' p)) (.refl b) ps

theorem unpin (b : Pool δ n) (p : PageId) (dirty : Bool) : Settles b (b.unpin p dirty).2 := by
  rcases hp : b.frameOf? p with _ | f
  · simp only [Pool.unpin, hp]
    exact .refl b
  by_cases hpins : (b.frames.get f).pins = 0
  · simp only [Pool.unpin, hp, if_pos hpins]
    exact .refl b
  · rw [unpin_eq hp hpins]
    exact .of_frames (k := fun x => { x with pins := x.pins - 1, dirty := x.dirty || dirty })
      rfl rfl rfl fun _ => rfl

theorem closeWindow (b : Pool δ n) (w : Window n) (written : Except PoolError Unit) :
    Settles b (b.closeWindow w written) := by
  rw [closeWindow_eq]
  exact .of_frames (k := fun x =>
    { x with pins := x.pins - 1, dirty := x.dirty || !written.isOk }) rfl rfl rfl fun _ => rfl

theorem beginFlush (b : Pool δ n) (p : PageId) : Settles b (b.beginFlush p).2 := by
  unfold Pool.beginFlush
  split
  · exact .refl b
  dsimp only
  split
  · exact flushNow b p
  · split
    · exact .of_frames rfl rfl rfl fun _ => rfl
    · exact .refl b

end Settles

theorem frameOf?_flushEach (b : Pool δ n) (ps : List PageId) (q : PageId) :
    (b.flushEach ps).2.frameOf? q = b.frameOf? q := by
  simp only [frameOf?, (Settles.flushEach b ps).table]

theorem dirty_of_flushNow (hp : b.frameOf? p = some f) (hok : (b.flushNow p).1.isOk = true) :
    ((b.flushNow p).2.frames.get f).dirty = false := by
  rcases hd : (b.frames.get f).dirty with _ | _
  · rw [flushNow_of_clean hp hd]
    exact hd
  · rw [flushNow_of_dirty hp hd] at hok ⊢
    simp only [getElem_modifyFrame, if_true]
    generalize (b.writeBack p (b.frames.get f).data).1 = answer at hok
    cases answer with
    | ok _ => rfl
    | error _ => exact absurd hok (by simp [Except.isOk, Except.toBool, Except.map])

theorem Sound.flushNow (h : b.Sound) (p : PageId) : (b.flushNow p).2.Sound := by
  rcases hp : b.frameOf? p with _ | f
  · simpa only [Pool.flushNow, hp] using h
  rcases hd : (b.frames.get f).dirty with _ | _
  · rwa [flushNow_of_clean hp hd]
  · rw [flushNow_of_dirty hp hd]
    obtain ⟨ht, hf, hr⟩ := writeBack_books b p (b.frames.get f).data
    have hx := frames_writeBack b p (b.frames.get f).data
    refine (h.congr hx ht hf hr).modify (f := f)
      (k := fun x => { x with dirty := !(b.writeBack p (b.frames.get f).data).1.isOk })
      (fun _ => rfl) (fun _ => rfl) fun hn => ?_
    rw [hx, h.page_eq hp] at hn
    cases hn

end BufferPool.Pool
