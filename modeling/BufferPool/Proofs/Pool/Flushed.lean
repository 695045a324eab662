import BufferPool.Proofs.Pool.Asks

/-! # Flushed pages

A flush writes the bytes of a dirty page once and marks the page as clean, and
nothing else moves. If the device fails, not even the mark does.
-/

namespace BufferPool

def Frame.marked (x : Frame) (dirty : Bool) : Frame := { x with dirty }

namespace Pool

open Storage

variable {δ : Type} {n : Nat} {b b' b₁ : Pool δ n} {f g : Fin n} {fs gs : List (Fin n)}
  {p : PageId}

/-- All pages are where they were, with their pins, their bytes and their turn to go. Only in the
frames `fs` can there be other marks. -/
structure Remarked (b : Pool δ n) (fs : List (Fin n)) (b' : Pool δ n) : Prop where
  table : b'.table = b.table
  free : b'.free = b.free
  replacer : b'.replacer = b.replacer
  frame : ∀ g, (b'.frames.get g).marked (b.frames.get g).dirty = b.frames.get g
  others : ∀ g, g ∉ fs → b'.frames.get g = b.frames.get g

namespace Remarked

theorem refl (b : Pool δ n) (fs : List (Fin n)) : b.Remarked fs b :=
  ⟨rfl, rfl, rfl, fun _ => rfl, fun _ _ => rfl⟩

theorem of_device {d : δ} (h : b.Remarked fs b') : b.Remarked fs { b' with device := d } :=
  ⟨h.table, h.free, h.replacer, h.frame, h.others⟩

theorem mono (h : b.Remarked fs b') (hfs : ∀ g ∈ fs, g ∈ gs) : b.Remarked gs b' :=
  { h with others := fun g hg => h.others g fun hmem => hg (hfs g hmem) }

theorem page_eq (h : b.Remarked fs b') (g : Fin n) :
    (b'.frames.get g).page = (b.frames.get g).page :=
  (congrArg Frame.page (h.frame g) :)

theorem trans (h : b.Remarked fs b₁) (h' : b₁.Remarked gs b') : b.Remarked (fs ++ gs) b' where
  table := h'.table.trans h.table
  free := h'.free.trans h.free
  replacer := h'.replacer.trans h.replacer
  frame g := (congrArg (Frame.marked · (b.frames.get g).dirty) (h'.frame g)).trans (h.frame g)
  others g hg := by
    rw [List.mem_append, not_or] at hg
    exact (h'.others g hg.2).trans (h.others g hg.1)

theorem tidy (h : b.Remarked fs b') (hb : b.Tidy) : b'.Tidy :=
  hb.congr h.table h.free h.replacer h.page_eq

theorem modify (h : b.Remarked fs b') (hf : f ∈ fs) (dirty : Bool) :
    b.Remarked fs (b'.modifyFrame f fun x => { x with dirty }) where
  table := h.table
  free := h.free
  replacer := h.replacer
  frame g :=
    (apply_modifyFrame b' f (Frame.marked · (b.frames.get g).dirty)
      (h := fun x => { x with dirty }) (fun _ => rfl) g).trans (h.frame g)
  others g hg := by
    have hne : f ≠ g := fun he => hg (he ▸ hf)
    rw [getElem_modifyFrame, if_neg hne]
    exact h.others g hg

end Remarked

variable [Device δ]

section Outcomes

variable {d : δ} {e : DiskError}

theorem flush_of_clean (hp : b.frameOf? p = some f) (hd : (b.frames.get f).dirty = false) :
    b.flush p = (.ok true, b) := by
  rw [flush_eq_flushNow, flushNow_of_clean hp hd]

theorem flush_of_ok (hp : b.frameOf? p = some f) (hd : (b.frames.get f).dirty = true)
    (hw : Device.write p (b.frames.get f).data b.device = (.ok (), d)) :
    b.flush p = (.ok true, ({ b with device := d }.modifyStats fun s =>
      { s with writeBacks := s.writeBacks + 1 }).modifyFrame f fun x =>
        { x with dirty := false }) := by
  simp only [flush_eq_flushNow, flushNow, hp, hd, if_true, writeBack, hw]

theorem flush_of_missing (hp : b.frameOf? p = some f) (hd : (b.frames.get f).dirty = true)
    (hw : Device.write p (b.frames.get f).data b.device = (.error e, d))
    (he : e.isMissing = true) :
    b.flush p = (.ok true, { b with device := d }.modifyFrame f fun x =>
      { x with dirty := false }) := by
  simp only [flush_eq_flushNow, flushNow, hp, hd, if_true, writeBack, hw, he]

theorem flush_of_error (hp : b.frameOf? p = some f) (hd : (b.frames.get f).dirty = true)
    (hw : Device.write p (b.frames.get f).data b.device = (.error e, d))
    (he : e.isMissing = false) :
    b.flush p = (.error (.writingBack p e), { b with device := d }) := by
  simp only [flush_eq_flushNow, flushNow, hp, hd, if_true, writeBack, hw, he, Bool.false_eq_true,
    if_false]

end Outcomes

theorem flush_modifyFrame (hp : b.frameOf? p = some f) (pins : UInt32) :
    (b.modifyFrame f fun x => { x with pins }).flush p =
      ((b.flushNow p).1, (b.flushNow p).2.modifyFrame f fun x => { x with pins }) := by
  have hp' : (b.modifyFrame f fun x => { x with pins }).frameOf? p = some f := hp
  have hf : (b.modifyFrame f fun x => { x with pins }).frames.get f =
      { b.frames.get f with pins } := by
    rw [getElem_modifyFrame, if_pos rfl]
  rw [flush_eq_flushNow]
  rcases hd : (b.frames.get f).dirty with _ | _
  · rw [flushNow_of_clean hp hd, flushNow_of_clean hp' (by rw [hf, hd])]
  · rw [flushNow_of_dirty hp hd, flushNow_of_dirty hp' (by rw [hf, hd]), hf, writeBack_modifyFrame,
      modifyFrame_modifyFrame, modifyFrame_modifyFrame]
    rfl

theorem remarked_flush (hp : b.frameOf? p = some f) : b.Remarked [f] (b.flush p).2 := by
  have hrefl := Remarked.refl b [f]
  rcases hd : (b.frames.get f).dirty with _ | _
  · rwa [flush_of_clean hp hd]
  · rcases hw : Device.write p (b.frames.get f).data b.device with ⟨e | _, d⟩
    · rcases he : e.isMissing with _ | _
      · rw [flush_of_error hp hd hw he]
        exact hrefl.of_device
      · rw [flush_of_missing hp hd hw he]
        exact hrefl.of_device.modify List.mem_cons_self false
    · rw [flush_of_ok hp hd hw]
      apply Remarked.modify _ List.mem_cons_self
      exact ⟨rfl, rfl, rfl, fun _ => rfl, fun _ _ => rfl⟩

/-- A flush that nobody interrupts does to a page what a flush in one step does, whatever its pins.
It makes no request for a clean page. The bytes of a dirty page are written once, and the page is
clean then, also if the device does not know it, in which case it has stored nothing and no write is
counted. If the device fails, the answer is the error and the pool is as it was. Nothing moves but
the mark of the page, and flushing a page again that was flushed makes no request. -/
theorem flush_paths_agree [Storage δ] [Pagewise δ] (hp : b.frameOf? p = some f) :
    (∀ pins, (b.modifyFrame f fun x => { x with pins }).flush p =
      ((b.flushNow p).1, (b.flushNow p).2.modifyFrame f fun x => { x with pins })) ∧
    ((b.frames.get f).dirty = false → b.flush p = (.ok true, b) ∧ b.asks (.flush p) = []) ∧
    ((b.frames.get f).dirty = true →
      b.asks (.flush p) = [.write p (b.frames.get f).data] ∧
      (∀ d, Device.write p (b.frames.get f).data b.device = (.ok (), d) →
        b.flush p = (.ok true, ({ b with device := d }.modifyStats fun s =>
          { s with writeBacks := s.writeBacks + 1 }).modifyFrame f fun x =>
            { x with dirty := false })) ∧
      ∀ e d, Device.write p (b.frames.get f).data b.device = (.error e, d) →
        page? d = page? b.device ∧
        (e.isMissing = true → b.flush p =
          (.ok true, { b with device := d }.modifyFrame f fun x => { x with dirty := false })) ∧
        (e.isMissing = false → b.flush p =
          (.error (.writingBack p e), { b with device := d }))) ∧
    b.Remarked [f] (b.flush p).2 ∧
    ((b.flush p).1.isOk = true → ((b.flush p).2.frames.get f).dirty = false ∧
      (b.flush p).2.flush p = (.ok true, (b.flush p).2) ∧
      (b.flush p).2.asks (.flush p) = []) := by
  refine ⟨flush_modifyFrame hp, fun hd => ⟨flush_of_clean hp hd, ?_⟩, fun hd => ⟨?_, ?_, ?_⟩,
    remarked_flush hp, fun hok => ?_⟩
  · rw [asks_flush hp, hd]
    rfl
  · rw [asks_flush hp, if_pos hd]
  · exact fun d hw => flush_of_ok hp hd hw
  · intro e d hw
    exact ⟨Pagewise.write_error hw, flush_of_missing hp hd hw, flush_of_error hp hd hw⟩
  · rw [flush_eq_flushNow] at hok ⊢
    have hclean := dirty_of_flushNow hp hok
    have hp' := (frameOf?_flushNow b p p).trans hp
    exact ⟨hclean, flush_of_clean hp' hclean, by rw [asks_flush hp', hclean]; rfl⟩

def contested : Pool (FaultyDisk MemoryDisk) 1 :=
  ((Session.start (create (.lru { capacity := 1 })
    { device := .empty, writes := .burst 0 1 fun _ => .io (.other "device unplugged") } none)).run
      [.call .new, .put ⟨0, Nat.one_pos⟩ 0 [7], .call (.unpin 0 true), .call (.fetch 0)]).pool

theorem flush_paths_agree_contested : contested.frameOf? 0 = some 0 ∧
    (contested.frames.get 0).pins = 1 ∧ (contested.frames.get 0).data.bytes.head? = some 7 ∧
    contested.asks (.flush 0) = [.write 0 (contested.frames.get 0).data] ∧
    (contested.flush 0).1 = .error (.writingBack 0 (.io (.other "device unplugged"))) ∧
    page? (contested.flush 0).2.device = page? contested.device ∧
    ((contested.flush 0).2.frames.get 0).dirty = true ∧
    ((contested.flush 0).2.flush 0).1 = .ok true ∧
    ((contested.flush 0).2.flush 0).2.asks (.flush 0) = [] := by
  have hp : contested.frameOf? 0 = some 0 := by decide +kernel
  have hd : (contested.frames.get 0).dirty = true := by decide +kernel
  have hw : Device.write 0 (contested.frames.get 0).data contested.device =
      (.error (.io (.other "device unplugged")),
        (Device.write 0 (contested.frames.get 0).data contested.device).2) :=
    Prod.ext (by decide +kernel) rfl
  obtain ⟨-, -, hdirty, hremarked, -⟩ := flush_paths_agree hp
  obtain ⟨hasks, -, herror⟩ := hdirty hd
  obtain ⟨hpage, -, hflush⟩ := herror _ _ hw
  have hp' : (contested.flush 0).2.frameOf? 0 = some 0 :=
    (congrArg (fun table => table[(0 : PageId)]?) hremarked.table).trans hp
  have hok : ((contested.flush 0).2.flush 0).1 = .ok true := by decide +kernel
  obtain ⟨-, -, -, -, hagain⟩ := flush_paths_agree hp'
  rw [hflush rfl] at hok hagain ⊢
  exact ⟨hp, by decide +kernel, by decide +kernel, hasks, rfl, hpage, hd, hok,
    (hagain (congrArg Except.isOk hok)).2.2⟩

end Pool

end BufferPool
