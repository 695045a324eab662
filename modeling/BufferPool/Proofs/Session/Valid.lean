import BufferPool.Proofs.Session.Move

/-! # Valid sessions

The books of a valid session balance: its pool is sound, the page of every
flush in its window sits in the frame that the flush knows, and the pins of a
cached page are those that its users hold and one for each such flush.
-/

namespace BufferPool.Session

open Pool

variable {δ : Type} {n : Nat}

structure Valid (s : Session δ n) : Prop where
  sound : s.pool.Sound
  inFrame : ∀ w ∈ s.flights, w.isOpen = true →
    s.pool.frameOf? w.window.page = some w.window.frame
  pins_eq : ∀ (p : PageId) (f : Fin n), s.pool.frameOf? p = some f →
    (s.pool.frames.get f).pins.toNat + (s.pins p).returned = (s.pins p).handed + s.windowsOn p
  returned_le : ∀ p, (s.pins p).returned ≤ (s.pins p).handed

section Counts

variable {x : UInt32}

theorem add_one_ne_zero (h : x.toNat + 1 < UInt32.size) : x + 1 ≠ 0 := by
  intro hx
  have := congrArg UInt32.toNat hx
  rw [UInt32.toNat_add, UInt32.toNat_one, UInt32.toNat_zero] at this
  unfold UInt32.size at h
  omega

theorem toNat_add_one (h : x + 1 ≠ 0) : (x + 1).toNat = x.toNat + 1 := by
  have hx := x.toNat_lt
  have hn : (x + 1).toNat ≠ 0 := fun hn => h (UInt32.toNat_inj.mp hn)
  rw [UInt32.toNat_add, UInt32.toNat_one] at hn ⊢
  omega

theorem toNat_sub_one (h : x ≠ 0) : (x - 1).toNat + 1 = x.toNat := by
  have hn : x.toNat ≠ 0 := fun hn => h (UInt32.toNat_inj.mp hn)
  rw [UInt32.toNat_sub_of_le x 1 (UInt32.le_iff_toNat_le.mpr (Nat.one_le_iff_ne_zero.mpr hn)),
    UInt32.toNat_one]
  omega

end Counts

theorem windowsOn_pos_iff {s : Session δ n} {p : PageId} :
    0 < s.windowsOn p ↔ ∃ w ∈ s.flights, w.isOpen = true ∧ w.window.page = p := by
  simp [windowsOn, List.countP_pos_iff, Flight.isOpenOn]

theorem countP_set_add {α : Type} {ws : List α} {i : Nat} {w : α} (hi : ws[i]? = some w) (w' : α)
    (k : α → Bool) : (ws.set i w').countP k + (k w).toNat = ws.countP k + (k w').toNat := by
  obtain ⟨hlt, rfl⟩ := List.getElem?_eq_some_iff.mp hi
  have hpos : k ws[i] = true → 0 < ws.countP k := fun hk =>
    List.countP_pos_iff.mpr ⟨_, List.getElem_mem hlt, hk⟩
  rw [List.countP_set hlt]
  rcases hk : k ws[i] with _ | _
  · rw [if_neg (by decide)]
    cases k w' <;> rfl
  · have := hpos hk
    rw [if_pos rfl]
    cases k w' <;> simp <;> omega

theorem mem_set_of_ne {α : Type} {ws : List α} {i : Nat} {v w : α} (hi : ws[i]? = some v)
    (hw : w ∈ ws) (hne : w ≠ v) (w' : α) : w ∈ ws.set i w' := by
  obtain ⟨j, hj⟩ := List.mem_iff_getElem?.mp hw
  refine List.mem_iff_getElem?.mpr ⟨j, ?_⟩
  rw [List.getElem?_set_ne, hj]
  rintro rfl
  exact hne (Option.some.inj (hj.symm.trans hi))

theorem flights_step [Device δ] {s : Session δ n} {a : Action n} {i : Nat} {w : Window n}
    {stage : Stage} (hi : s.flights[i]? = some ⟨w, stage⟩) :
    (s.step a).flights[i]? = some ⟨w, stage⟩ ∨
      (a = .writeWindow i ∧ stage = .opened ∧
        (s.step a).flights[i]? = some ⟨w, .written (s.pool.writeWindow w).1⟩) ∨
      ∃ answer, a = .closeWindow i ∧ stage = .written answer ∧
        (s.step a).flights[i]? = some ⟨w, .closed answer⟩ := by
  have hlt := (List.getElem?_eq_some_iff.mp hi).1
  cases a with
  | call | put => exact Or.inl hi
  | beginFlush p =>
    apply Or.inl
    simp only [step]
    split
    · exact hi
    · exact (List.getElem?_append_left hlt).trans hi
  | writeWindow j =>
    by_cases hij : j = i
    · subst hij
      cases stage with
      | opened =>
        refine Or.inr (Or.inl ⟨rfl, rfl, ?_⟩)
        simp only [step, hi]
        exact List.getElem?_set_self hlt
      | written | closed =>
        apply Or.inl
        simp only [step, hi]
    · apply Or.inl
      simp only [step]
      split
      · exact (List.getElem?_set_ne hij).trans hi
      · exact hi
  | closeWindow j =>
    by_cases hij : j = i
    · subst hij
      cases stage with
      | written answer =>
        refine Or.inr (Or.inr ⟨answer, rfl, rfl, ?_⟩)
        simp only [step, hi]
        exact List.getElem?_set_self hlt
      | opened | closed =>
        apply Or.inl
        simp only [step, hi]
    · apply Or.inl
      simp only [step]
      split
      · exact (List.getElem?_set_ne hij).trans hi
      · exact hi

/-- What an opened and a written flush pass on to the next stage holds of a flush at any later
time. -/
theorem flights_run [Device δ] {P : Stage → Prop}
    (hwritten : ∀ answer, P .opened → P (.written answer))
    (hclosed : ∀ answer, P (.written answer) → P (.closed answer)) {s : Session δ n}
    (as : List (Action n)) {i : Nat} {w : Window n} {stage : Stage}
    (hi : s.flights[i]? = some ⟨w, stage⟩) (h : P stage) :
    ∃ stage', (s.run as).flights[i]? = some ⟨w, stage'⟩ ∧ P stage' := by
  induction as generalizing s stage with
  | nil => exact ⟨stage, hi, h⟩
  | cons a as ih =>
    rcases flights_step (a := a) hi with hi' | ⟨-, rfl, hi'⟩ | ⟨answer, -, rfl, hi'⟩
    · exact ih hi' h
    · exact ih hi' (hwritten _ h)
    · exact ih hi' (hclosed answer h)

theorem flights_run_closed [Device δ] {s : Session δ n} {as : List (Action n)} {i : Nat}
    {w : Window n} {answer : Except PoolError Unit}
    (hi : s.flights[i]? = some ⟨w, .closed answer⟩) :
    (s.run as).flights[i]? = some ⟨w, .closed answer⟩ := by
  obtain ⟨_, hi', rfl⟩ := flights_run (P := (· = .closed answer)) nofun nofun as hi rfl
  exact hi'

theorem flights_run_written [Device δ] {s : Session δ n} (as : List (Action n)) {i : Nat}
    {w : Window n} {answer : Except PoolError Unit}
    (hi : s.flights[i]? = some ⟨w, .written answer⟩) :
    (s.run as).flights[i]? = some ⟨w, .written answer⟩ ∨
      (s.run as).flights[i]? = some ⟨w, .closed answer⟩ := by
  have hclosed : ∀ answer', Stage.written answer' = .written answer ∨
      Stage.written answer' = .closed answer →
      Stage.closed answer' = .written answer ∨ Stage.closed answer' = .closed answer := by
    rintro answer' (h | h)
    · exact Or.inr (Stage.written.inj h ▸ rfl)
    · cases h
  obtain ⟨_, hi', rfl | rfl⟩ := flights_run
    (P := fun stage => stage = .written answer ∨ stage = .closed answer) nofun hclosed as hi
    (Or.inl rfl)
  · exact Or.inl hi'
  · exact Or.inr hi'

namespace Valid

variable {s t : Session δ n} {p q : PageId} {f g : Fin n}

theorem windowsOn_eq_zero (h : s.Valid) (hp : s.pool.frameOf? p = none) : s.windowsOn p = 0 := by
  by_contra hne
  obtain ⟨w, hw, ho, rfl⟩ := windowsOn_pos_iff.mp (Nat.pos_of_ne_zero hne)
  rw [h.inFrame w hw ho] at hp
  cases hp

theorem unused (h : s.Valid) (hp : s.pool.frameOf? p = some f)
    (hpins : (s.pool.frames.get f).pins = 0) :
    s.windowsOn p = 0 ∧ (s.pins p).returned = (s.pins p).handed := by
  have heq := h.pins_eq p f hp
  have hle := h.returned_le p
  rw [hpins, UInt32.toNat_zero] at heq
  omega

theorem toNat_pins (h : s.Valid) (hp : s.pool.frameOf? p = some f) :
    (s.pool.frames.get f).pins.toNat = (s.pins p).held + s.windowsOn p := by
  have heq := h.pins_eq p f hp
  have hle := h.returned_le p
  unfold Pins.held
  omega

theorem pins_ne_zero (h : s.Valid) {w : Flight n} (hw : w ∈ s.flights) (ho : w.isOpen = true) :
    (s.pool.frames.get w.window.frame).pins ≠ 0 := by
  intro hz
  have := (h.unused (h.inFrame w hw ho) hz).1
  have := windowsOn_pos_iff.mpr ⟨w, hw, ho, rfl⟩
  omega

theorem keep (h : s.Valid) (sound : t.pool.Sound)
    (frameOf? : ∀ p, t.pool.frameOf? p = s.pool.frameOf? p)
    (pins : ∀ f : Fin n, (t.pool.frames.get f).pins = (s.pool.frames.get f).pins)
    (flights : t.flights = s.flights) (account : t.pins = s.pins) : t.Valid where
  sound := sound
  inFrame w hw ho := by
    rw [flights] at hw
    rw [frameOf?, h.inFrame w hw ho]
  pins_eq p f hp := by
    rw [frameOf?] at hp
    rw [pins, account, windowsOn, flights]
    exact h.pins_eq p f hp
  returned_le p := by rw [account]; exact h.returned_le p

theorem unmap (h : s.Valid) (sound : t.pool.Sound) (hp : s.pool.frameOf? p = some f)
    (hpins : (s.pool.frames.get f).pins = 0)
    (frameOf? : ∀ q, t.pool.frameOf? q = if p = q then none else s.pool.frameOf? q)
    (pins : ∀ g : Fin n, g ≠ f → (t.pool.frames.get g).pins = (s.pool.frames.get g).pins)
    (flights : t.flights = s.flights) (account : t.pins = s.pins) : t.Valid where
  sound := sound
  inFrame w hw ho := by
    rw [flights] at hw
    have hin := h.inFrame w hw ho
    rw [frameOf?, if_neg, hin]
    rintro rfl
    have := (h.unused hp hpins).1
    have := windowsOn_pos_iff.mpr ⟨w, hw, ho, rfl⟩
    omega
  pins_eq q g hq := by
    rw [frameOf?] at hq
    split at hq
    · cases hq
    · rename_i hne
      rw [pins g, account, windowsOn, flights]
      · exact h.pins_eq q g hq
      · rintro rfl
        exact hne (h.sound.frameOf?_injective hp hq)
  returned_le p := by rw [account]; exact h.returned_le p

theorem map (h : s.Valid) (sound : t.pool.Sound) (hp : s.pool.frameOf? p = none)
    (hf : f ∈ s.pool.free)
    (frameOf? : ∀ q, t.pool.frameOf? q = if p = q then some f else s.pool.frameOf? q)
    (pins : ∀ g : Fin n,
      (t.pool.frames.get g).pins = if f = g then 1 else (s.pool.frames.get g).pins)
    (flights : t.flights = s.flights) (account : t.pins = Function.update s.pins p .first) :
    t.Valid where
  sound := sound
  inFrame w hw ho := by
    rw [flights] at hw
    have hin := h.inFrame w hw ho
    rw [frameOf?, if_neg, hin]
    rintro rfl
    rw [hp] at hin
    cases hin
  pins_eq q g hq := by
    rw [frameOf?] at hq
    rw [pins, account, windowsOn, flights]
    split at hq
    · rename_i he
      subst he
      obtain rfl : f = g := Option.some.inj hq
      rw [if_pos rfl, Function.update_self]
      have := h.windowsOn_eq_zero hp
      simp only [windowsOn] at this
      rw [this]; rfl
    · rename_i hne
      have hfg : f ≠ g := by
        rintro rfl
        exact h.sound.not_mem_free hq hf
      rw [if_neg hfg, Function.update_of_ne (Ne.symm hne)]
      exact h.pins_eq q g hq
  returned_le q := by
    rw [account]
    by_cases hq : q = p
    · subst hq
      simp [Pins.first]
    · rw [Function.update_of_ne hq]
      exact h.returned_le q

theorem repin (h : s.Valid) (sound : t.pool.Sound) (hp : s.pool.frameOf? p = some f)
    (frameOf? : ∀ q, t.pool.frameOf? q = s.pool.frameOf? q)
    (pins : ∀ g : Fin n, g ≠ f → (t.pool.frames.get g).pins = (s.pool.frames.get g).pins)
    (inFrame : ∀ w ∈ t.flights, w.isOpen = true →
      s.pool.frameOf? w.window.page = some w.window.frame)
    (windows : ∀ q, q ≠ p → t.windowsOn q = s.windowsOn q)
    (account : ∀ q, q ≠ p → t.pins q = s.pins q)
    (pins_eq : (t.pool.frames.get f).pins.toNat + (t.pins p).returned =
      (t.pins p).handed + t.windowsOn p)
    (returned_le : (t.pins p).returned ≤ (t.pins p).handed) : t.Valid where
  sound := sound
  inFrame w hw ho := by rw [frameOf?]; exact inFrame w hw ho
  pins_eq q g hq := by
    rw [frameOf?] at hq
    by_cases hqp : q = p
    · subst hqp
      obtain rfl : f = g := Option.some.inj (hp.symm.trans hq)
      exact pins_eq
    · have hgf : g ≠ f := by
        rintro rfl
        exact hqp (h.sound.frameOf?_injective hq hp)
      rw [pins g hgf, account q hqp, windows q hqp]
      exact h.pins_eq q g hq
  returned_le q := by
    by_cases hqp : q = p
    · subst hqp; exact returned_le
    · rw [account q hqp]; exact h.returned_le q

variable [Device δ]

theorem move_hit (h : s.Valid) (hm : Move s (.hit p f) t) : t.Valid := by
  have hs := h.sound
  cases hm with
  | hit hp hpins =>
    have heq := h.pins_eq p f hp
    have hle := h.returned_le p
    refine h.repin ?_ hp (fun _ => rfl) ?_ h.inFrame (fun _ _ => rfl) ?_ ?_ ?_
    · have hstats : ∀ k, (s.pool.modifyStats k).Sound := fun _ => hs.congr rfl rfl rfl rfl
      refine (hstats _).repin hp hs.replacer.pin (fun _ => rfl) ?_ ?_
      · intro g hg
        exact (Replacer.isEvictable_pin hs.replacer).trans (by simp [hg])
      · rw [Replacer.isEvictable_pin hs.replacer]
        simpa using hpins
    · intro g hg
      simp only [getElem_modifyFrame, if_neg hg.symm, frames_modifyStats]
    · intro q hq
      exact Function.update_of_ne hq _ _
    · simp only [getElem_modifyFrame, if_true, frames_modifyStats, Function.update_self,
        Pins.handOut, toNat_add_one hpins]
      simp only [windowsOn] at heq ⊢
      omega
    · simp only [Function.update_self, Pins.handOut]
      omega

theorem move_released (h : s.Valid) {dirty : Bool} (hm : Move s (.released p f dirty) t) :
    t.Valid := by
  have hs := h.sound
  cases hm with
  | released hp hpins hfair =>
    have heq := h.pins_eq p f hp
    have hle := h.returned_le p
    have hpred := toNat_sub_one hpins
    refine h.repin ?_ hp (fun _ => rfl) ?_ h.inFrame (fun _ _ => rfl) ?_ ?_ ?_
    · exact hs.release hp hpins fun _ => ⟨rfl, rfl⟩
    · intro g hg
      simp only [getElem_modifyFrame, if_neg hg.symm]
    · intro q hq
      exact Function.update_of_ne hq _ _
    · simp only [getElem_modifyFrame, if_true, Function.update_self, Pins.takeBack]
      simp only [windowsOn] at heq ⊢
      omega
    · simp only [Function.update_self, Pins.takeBack]
      omega

theorem move_opened (h : s.Valid) (hm : Move s (.opened p f) t) : t.Valid := by
  have hs := h.sound
  cases hm with
  | opened hp hpins hfit hd =>
    have heq := h.pins_eq p f hp
    have hw : ∀ q, windowsOn { s with flights := s.flights ++ [⟨⟨p, f⟩, .opened⟩] } q =
        s.windowsOn q + (p == q).toNat := by
      intro q
      simp only [windowsOn, List.countP_append, List.countP_singleton, Flight.isOpenOn,
        Flight.isOpen, Bool.true_and]
      cases p == q <;> rfl
    refine h.repin ?_ hp (fun _ => rfl) ?_ ?_ ?_ (fun _ _ => rfl) ?_ (h.returned_le p)
    · refine hs.repin (k := fun x => { x with pins := x.pins + 1, dirty := false }) hp hs.replacer
        (fun _ => rfl) (fun _ _ => rfl) ?_
      rw [hs.isEvictable_iff_pins hp]
      exact iff_of_false hpins hfit
    · intro g hg
      simp only [getElem_modifyFrame, if_neg hg.symm]
    · intro w hwm ho
      rcases List.mem_append.mp hwm with hwm | hwm
      · exact h.inFrame w hwm ho
      · rw [List.mem_singleton.mp hwm]
        exact hp
    · intro q hq
      exact (hw q).trans (by simp [hq.symm])
    · simp only [getElem_modifyFrame, if_true, toNat_add_one hfit]
      have := hw p
      simp only [windowsOn, beq_self_eq_true, Bool.toNat_true] at heq this ⊢
      omega

theorem move_written (h : s.Valid) {i : Nat} (hm : Move s (.written i) t) : t.Valid := by
  have hs := h.sound
  cases hm with
  | @written i w hi =>
    have hp := h.inFrame _ (List.mem_of_getElem? hi) rfl
    have hw := fun q => countP_set_add hi ⟨w, .written (s.pool.writeWindow w).1⟩
      (Flight.isOpenOn q)
    have hx := frames_writeBack s.pool w.page (s.pool.frames.get w.frame).data
    obtain ⟨ht, hf, hr⟩ := writeBack_books s.pool w.page (s.pool.frames.get w.frame).data
    have hq : ∀ q, (s.pool.writeWindow w).2.frameOf? q = s.pool.frameOf? q := fun q => by
      simp only [frameOf?, writeWindow, ht]
    have heq : ∀ g : Fin n,
        ((s.pool.writeWindow w).2.frames.get g).pins = (s.pool.frames.get g).pins := fun g => by
      simp only [writeWindow, hx]
    refine h.repin (hs.congr hx ht hf hr) hp hq (fun g _ => heq g) ?_
      (fun q _ => Nat.add_right_cancel (hw q)) (fun _ _ => rfl) ?_ (h.returned_le _)
    · intro v hv ho
      rcases List.mem_or_eq_of_mem_set hv with hv | rfl
      · exact h.inFrame v hv ho
      · exact hp
    · have := Nat.add_right_cancel (hw w.page)
      rw [windowsOn, this]
      exact (congrArg (fun x => UInt32.toNat x + _) (heq w.frame)).trans (h.pins_eq _ _ hp)

theorem move_closed (h : s.Valid) {i : Nat} (hm : Move s (.closed i) t) : t.Valid := by
  have hs := h.sound
  cases hm with
  | @closed i w answer hi =>
    have hm := List.mem_of_getElem? hi
    have hp : s.pool.frameOf? w.page = some w.frame := h.inFrame _ hm rfl
    have heq := h.pins_eq _ _ hp
    have hpins : (s.pool.frames.get w.frame).pins ≠ 0 := h.pins_ne_zero hm rfl
    have hpred := toNat_sub_one hpins
    have hw := fun q => countP_set_add hi ⟨w, .closed answer⟩ (Flight.isOpenOn q)
    simp only [Flight.isOpenOn, Flight.isOpen, Bool.true_and, Bool.false_and, Bool.toNat_false]
      at hw
    refine h.repin (hs.closeWindow hp hpins answer) hp (fun q => frameOf?_closeWindow) ?_ ?_ ?_
      (fun _ _ => rfl) ?_ (h.returned_le _)
    · intro g hg
      rw [getElem_closeWindow, if_neg hg.symm]
    · intro v hv ho
      rcases List.mem_or_eq_of_mem_set hv with hv | rfl
      · exact h.inFrame v hv ho
      · cases ho
    · intro q hq
      have := hw q
      rw [beq_false_of_ne hq.symm, Bool.toNat_false] at this
      exact this
    · have := hw w.page
      simp only [beq_self_eq_true, Bool.toNat_true] at this
      rw [getElem_closeWindow, if_pos rfl]
      simp only [windowsOn] at heq ⊢
      omega

theorem move {e : Event n} (h : s.Valid) (hm : Move s e t) : t.Valid := by
  have hs := h.sound
  cases hm with
  | missed | refused | undeleted | deleted | condemned =>
    exact h.keep (hs.congr rfl rfl rfl rfl) (fun _ => rfl) (fun _ => rfl) rfl rfl
  | hit hp hpins => exact h.move_hit (.hit hp hpins)
  | @saved p f d hp | @dropped p f d _ hp =>
    have hd : Sound { s.pool with device := d } := hs.congr rfl rfl rfl rfl
    refine h.keep ?_ (fun _ => rfl) (apply_modifyFrame _ f Frame.pins fun _ => rfl) rfl rfl
    exact (hd.clean hp).congr rfl rfl rfl rfl
  | @put f offset new =>
    exact h.keep (hs.writeFrame f offset new) (fun _ => rfl)
      (apply_modifyFrame _ f Frame.pins fun _ => rfl) rfl rfl
  | @evicted p f hp hd hf hv =>
    refine h.unmap ((hs.vacate hp).congr rfl rfl rfl rfl) hp (hs.of_peek hv).2
      (fun q => frameOf?_vacate (f := f)) ?_ rfl rfl
    intro g hg
    exact congrArg Frame.pins ((getElem_vacate (p := p)).trans (if_neg hg.symm))
  | @freed p f d hp hpins hd =>
    refine h.unmap (Sound.congr (Sound.discard (hs.congr rfl rfl rfl rfl) hp) rfl rfl rfl rfl)
      hp hpins (fun q => frameOf?_discard (f := f)) ?_ rfl rfl
    intro g hg
    exact congrArg Frame.pins ((getElem_discard (p := p)).trans (if_neg hg.symm))
  | @loaded p f free data d hp hf =>
    have hd : Sound { s.pool with device := d } := hs.congr rfl rfl rfl rfl
    refine h.map (hd.seat hf hp) hp (hf ▸ List.mem_cons_self) (fun q => frameOf?_seat _) ?_ rfl rfl
    intro g
    exact (congrArg Frame.pins getElem_seat).trans (apply_ite _ _ _ _)
  | @created p f free b hp hf =>
    refine h.map (Sound.congr (Sound.seat (hs.congr rfl rfl rfl rfl) hf hp) rfl rfl rfl rfl)
      hp (hf ▸ List.mem_cons_self) (fun q => frameOf?_seat Page.zero) ?_ rfl rfl
    intro g
    exact (congrArg Frame.pins getElem_seat).trans (apply_ite _ _ _ _)
  | @unread p f free e d hp hf =>
    have hd : Sound { s.pool with device := d } := hs.congr rfl rfl rfl rfl
    refine h.keep (hd.requeue hf) (fun _ => rfl) (fun g => ?_) rfl rfl
    exact hd.pins_requeue hf
  | @unallocated f free b e hf =>
    have hd : Sound { s.pool with device := b.device } := hs.congr rfl rfl rfl rfl
    refine h.keep (hd.requeue hf) (fun _ => rfl) (fun g => ?_) rfl rfl
    exact hd.pins_requeue hf
  | released hp hpins hfair => exact h.move_released (.released hp hpins hfair)
  | opened hp hpins hfit hd => exact h.move_opened (.opened hp hpins hfit hd)
  | written hi => exact h.move_written (.written hi)
  | closed hi => exact h.move_closed (.closed hi)

theorem moves {es : List (Event n)} (h : s.Valid) (hm : Moves s es t) : t.Valid := by
  induction hm with
  | nil => exact h
  | cons hm _ _ ih => exact ih (h.move hm)

theorem held_move {e : Event n} (h : s.Valid) (hm : Move s e t)
    (hp : s.pool.frameOf? p = some f) (hheld : (s.pins p).returned < (s.pins p).handed)
    (hrel : ∀ g dirty, e ≠ .released p g dirty) : t.pool.frameOf? p = some f ∧
      (t.pins p).returned < (t.pins p).handed ∧ ∀ g, e ≠ .created p g := by
  have hpins : (s.pool.frames.get f).pins ≠ 0 := fun hz => by
    have := (h.unused hp hz).2
    omega
  have ne : ∀ {q : PageId}, s.pool.frameOf? q = none → q ≠ p := by
    rintro q hq rfl
    rw [hp] at hq
    cases hq
  have hnew : ∀ g, e ≠ .created p g := by
    rintro g rfl
    cases hm with
    | created hq => exact ne hq rfl
  cases hm with
  | @hit q g hq =>
    refine ⟨hp, ?_, hnew⟩
    by_cases hqp : p = q
    · subst hqp
      simp only [Function.update_self, Pins.handOut]
      omega
    · simpa only [Function.update_of_ne hqp] using hheld
  | @evicted q g hq hd hf hv =>
    refine ⟨(frameOf?_vacate (f := g)).trans ((if_neg ?_).trans hp), hheld, hnew⟩
    rintro rfl
    obtain rfl := Option.some.inj (hp.symm.trans hq)
    exact hpins (h.sound.of_peek hv).2
  | @freed q g d hq hz =>
    refine ⟨(frameOf?_discard (f := g)).trans ((if_neg ?_).trans hp), hheld, hnew⟩
    rintro rfl
    obtain rfl := Option.some.inj (hp.symm.trans hq)
    exact hpins hz
  | @loaded q g free data d hq =>
    refine ⟨(frameOf?_seat data).trans ((if_neg (ne hq)).trans hp), ?_, hnew⟩
    simpa only [Function.update_of_ne (ne hq).symm] using hheld
  | @created q g free b hq =>
    refine ⟨(frameOf?_seat Page.zero).trans ((if_neg (ne hq)).trans hp), ?_, hnew⟩
    simpa only [Function.update_of_ne (ne hq).symm] using hheld
  | @released q g dirty hq =>
    have hqp : p ≠ q := by
      rintro rfl
      exact hrel g dirty rfl
    refine ⟨hp, ?_, hnew⟩
    simpa only [Function.update_of_ne hqp] using hheld
  | @written i w =>
    refine ⟨?_, hheld, hnew⟩
    simpa only [frameOf?, writeWindow, (writeBack_books s.pool w.page _).1] using hp
  | closed => exact ⟨frameOf?_closeWindow.trans hp, hheld, hnew⟩
  | _ => exact ⟨hp, hheld, hnew⟩

theorem held_moves {es : List (Event n)} (h : s.Valid) (hm : Moves s es t)
    (hp : s.pool.frameOf? p = some f) (hheld : (s.pins p).returned < (s.pins p).handed)
    (hrel : ∀ e ∈ es, ∀ g dirty, e ≠ .released p g dirty) : t.pool.frameOf? p = some f ∧
      (t.pins p).returned < (t.pins p).handed ∧ ∀ e ∈ es, ∀ g, e ≠ .created p g := by
  induction hm with
  | nil => exact ⟨hp, hheld, by simp⟩
  | cons hm _ _ ih =>
    obtain ⟨hp', hheld', hnew⟩ := h.held_move hm hp hheld (hrel _ List.mem_cons_self)
    obtain ⟨hp'', hheld'', hnew'⟩ := ih (h.move hm) hp' hheld'
      fun e he => hrel e (List.mem_cons_of_mem _ he)
    exact ⟨hp'', hheld'', List.forall_mem_cons.mpr ⟨hnew, hnew'⟩⟩

theorem fetch_fits (h : s.Valid) (hfit : (s.step (.call (.fetch p))).PinsFit)
    (hv : p ≠ PageId.invalid) (hp : s.pool.frameOf? p = some f) :
    (s.pool.frames.get f).pins + 1 ≠ 0 := by
  have hc : s.pool.isCached p = true := by simp [isCached, hp]
  have hle := h.returned_le p
  have hlt := hfit p
  simp only [step, account, fetch, if_neg hv, hp, hc, if_true, Function.update_self, Pins.handOut,
    Pins.held] at hlt
  apply add_one_ne_zero
  rw [h.toNat_pins hp, Pins.held]
  simp only [windowsOn] at hlt ⊢
  omega

theorem beginFlush_fits (h : s.Valid) (hfit : (s.step (.beginFlush p)).PinsFit)
    (hp : s.pool.frameOf? p = some f) (hpins : (s.pool.frames.get f).pins ≠ 0)
    (hd : (s.pool.frames.get f).dirty = true) : (s.pool.frames.get f).pins + 1 ≠ 0 := by
  have hlt := hfit p
  simp only [step, beginFlush, hp] at hlt
  rw [if_neg hpins, if_pos hd] at hlt
  apply add_one_ne_zero
  rw [h.toNat_pins hp]
  simp only [windowsOn, List.countP_append, List.countP_singleton, Flight.isOpenOn, Flight.isOpen,
    beq_self_eq_true, Bool.and_self, if_true] at hlt ⊢
  omega

theorem pinRoom {a : Action n} (h : s.Valid) (hfit : (s.step a).PinsFit) : s.PinRoom a := by
  cases a with
  | call c =>
    cases c with
    | fetch p => exact fun f => h.fetch_fits hfit
    | _ => trivial
  | beginFlush p => exact fun f => h.beginFlush_fits hfit
  | _ => trivial

theorem step_moves {a : Action n} (h : s.Valid) (ha : s.Orderly a) :
    ∃ es, Moves s es (s.step a) ∧ ∀ e ∈ es, s.Makes a e :=
  Session.step_moves h.sound.tidy ha.1 (h.pinRoom ha.2)

theorem held_step {a : Action n} (h : s.Valid) (ha : s.Orderly a)
    (hp : s.pool.frameOf? p = some f) (hheld : (s.pins p).returned < (s.pins p).handed)
    (hrel : ∀ dirty, a ≠ .call (.unpin p dirty)) :
    (s.step a).pool.frameOf? p = some f := by
  obtain ⟨es, hes, hmakes⟩ := h.step_moves ha
  refine (h.held_moves hes hp hheld fun e he g dirty heq => ?_).1
  subst heq
  exact hrel dirty (hmakes _ he).of_released

theorem step {a : Action n} (h : s.Valid) (ha : s.Orderly a) : (s.step a).Valid := by
  obtain ⟨es, hes, -⟩ := h.step_moves ha
  exact h.moves hes

theorem run {as : List (Action n)} (h : s.Valid) (has : s.Along Orderly as) :
    (s.run as).Valid := by
  induction as generalizing s with
  | nil => exact h
  | cons a as ih => exact ih (h.step has.1) has.2

omit [Device δ] in
theorem create {r : Replacer (Fin n)} (hr : r.Sound) (he : ∀ f, r.isEvictable f = false) (d : δ)
    (log : Option Log) : (Session.start (.create r d log)).Valid where
  sound := .create hr he d log
  inFrame _ hw := by cases hw
  pins_eq p f hp := by
    rw [Session.start, frameOf?_create] at hp
    cases hp
  returned_le _ := Nat.le_refl _

omit [Device δ] in
theorem start {c : Config} {d : δ} {log : Option Log} {b : Pool δ c.poolSize}
    (hb : Pool.ofConfig c d log = .ok b) : (Session.start b).Valid := by
  obtain ⟨r, hr, rfl⟩ := exists_create_of_ofConfig hb
  obtain ⟨hs, he⟩ := Replacer.ofPolicy_spec hr
  exact .create hs he d log

end Valid

end BufferPool.Session
