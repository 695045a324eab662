import Mathlib.Data.Set.Basic
import BufferPool.Proofs.Disk.Lawful
import BufferPool.Proofs.Session.Valid

/-! # What a session keeps

No bytes are lost between a frame and the device. What the device holds of a
page was in its frame, unless the page is dirty, or a flush of it has not
written yet, or a user is going to mark it.
-/

namespace BufferPool.Session

open Pool Storage

variable {δ : Type} {n : Nat} [Device δ] [Lawful δ] {s t : Session δ n} {e : Event n}
  {p q : PageId}

/-- The books of the device are in order, and it knows the cached pages. -/
structure Backed (s : Session δ n) : Prop where
  ok : Ok s.pool.device
  known : ∀ (p : PageId) (f : Fin n), s.pool.frameOf? p = some f → Known s.pool.device p

theorem writeBack_spec {b b' : Pool δ n} {data : Page} {r : Except PoolError Unit}
    (hok : Ok b.device) (h : b.writeBack p data = (r, b')) : Steady b.device b'.device ∧
      ((r = .ok () ∧ page? b'.device = Function.update (page? b.device) p (some data)) ∨
        (r.isOk = true → page? b.device p = none) ∧ page? b'.device = page? b.device) := by
  unfold writeBack at h
  rcases hw : Device.write p data b.device with ⟨e | _, d⟩
  · rw [hw] at h
    cases h
    obtain ⟨hs, hpage, hmissing⟩ := Lawful.write_error hok hw
    refine ⟨hs, Or.inr ⟨fun hr => hmissing ?_, hpage⟩⟩
    rcases he : e.isMissing with _ | _
    · rw [he] at hr
      cases hr
    · rfl
  · rw [hw] at h
    cases h
    obtain ⟨hs, -, hpage⟩ := Lawful.write_ok hok hw
    exact ⟨hs, Or.inl ⟨rfl, hpage⟩⟩

theorem Move.steady (hm : Move s e t) (hok : Ok s.pool.device) (he : e.allocates = false) :
    Steady s.pool.device t.pool.device := by
  cases hm with
  | missed | hit | evicted | released | put | opened => exact .refl hok
  | saved hp hd hw => exact (Lawful.write_ok hok hw).1
  | dropped hp hd hw | refused hp hd hw => exact (Lawful.write_error hok hw).1
  | loaded hp hf hr | unread hp hf hr => exact (Lawful.read hok hr).1
  | created | unallocated => cases he
  | undeleted hd => exact (Lawful.deallocate_error hok hd).1
  | deleted hp hd | condemned hp hpins hd | freed hp hpins hd =>
    exact (Lawful.deallocate_ok hok hd).1
  | written hi => exact (writeBack_spec hok rfl).1
  | @closed i w answer hi =>
    simp only [closeWindow_eq]
    exact .refl hok

theorem Backed.isKnown (h : s.Backed) {p : PageId} (hp : s.pool.isCached p = true) :
    Known s.pool.device p := by
  obtain ⟨f, hf⟩ := Option.isSome_iff_exists.mp hp
  exact h.known p f hf

omit [Lawful δ] in
theorem Move.cached (hm : Move s e t) {f : Fin n} (hp : t.pool.frameOf? p = some f) :
    s.pool.frameOf? p = some f ∨ e = .loaded p f ∨ e = .created p f := by
  cases hm with
  | evicted | freed =>
    apply Or.inl
    simp only [frameOf?_modifyStats, frameOf?_vacate, frameOf?_discard] at hp
    split at hp
    · cases hp
    · exact hp
  | loaded | created =>
    simp only [frameOf?_modifyStats, frameOf?_seat] at hp
    split at hp
    · rename_i he
      subst he
      cases hp
      simp
    · exact Or.inl hp
  | @written i w =>
    apply Or.inl
    simpa only [frameOf?, writeWindow, (writeBack_books s.pool w.page _).1] using hp
  | @closed i w answer =>
    rw [frameOf?_closeWindow] at hp
    exact Or.inl hp
  | _ => exact Or.inl hp

theorem Backed.grown (h : s.Backed) (hm : Move s e t) (he : e.allocates = true)
    (hroom : Room s.pool.device 1) : Grown s.pool.device t.pool.device ∧
      ∀ p f, e = .created p f → Known t.pool.device p ∧ page? s.pool.device p = none ∧
        ∃ x, Fresh δ x ∧ page? t.pool.device p = some x := by
  cases hm with
  | @created p f free b hp hf ha =>
    obtain ⟨hg, hans⟩ := allocateUnused_spec h.ok hroom (fun p => h.isKnown) ha
    refine ⟨hg, ?_⟩
    rintro _ _ ⟨⟩
    exact hans p rfl
  | unallocated hf ha =>
    refine ⟨(allocateUnused_spec h.ok hroom (fun p => h.isKnown) ha).1, ?_⟩
    rintro _ _ ⟨⟩
  | _ => cases he

theorem Backed.move (h : s.Backed) (hm : Move s e t)
    (hroom : e.allocates = true → Room s.pool.device 1) : t.Backed := by
  rcases he : e.allocates with _ | _
  · have hs := hm.steady h.ok he
    refine ⟨hs.ok, fun p f hp => ?_⟩
    rcases hm.cached hp with hp | rfl | rfl
    · exact hs.known p (h.known p f hp)
    · cases hm with
      | loaded _ _ hr =>
        obtain ⟨hs, -, hx⟩ := Lawful.read h.ok hr
        exact hs.known p (Lawful.known_of_page? h.ok (hx _ rfl))
    · cases he
  · obtain ⟨hg, hnew⟩ := h.grown hm he (hroom he)
    refine ⟨hg.ok, fun p f hp => ?_⟩
    rcases hm.cached hp with hp | rfl | rfl
    · exact hg.known p (h.known p f hp)
    · cases he
    · exact (hnew p f rfl).1

/-- A chain of moves leaves the device in order, since its allocation comes last. It uses up one new
id at most. -/
theorem Backed.moves {es : List (Event n)} (h : s.Backed) (hm : Moves s es t)
    (hroom : Room s.pool.device 1) :
    t.Backed ∧ ∀ m, Room s.pool.device (m + 1) → Room t.pool.device m := by
  induction hm with
  | nil => exact ⟨h, fun m => room_of_le (Nat.le_succ m)⟩
  | @cons s t u e es hm hlast hms ih =>
    have ht := h.move hm fun _ => hroom
    rcases he : e.allocates with _ | _
    · have hs := hm.steady h.ok he
      obtain ⟨hu, hleft⟩ := ih ht (hs.room 1 hroom)
      exact ⟨hu, fun m hr => hleft m (hs.room _ hr)⟩
    · obtain rfl := hlast he
      cases hms
      exact ⟨ht, (h.grown hm he hroom).1.room⟩

theorem Backed.moves_created {es : List (Event n)} {f : Fin n} (h : s.Backed) (hm : Moves s es t)
    (hroom : Room s.pool.device 1) (hc : .created p f ∈ es) :
    t.pool.frameOf? p = some f ∧ t.pool.frames.get f = ⟨some p, 1, false, Page.zero⟩ ∧
      ∃ x, Fresh δ x ∧ page? t.pool.device p = some x := by
  induction hm with
  | nil => cases hc
  | @cons s t u e es hm hlast hms ih =>
    rcases List.mem_cons.mp hc with rfl | hc
    · obtain rfl := hlast rfl
      cases hms
      obtain ⟨-, hnew⟩ := h.grown hm rfl hroom
      refine ⟨?_, ?_, (hnew p f rfl).2.2⟩
      all_goals cases hm
      · exact (frameOf?_seat Page.zero).trans (if_pos rfl)
      · exact getElem_seat.trans (if_pos rfl)
    · rcases he : e.allocates with _ | _
      · exact ih (h.move hm fun _ => hroom) ((hm.steady h.ok he).room 1 hroom) hc
      · rw [hlast he] at hc
        cases hc

/-- The device is owed bytes of `p`: the page is dirty, or a flush of it has not written. -/
def Unsaved (s : Session δ n) (p : PageId) : Prop :=
  (∃ f, s.pool.frameOf? p = some f ∧ (s.pool.frames.get f).dirty = true) ∨
    ∃ w ∈ s.flights, w.isUnsavedOn p = true

/-- Page `p` is stored. Its frame holds one of the contents `C`, and so does the device, except
while a user who has the page pinned is still to mark it or, if the device may be late, while it is
owed bytes. -/
structure Kept (s : Session δ n) (p : PageId) (C : Set Page) (late owed : Prop) : Prop where
  mem : ∀ f, s.pool.frameOf? p = some f → (s.pool.frames.get f).data ∈ C
  stored : ∃ x, page? s.pool.device p = some x ∧ (x ∈ C ∨ late ∧ s.Unsaved p ∨ owed)
  pinned : owed → (∃ f, s.pool.frameOf? p = some f) ∧ (s.pins p).returned < (s.pins p).handed

theorem isOpenOn_of_isUnsavedOn {w : Flight n} (hu : w.isUnsavedOn p = true) :
    w.isOpenOn p = true := by
  obtain ⟨w, stage⟩ := w
  rcases stage with _ | ⟨_ | _⟩ | _ <;>
    simp_all [Flight.isUnsavedOn, Flight.isUnsaved, Flight.isOpenOn, Flight.isOpen]

omit [Device δ] [Lawful δ] in
theorem windowsOn_pos {w : Flight n} (hw : w ∈ s.flights) (hu : w.isUnsavedOn p = true) :
    0 < s.windowsOn p :=
  List.countP_pos_iff.mpr ⟨w, hw, isOpenOn_of_isUnsavedOn hu⟩

omit [Device δ] [Lawful δ] in
theorem not_unsaved (hw : s.windowsOn p = 0)
    (hd : ∀ f, s.pool.frameOf? p = some f → (s.pool.frames.get f).dirty = false) :
    ¬s.Unsaved p := by
  rintro (⟨f, hf, hd'⟩ | ⟨w, hm, hu⟩)
  · rw [hd f hf] at hd'
    cases hd'
  · have := windowsOn_pos hm hu
    omega

namespace Unsaved

omit [Device δ] [Lawful δ] in
theorem still (h : s.Unsaved q)
    (frameOf? : ∀ f, s.pool.frameOf? q = some f → t.pool.frameOf? q = some f)
    (dirty : ∀ f : Fin n, s.pool.frameOf? q = some f → (s.pool.frames.get f).dirty = true →
      (t.pool.frames.get f).dirty = true)
    (flights : ∀ w ∈ s.flights, w.isUnsavedOn q = true → w ∈ t.flights) : t.Unsaved q := by
  rcases h with ⟨f, hf, hd⟩ | ⟨w, hw, hu⟩
  · exact Or.inl ⟨f, frameOf? f hf, dirty f hf hd⟩
  · exact Or.inr ⟨w, flights w hw hu, hu⟩

omit [Device δ] [Lawful δ] in
theorem aside (h : s.Unsaved q)
    (frameOf? : ∀ f, s.pool.frameOf? q = some f → t.pool.frameOf? q = some f)
    (frames : ∀ f : Fin n, s.pool.frameOf? q = some f → t.pool.frames.get f = s.pool.frames.get f)
    (flights : t.flights = s.flights) : t.Unsaved q := by
  refine h.still frameOf? (fun f hf hd => ?_) (fun w hw _ => flights ▸ hw)
  rw [frames f hf, hd]

omit [Lawful δ] in
theorem written (h : s.Unsaved q) {i : Nat} {w : Window n}
    (hi : s.flights[i]? = some ⟨w, .opened⟩)
    (hq : w.page = q → (s.pool.writeWindow w).1.isOk = false) :
    Unsaved { s with
      pool := (s.pool.writeWindow w).2
      flights := s.flights.set i ⟨w, .written (s.pool.writeWindow w).1⟩ } q := by
  have hx : (s.pool.writeWindow w).2.frames = s.pool.frames := frames_writeBack ..
  rcases h with ⟨f, hf, hd⟩ | ⟨v, hv, hu⟩
  · refine Or.inl ⟨f, ?_, ?_⟩
    · simpa only [frameOf?, writeWindow, (writeBack_books s.pool w.page _).1] using hf
    · simpa only [hx] using hd
  · by_cases hvw : v = ⟨w, .opened⟩
    · subst hvw
      have hpage : w.page = q := by simpa [Flight.isUnsavedOn, Flight.isUnsaved] using hu
      refine Or.inr ⟨_, List.mem_set (List.getElem?_eq_some_iff.mp hi).1 _, ?_⟩
      have hfail := hq hpage
      rcases hr : (s.pool.writeWindow w).1 with e | _
      · exact hu
      · rw [hr] at hfail
        cases hfail
    · exact Or.inr ⟨v, mem_set_of_ne hi hv hvw _, hu⟩

omit [Device δ] [Lawful δ] in
theorem closed (h : s.Unsaved q) (hv : s.Valid) {i : Nat} {w : Window n}
    {answer : Except PoolError Unit} (hi : s.flights[i]? = some ⟨w, .written answer⟩) :
    Unsaved { s with
      pool := s.pool.closeWindow w answer
      flights := s.flights.set i ⟨w, .closed answer⟩ } q := by
  have hp : s.pool.frameOf? w.page = some w.frame := hv.inFrame _ (List.mem_of_getElem? hi) rfl
  rcases h with ⟨f, hf, hd⟩ | ⟨v, hm, hu⟩
  · refine Or.inl ⟨f, frameOf?_closeWindow.trans hf, ?_⟩
    rw [getElem_closeWindow]
    split
    · rename_i he
      simp only [he, hd, Bool.true_or]
    · exact hd
  · by_cases hvw : v = ⟨w, .written answer⟩
    · subst hvw
      obtain ⟨hfail, rfl⟩ : answer.isOk = false ∧ w.page = q := by
        rcases answer with e | _
        · exact ⟨rfl, by simpa [Flight.isUnsavedOn, Flight.isUnsaved] using hu⟩
        · cases hu
      refine Or.inl ⟨w.frame, frameOf?_closeWindow.trans hp, ?_⟩
      rw [getElem_closeWindow, if_pos rfl]
      simp [hfail]
    · exact Or.inr ⟨v, mem_set_of_ne hi hm hvw _, hu⟩

omit [Lawful δ] in
theorem move_hit (h : s.Unsaved q) {f : Fin n} (hm : Move s (.hit p f) t) : t.Unsaved q := by
  cases hm with
  | hit hp hpins =>
    have frame := apply_modifyFrame s.pool f Frame.dirty
      (h := fun x => { x with pins := x.pins + 1 }) fun _ => rfl
    exact h.still (fun _ => id) (fun g _ hd => (frame g).trans hd) fun _ hw _ => hw

omit [Lawful δ] in
theorem move_released (h : s.Unsaved q) {f : Fin n} {dirty : Bool}
    (hm : Move s (.released p f dirty) t) : t.Unsaved q := by
  cases hm with
  | released hp hpins hfair =>
    refine h.still (fun _ => id) (fun g _ hd => ?_) fun _ hw _ => hw
    simp only [getElem_modifyFrame]
    split
    · rename_i he
      rw [he, hd, Bool.true_or]
    · exact hd

omit [Lawful δ] in
theorem move_opened (h : s.Unsaved q) (hv : s.Valid) {f : Fin n} (hm : Move s (.opened p f) t) :
    t.Unsaved q := by
  cases hm with
  | opened hp hpins hfit hd =>
    rcases h with ⟨g, hg, hd'⟩ | ⟨w, hw, hu⟩
    · by_cases hpq : p = q
      · refine Or.inr ⟨_, List.mem_append_right _ (List.mem_singleton_self _), ?_⟩
        simp [Flight.isUnsavedOn, Flight.isUnsaved, hpq]
      · refine Or.inl ⟨g, hg, ?_⟩
        have hfg := hv.sound.frame_ne hpq hp hg
        exact (congrArg _ ((getElem_modifyFrame _ f _ g).trans (if_neg hfg))).trans hd'
    · exact Or.inr ⟨w, List.mem_append_left _ hw, hu⟩

end Unsaved

namespace Kept

variable {C D : Set Page} {late owed : Prop}

theorem still (h : s.Kept q C late owed) (frameOf? : t.pool.frameOf? q = s.pool.frameOf? q)
    (frames : ∀ f, s.pool.frameOf? q = some f →
      (t.pool.frames.get f).data = (s.pool.frames.get f).data)
    (unsaved : s.Unsaved q → t.Unsaved q)
    (device : page? t.pool.device q = page? s.pool.device q)
    (pins : owed → (s.pins q).returned < (s.pins q).handed →
      (t.pins q).returned < (t.pins q).handed) : t.Kept q C late owed where
  mem f hf := by
    rw [frameOf?] at hf
    rw [frames f hf]
    exact h.mem f hf
  stored := by
    obtain ⟨x, hx, hC⟩ := h.stored
    exact ⟨x, device.trans hx, hC.imp_right (Or.imp_left (And.imp_right unsaved))⟩
  pinned ho := by
    rw [frameOf?]
    exact ⟨(h.pinned ho).1, pins ho (h.pinned ho).2⟩

theorem settled (h : s.Kept q C late owed) (hun : late → ¬s.Unsaved q)
    (howed : ¬owed) : ∃ x ∈ C, page? s.pool.device q = some x := by
  obtain ⟨x, hx, hC⟩ := h.stored
  exact ⟨x, hC.resolve_right (not_or.mpr ⟨fun hl => hun hl.1 hl.2, howed⟩), hx⟩

theorem not_owed (h : s.Kept q C late owed) (hp : s.pool.frameOf? q = none) : ¬owed := by
  intro ho
  obtain ⟨f, hf⟩ := (h.pinned ho).1
  rw [hp] at hf
  cases hf

theorem aside (h : s.Kept q C late owed) (frameOf? : t.pool.frameOf? q = s.pool.frameOf? q)
    (frames : ∀ f : Fin n, s.pool.frameOf? q = some f → t.pool.frames.get f = s.pool.frames.get f)
    (flights : t.flights = s.flights)
    (device : page? t.pool.device q = page? s.pool.device q) (pins : t.pins q = s.pins q) :
    t.Kept q C late owed := by
  refine h.still frameOf? (fun f hf => congrArg _ (frames f hf)) (fun hu => ?_) device ?_
  · exact hu.aside (fun f hf => frameOf?.trans hf) frames flights
  · rw [pins]
    exact fun _ => id

theorem written (h : s.Kept q C late owed) (hv : s.Valid) (hb : s.Backed) {i : Nat} {w : Window n}
    (hi : s.flights[i]? = some ⟨w, .opened⟩) :
    Kept { s with
      pool := (s.pool.writeWindow w).2
      flights := s.flights.set i ⟨w, .written (s.pool.writeWindow w).1⟩ } q C late owed := by
  have hp : s.pool.frameOf? w.page = some w.frame := hv.inFrame _ (List.mem_of_getElem? hi) rfl
  have hx : (s.pool.writeWindow w).2.frames = s.pool.frames := frames_writeBack ..
  have hq : ∀ p, (s.pool.writeWindow w).2.frameOf? p = s.pool.frameOf? p := fun p => by
    simp only [frameOf?, writeWindow, (writeBack_books s.pool w.page _).1]
  have hunsaved : w.page ≠ q ∨ (s.pool.writeWindow w).1.isOk = false → s.Unsaved q →
      Unsaved { s with
        pool := (s.pool.writeWindow w).2
        flights := s.flights.set i ⟨w, .written (s.pool.writeWindow w).1⟩ } q :=
    fun hne hu => hu.written hi fun hpage => hne.resolve_left (not_not_intro hpage)
  rcases hr : s.pool.writeWindow w with ⟨r, b⟩
  obtain ⟨-, hspec⟩ := writeBack_spec hb.ok hr
  simp only [hr] at hx hq hunsaved ⊢
  have hdata : ∀ f : Fin n, (b.frames.get f).data = (s.pool.frames.get f).data := fun f => by
    rw [hx]
  rcases hspec with ⟨-, hpage⟩ | ⟨hmissing, hpage⟩
  · by_cases hpq : w.page = q
    · subst hpq
      refine ⟨fun g hg => ?_, ⟨_, (congrFun hpage _).trans (Function.update_self ..), Or.inl ?_⟩,
        fun ho => ?_⟩
      · rw [hdata]
        exact h.mem g ((hq _).symm.trans hg)
      · exact h.mem _ hp
      · rw [hq]
        exact h.pinned ho
    · refine h.still (hq q) (fun g _ => hdata g) (hunsaved (Or.inl hpq)) ?_ (fun _ => id)
      exact (congrFun hpage q).trans (Function.update_of_ne (Ne.symm hpq) ..)
  · refine h.still (hq q) (fun g _ => hdata g) (hunsaved ?_) (congrFun hpage q) (fun _ => id)
    by_cases hpq : w.page = q
    · subst hpq
      obtain ⟨x, hs, -⟩ := h.stored
      refine Or.inr (Bool.eq_false_iff.mpr fun hr => ?_)
      rw [hmissing hr] at hs
      cases hs
    · exact Or.inl hpq

theorem closed (h : s.Kept q C late owed) (hv : s.Valid) {i : Nat} {w : Window n}
    {answer : Except PoolError Unit} (hi : s.flights[i]? = some ⟨w, .written answer⟩) :
    Kept { s with
      pool := s.pool.closeWindow w answer
      flights := s.flights.set i ⟨w, .closed answer⟩ } q C late owed := by
  refine h.still frameOf?_closeWindow (fun g _ => ?_) (fun hu => hu.closed hv hi) ?_ (fun _ => id)
  · rw [getElem_closeWindow]
    split
    · rename_i he
      rw [← he]
    · rfl
  · simp only [closeWindow_eq]
    rfl

theorem move_hit (h : s.Kept q C late owed) {f : Fin n} (hm : Move s (.hit p f) t) :
    t.Kept q C late owed := by
  cases hm with
  | hit hp hpins =>
    have frame := fun g (_ : s.pool.frameOf? q = some g) => apply_modifyFrame s.pool f Frame.data
      (h := fun x => { x with pins := x.pins + 1 }) (fun _ => rfl) g
    refine h.still rfl frame (fun hu => hu.move_hit (.hit hp hpins)) rfl fun _ hlt => ?_
    by_cases hqp : q = p
    · subst hqp
      simp only [Function.update_self, Pins.handOut]
      omega
    · simpa only [Function.update_of_ne hqp] using hlt

theorem move_saved (hv : s.Valid) (hb : s.Backed) (h : s.Kept q C late owed) {f : Fin n}
    (hm : Move s (.saved p f) t) :
    t.Kept q C late owed := by
  cases hm with
  | saved hp hd hw =>
    obtain ⟨-, -, hpage⟩ := Lawful.write_ok hb.ok hw
    by_cases hpq : p = q
    · subst hpq
      refine ⟨fun g hg => ?_, ⟨(s.pool.frames.get f).data, ?_, Or.inl (h.mem f hp)⟩, h.pinned⟩
      · have hx := apply_modifyFrame s.pool f Frame.data (h := fun x => { x with dirty := false })
          (fun _ => rfl) g
        exact hx ▸ h.mem g hg
      · exact (congrFun hpage p).trans (Function.update_self ..)
    · refine h.aside rfl ?_ rfl ?_ rfl
      · exact fun g hg => (getElem_modifyFrame _ f _ g).trans (if_neg (hv.sound.frame_ne hpq hp hg))
      · exact (congrFun hpage q).trans (Function.update_of_ne (Ne.symm hpq) ..)

theorem move_evicted (hv : s.Valid) (h : s.Kept q C late owed) {f : Fin n}
    (hm : Move s (.evicted p f) t) :
    t.Kept q C late owed := by
  cases hm with
  | evicted hp hd hf hpeek =>
    by_cases hpq : p = q
    · subst hpq
      obtain ⟨hw, heq⟩ := hv.unused hp (hv.sound.of_peek hpeek).2
      have howed : ¬owed := fun ho => by have := (h.pinned ho).2; omega
      have hun : ¬s.Unsaved p := not_unsaved hw fun g hg => by
        rwa [← Option.some.inj (hp.symm.trans hg)]
      obtain ⟨x, hC, hx⟩ := h.settled (fun _ => hun) howed
      refine ⟨fun g hg => ?_, ⟨x, hx, Or.inl hC⟩, fun ho => absurd ho howed⟩
      rw [frameOf?_modifyStats, frameOf?_vacate, if_pos rfl] at hg
      cases hg
    · refine h.aside ?_ ?_ rfl rfl rfl
      · exact (frameOf?_vacate (f := f)).trans (if_neg hpq)
      · exact fun g hg => (getElem_vacate (p := p)).trans (if_neg (hv.sound.frame_ne hpq hp hg))

theorem move_loaded (hv : s.Valid) (hb : s.Backed) (h : s.Kept q C late owed) {f : Fin n}
    (hm : Move s (.loaded p f) t) :
    t.Kept q C late owed := by
  cases hm with
  | @loaded _ _ _ data _ hp hf hr =>
    obtain ⟨-, hpage, hdata⟩ := Lawful.read hb.ok hr
    by_cases hpq : p = q
    · subst hpq
      have howed := h.not_owed hp
      have hun : ¬s.Unsaved p := not_unsaved (hv.windowsOn_eq_zero hp) fun g hg => by
        rw [hp] at hg
        cases hg
      obtain ⟨x, hxC, hx⟩ := h.settled (fun _ => hun) howed
      obtain rfl : x = data := Option.some.inj (hx.symm.trans (hdata data rfl))
      refine ⟨fun g hg => ?_, ⟨x, (congrFun hpage p).trans hx, Or.inl hxC⟩,
        fun ho => absurd ho howed⟩
      rw [frameOf?_seat, if_pos rfl, Option.some.injEq] at hg
      rwa [getElem_seat, if_pos hg]
    · refine h.aside ((frameOf?_seat data).trans (if_neg hpq)) ?_ rfl (congrFun hpage q)
        (Function.update_of_ne (Ne.symm hpq) ..)
      exact fun g hg => getElem_seat.trans (if_neg (hv.sound.head_ne hf hg))

theorem move_released (h : s.Kept q C late owed) {f : Fin n} {dirty : Bool}
    (hm : Move s (.released p f dirty) t) (hrel : owed → q ≠ p) :
    t.Kept q C late owed := by
  cases hm with
  | released hp hpins hfair =>
    have frame := fun g (_ : s.pool.frameOf? q = some g) => apply_modifyFrame s.pool f Frame.data
      (h := fun x => { x with pins := x.pins - 1, dirty := x.dirty || dirty }) (fun _ => rfl) g
    refine h.still rfl frame (fun hu => hu.move_released (.released hp hpins hfair)) rfl ?_
    intro ho hlt
    simpa only [Function.update_of_ne (hrel ho)] using hlt

theorem move_opened (hv : s.Valid) (h : s.Kept q C late owed) {f : Fin n}
    (hm : Move s (.opened p f) t) :
    t.Kept q C late owed := by
  cases hm with
  | opened hp hpins hfit hd =>
    have frame := fun g (_ : s.pool.frameOf? q = some g) => apply_modifyFrame s.pool f Frame.data
      (h := fun x => { x with pins := x.pins + 1, dirty := false }) (fun _ => rfl) g
    exact h.still rfl frame (fun hu => hu.move_opened hv (.opened hp hpins hfit hd)) rfl
      fun _ => id

/-- Moves that do not touch the page, or do so fairly, keep it. -/
theorem move (hv : s.Valid) (hb : s.Backed) (h : s.Kept q C late owed) (hm : Move s e t)
    (hroom : e.allocates = true → Room s.pool.device 1) (hput : ∀ f, e ≠ .put f)
    (hdel : e.deallocated? ≠ some q) (hrel : owed → ∀ f dirty, e ≠ .released q f dirty) :
    t.Kept q C late owed := by
  cases hm with
  | missed => exact h.aside rfl (fun _ _ => rfl) rfl rfl rfl
  | hit hp hpins => exact h.move_hit (.hit hp hpins)
  | saved hp hd hw => exact h.move_saved hv hb (.saved hp hd hw)
  | @dropped p f d e hp hd hw he =>
    obtain ⟨-, hpage, hmissing⟩ := Lawful.write_error hb.ok hw
    have hpq : p ≠ q := by
      rintro rfl
      obtain ⟨x, hx, -⟩ := h.stored
      rw [hmissing he] at hx
      cases hx
    refine h.aside rfl ?_ rfl (congrFun hpage q) rfl
    exact fun g hg => (getElem_modifyFrame _ f _ g).trans (if_neg (hv.sound.frame_ne hpq hp hg))
  | refused hp hd hw he =>
    exact h.aside rfl (fun _ _ => rfl) rfl (congrFun (Lawful.write_error hb.ok hw).2.1 q) rfl
  | evicted hp hd hf hpeek => exact h.move_evicted hv (.evicted hp hd hf hpeek)
  | loaded hp hf hr => exact h.move_loaded hv hb (.loaded hp hf hr)
  | @unread p f free e d hp hf hr =>
    refine h.aside rfl ?_ rfl (congrFun (Lawful.read hb.ok hr).2.1 q) rfl
    exact fun g hg => getElem_requeue.trans (if_neg (hv.sound.head_ne hf hg))
  | @created p f free b hp hf ha =>
    obtain ⟨hg, hnew⟩ := allocateUnused_spec hb.ok (hroom rfl) (fun p => hb.isKnown) ha
    obtain ⟨x, hx, -⟩ := h.stored
    have hpq : p ≠ q := by
      rintro rfl
      rw [(hnew p rfl).2.1] at hx
      cases hx
    refine h.aside ((frameOf?_seat Page.zero).trans (if_neg hpq)) ?_ rfl
      ((hg.stored q x hx).trans hx.symm) (Function.update_of_ne hpq.symm ..)
    exact fun g hg => getElem_seat.trans (if_neg (hv.sound.head_ne hf hg))
  | @unallocated f free b e hf ha =>
    obtain ⟨hg, -⟩ := allocateUnused_spec hb.ok (hroom rfl) (fun p => hb.isKnown) ha
    obtain ⟨x, hx, -⟩ := h.stored
    refine h.aside rfl ?_ rfl ((hg.stored q x hx).trans hx.symm) rfl
    exact fun g hg => getElem_requeue.trans (if_neg (hv.sound.head_ne hf hg))
  | released hp hpins hfair =>
    apply h.move_released (.released hp hpins hfair)
    rintro ho rfl
    exact hrel ho _ _ rfl
  | undeleted hd =>
    exact h.aside rfl (fun _ _ => rfl) rfl
      (congrFun (Lawful.deallocate_error hb.ok hd).2 q) rfl
  | @deleted p d hp hd | @condemned p f d hp hpins hd =>
    have hpq : q ≠ p := fun hqp => hdel (congrArg some hqp.symm)
    refine h.aside rfl (fun _ _ => rfl) rfl ?_ rfl
    exact (congrFun (Lawful.deallocate_ok hb.ok hd).2 q).trans (Function.update_of_ne hpq ..)
  | @freed p f d hp hpins hd =>
    have hpq : q ≠ p := fun hqp => hdel (congrArg some hqp.symm)
    refine h.aside ?_ ?_ rfl ?_ rfl
    · exact (frameOf?_discard (f := f)).trans (if_neg hpq.symm)
    · exact fun g hg => (getElem_discard (p := p)).trans (if_neg (hv.sound.frame_ne hpq.symm hp hg))
    · exact (congrFun (Lawful.deallocate_ok hb.ok hd).2 q).trans (Function.update_of_ne hpq ..)
  | @put f => exact absurd rfl (hput f)
  | opened hp hpins hfit hd => exact h.move_opened hv (.opened hp hpins hfit hd)
  | written hi => exact h.written hv hb hi
  | closed hi => exact h.closed hv hi

theorem put (h : s.Kept q C late owed) {f : Fin n} {offset : Nat} {new : Bytes}
    (hseen : ∀ g, s.pool.frameOf? q = some g →
      ((s.pool.writeFrame f offset new).frames.get g).data ∈ C) :
    Kept { s with pool := s.pool.writeFrame f offset new } q C late owed where
  mem := hseen
  stored := by
    obtain ⟨x, hx, hC⟩ := h.stored
    refine ⟨x, hx, hC.imp_right (Or.imp_left (And.imp_right (Or.imp_left ?_)))⟩
    rintro ⟨g, hg, hd⟩
    refine ⟨g, hg, ?_⟩
    exact (apply_modifyFrame s.pool f Frame.dirty
      (h := fun x => { x with data := x.data.write offset new }) (fun _ => rfl) g).trans hd
  pinned := h.pinned

theorem moves {es : List (Event n)} (hv : s.Valid) (hb : s.Backed) (h : s.Kept q C late owed)
    (hm : Moves s es t) (hroom : Room s.pool.device 1) (hput : ∀ e ∈ es, ∀ f, e ≠ .put f)
    (hdel : ∀ e ∈ es, e.deallocated? ≠ some q)
    (hrel : owed → ∀ e ∈ es, ∀ f dirty, e ≠ .released q f dirty) : t.Kept q C late owed := by
  induction hm with
  | nil => exact h
  | @cons s t u e es hm hlast hms ih =>
    have ht := h.move hv hb hm (fun _ => hroom) (hput e List.mem_cons_self)
      (hdel e List.mem_cons_self) (fun ho => hrel ho e List.mem_cons_self)
    rcases he : e.allocates with _ | _
    · exact ih (hv.move hm) (hb.move hm fun _ => hroom) ht ((hm.steady hb.ok he).room 1 hroom)
        (fun e he => hput e (List.mem_cons_of_mem _ he))
        (fun e he => hdel e (List.mem_cons_of_mem _ he))
        (fun ho e he => hrel ho e (List.mem_cons_of_mem _ he))
    · obtain rfl := hlast he
      cases hms
      exact ht

end Kept

end BufferPool.Session
