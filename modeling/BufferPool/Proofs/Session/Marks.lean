import BufferPool.Disk.Faulty
import BufferPool.Proofs.Session.Account
import BufferPool.Proofs.Session.Logged
import BufferPool.Proofs.Session.Undisturbed

/-! # Writes and marks

Every write of a page uses up a mark that a user set when he gave back a pin.
A mark lies in the dirty flag of the frame, or with a flush that has cleared
the flag and has not written yet, and a failed write gives it back.
-/

namespace BufferPool

open Journaled

variable {δ : Type} {n : Nat}

namespace Pool

variable {b : Pool δ n} {f g : Fin n} {p q : PageId}

theorem frameOf?_of_vacate (h : (b.vacate f p).frameOf? q = some g) : b.frameOf? q = some g := by
  rw [frameOf?_vacate] at h
  split at h
  · cases h
  · exact h

theorem frameOf?_of_discard (h : (b.discard f p).frameOf? q = some g) : b.frameOf? q = some g := by
  rw [frameOf?_discard] at h
  split at h
  · cases h
  · exact h

theorem frameOf?_of_seat (data : Page) (hg : f ≠ g) (h : (b.seat f p data).frameOf? q = some g) :
    b.frameOf? q = some g := by
  rw [frameOf?_seat] at h
  split at h
  · exact absurd (Option.some.inj h) hg
  · exact h

end Pool

namespace Session

open Pool

def marked (b : Pool δ n) (p : PageId) : Nat := if b.isDirty? p = some true then 1 else 0

/-- The user gives back a pin of the page and marks the page. -/
def marks (p : PageId) (s : Session δ n) : Action n → Bool
  | .call (.unpin q dirty) => q == p && dirty && (s.pool.unpin q dirty).1
  | _ => false

theorem marked_eq {b : Pool δ n} {p : PageId} {f : Fin n} (hp : b.frameOf? p = some f) :
    marked b p = ((b.frames.get f).dirty).toNat := by
  rw [marked, isDirty?_eq hp]
  cases (b.frames.get f).dirty <;> rfl

theorem marked_eq_zero {b : Pool δ n} {p : PageId} (hp : b.frameOf? p = none) : marked b p = 0 := by
  rw [marked, isDirty?, hp]
  rfl

theorem marked_le {b b' : Pool δ n} {p : PageId}
    (h : ∀ g, b'.frameOf? p = some g → (b'.frames.get g).dirty = true →
      b.frameOf? p = some g ∧ (b.frames.get g).dirty = true) : marked b' p ≤ marked b p := by
  rcases hp : b'.frameOf? p with _ | g
  · rw [marked_eq_zero hp]
    exact Nat.zero_le _
  rcases hd : (b'.frames.get g).dirty with _ | _
  · rw [marked_eq hp, hd]
    exact Nat.zero_le _
  · obtain ⟨hp', hd'⟩ := h g hp hd
    rw [marked_eq hp, marked_eq hp', hd, hd']

theorem marked_congr {b b' : Pool δ n} {p : PageId} (table : b'.table = b.table)
    (dirty : ∀ g : Fin n, (b'.frames.get g).dirty = (b.frames.get g).dirty) :
    marked b' p ≤ marked b p := by
  refine marked_le fun g hp hd => ?_
  rw [Pool.frameOf?, table] at hp
  exact ⟨hp, (dirty g).symm.trans hd⟩

theorem dirty_modifyFrame (b : Pool δ n) (f : Fin n) {k : Frame → Frame}
    (hk : ∀ x, (k x).dirty = false) (g : Fin n) : ((b.modifyFrame f k).frames.get g).dirty =
      if f = g then false else (b.frames.get g).dirty := by
  rw [getElem_modifyFrame]
  split
  · exact hk _
  · rfl

theorem marked_clear {b b' : Pool δ n} {f : Fin n} {p : PageId} (table : b'.table = b.table)
    (dirty : ∀ g : Fin n,
      (b'.frames.get g).dirty = if f = g then false else (b.frames.get g).dirty) :
    marked b' p = if b.frameOf? p = some f then 0 else marked b p := by
  have hsame : b'.frameOf? p = b.frameOf? p := by rw [Pool.frameOf?, table, Pool.frameOf?]
  rcases hp : b.frameOf? p with _ | g
  · rw [marked_eq_zero (hsame.trans hp), marked_eq_zero hp]
    simp
  · rw [marked_eq (hsame.trans hp), marked_eq hp, dirty]
    simp only [Option.some.injEq]
    by_cases hg : f = g
    · rw [if_pos hg, if_pos hg.symm]
      rfl
    · rw [if_neg hg, if_neg (Ne.symm hg)]

theorem marked_overwrite {b b' : Pool δ n} {f : Fin n} {x : Frame} {p : PageId}
    (frames : b'.frames = (b.modifyFrame f fun _ => x).frames) (hx : x.dirty = false)
    (frameOf? : ∀ g, f ≠ g → b'.frameOf? p = some g → b.frameOf? p = some g) :
    marked b' p ≤ marked b p := by
  refine marked_le fun g hp hd => ?_
  rw [frames, dirty_modifyFrame b f fun _ => hx] at hd
  split at hd
  · cases hd
  · exact ⟨frameOf? g ‹_› hp, hd⟩

variable [Device δ] [Journaled δ] {s t : Session δ n} {e : Event n} {p q : PageId} {f : Fin n}
  {a : Action n} {as : List (Action n)}

/-- The marks of a page that are used up or still lie somewhere. -/
def spent (s : Session δ n) (p : PageId) : Nat :=
  (journal s.pool.device).count (.write p) + marked s.pool p +
    s.flights.countP (Flight.isUnsavedOn p)

theorem spent_le (marked : marked t.pool p ≤ marked s.pool p)
    (device : (journal t.pool.device).count (.write p) = (journal s.pool.device).count (.write p))
    (flights : t.flights = s.flights) : t.spent p ≤ s.spent p := by
  rw [spent, spent, device, flights]
  omega

theorem count_writeBack (b : Pool δ n) (data : Page) :
    (journal (b.writeBack q data).2.device).count (.write p) ≤
      (journal b.device).count (.write p) + ((b.writeBack q data).1.isOk && q == p).toNat := by
  unfold writeBack
  rcases hw : Device.write q data b.device with ⟨e | _, d⟩
  · have hj : journal d = journal b.device ++ [] := Journaled.write hw
    rw [List.append_nil] at hj
    simp only [hj]
    exact Nat.le_add_right _ _
  · have hj : journal d = journal b.device ++ [.write q] := Journaled.write hw
    simp only [modifyStats, hj, List.count_append, List.count_singleton]
    by_cases hq : q = p
    · simp [hq, Except.isOk, Except.toBool]
    · simp [hq]

omit [Device δ] [Journaled δ] in
theorem isUnsavedOn_written (w : Window n) (answer : Except PoolError Unit) :
    Flight.isUnsavedOn p ⟨w, .written answer⟩ = (!answer.isOk && w.page == p) := by
  cases answer <;> rfl

/-- The mark of a dirty page turns into a write, or into a flush that is still to write. -/
theorem spent_cleared (hp : s.pool.frameOf? q = some f) (hd : (s.pool.frames.get f).dirty = true)
    (hmarked : marked t.pool p = if s.pool.frameOf? p = some f then 0 else marked s.pool p)
    (hrest : (journal t.pool.device).count (.write p) + t.flights.countP (Flight.isUnsavedOn p) =
      (journal s.pool.device).count (.write p) + s.flights.countP (Flight.isUnsavedOn p) +
        (q == p).toNat) : t.spent p ≤ s.spent p := by
  rw [spent, spent, hmarked]
  by_cases hq : q = p
  · subst hq
    rw [beq_self_eq_true, Bool.toNat_true] at hrest
    rw [if_pos hp, marked_eq hp, hd, Bool.toNat_true]
    omega
  · rw [beq_false_of_ne hq, Bool.toNat_false] at hrest
    split <;> omega

theorem Move.spent_saved (hm : Move s (.saved q f) t) : t.spent p ≤ s.spent p := by
  cases hm with
  | @saved _ _ d hp hd hw =>
    refine spent_cleared hp hd (marked_clear rfl (dirty_modifyFrame _ f fun _ => rfl)) ?_
    have hj : journal d = journal s.pool.device ++ [.write q] := Journaled.write hw
    have hwrite : [DiskEvent.write q].count (.write p) = (q == p).toNat := by
      by_cases hq : q = p
      · simp [hq]
      · simp [hq, beq_false_of_ne hq]
    change (journal d).count _ + _ = _
    rw [hj, List.count_append, hwrite, Nat.add_right_comm]

theorem Move.spent_opened (hm : Move s (.opened q f) t) : t.spent p ≤ s.spent p := by
  cases hm with
  | opened hp hpins hfit hd =>
    refine spent_cleared hp hd (marked_clear rfl (dirty_modifyFrame _ f fun _ => rfl)) ?_
    have hflight : [(⟨⟨q, f⟩, .opened⟩ : Flight n)].countP (Flight.isUnsavedOn p) =
        (q == p).toNat := by
      rw [List.countP_singleton]
      change (if (q == p) = true then 1 else 0) = _
      cases q == p <;> rfl
    rw [List.countP_append, hflight, ← Nat.add_assoc]
    rfl

theorem Move.spent_written {i : Nat} (hm : Move s (.written i) t) : t.spent p ≤ s.spent p := by
  cases hm with
  | @written i w hi =>
    have hcount := count_writeBack (p := p) (q := w.page) s.pool (s.pool.frames.get w.frame).data
    have hflights := countP_set_add hi ⟨w, .written (s.pool.writeWindow w).1⟩
      (Flight.isUnsavedOn p)
    have hmarked : marked (s.pool.writeWindow w).2 p = marked s.pool p := by
      have hframes := frames_writeBack s.pool w.page (s.pool.frames.get w.frame).data
      have htable := (writeBack_books s.pool w.page (s.pool.frames.get w.frame).data).1
      rw [marked, marked, isDirty?, isDirty?, Pool.frameOf?, Pool.frameOf?, writeWindow, hframes,
        htable]
    rw [← writeWindow] at hcount
    rw [isUnsavedOn_written, show Flight.isUnsavedOn p ⟨w, .opened⟩ = (w.page == p) from rfl]
      at hflights
    simp only [spent, hmarked]
    generalize (s.pool.writeWindow w).1.isOk = ok at hcount hflights
    cases ok <;> simp only [Bool.not_true, Bool.not_false, Bool.true_and, Bool.false_and,
      Bool.toNat_false] at hcount hflights <;> omega

theorem Move.spent_closed {i : Nat} (hs : s.Kempt) (hm : Move s (.closed i) t) :
    t.spent p ≤ s.spent p := by
  cases hm with
  | @closed i w answer hi =>
    have hin := hs.inFrame (List.mem_of_getElem? hi) rfl
    have hflights := countP_set_add hi ⟨w, .closed answer⟩ (Flight.isUnsavedOn p)
    rw [isUnsavedOn_written, show Flight.isUnsavedOn p ⟨w, .closed answer⟩ = false from rfl]
      at hflights
    have hdevice : (s.pool.closeWindow w answer).device = s.pool.device := by
      rw [closeWindow_eq]
      rfl
    have hmarked : marked (s.pool.closeWindow w answer) p ≤
        marked s.pool p + (!answer.isOk && w.page == p).toNat := by
      rcases hp : s.pool.frameOf? p with _ | g
      · rw [marked_eq_zero (frameOf?_closeWindow.trans hp)]
        exact Nat.zero_le _
      rw [marked_eq hp, marked_eq (frameOf?_closeWindow.trans hp), getElem_closeWindow]
      by_cases hg : w.frame = g
      · have hpage : w.page = p := hs.tidy.frameOf?_injective hin (hg ▸ hp)
        rw [if_pos hg, hg, hpage]
        cases (s.pool.frames.get g).dirty <;> cases answer.isOk <;> simp
      · rw [if_neg hg]
        exact Nat.le_add_right _ _
    simp only [spent, hdevice]
    rw [Bool.toNat_false] at hflights
    omega

/-- Only a user who gives back a pin makes a page worth another write. -/
theorem Move.spent (hs : s.Kempt) (hm : Move s e t) (he : ∀ q f dirty, e ≠ .released q f dirty) :
    t.spent p ≤ s.spent p := by
  cases hm with
  | missed => exact spent_le (Nat.le_refl _) rfl rfl
  | @hit q f =>
    exact spent_le (marked_congr rfl (s.apply_hit q f Frame.dirty fun _ _ => rfl)) rfl rfl
  | saved hp hd hw => exact (Move.saved hp hd hw).spent_saved
  | @dropped q f d e hp hd hw he =>
    refine spent_le (le_of_eq_of_le (marked_clear (b := s.pool) rfl
      (dirty_modifyFrame _ f fun _ => rfl)) ?_) (count_write_error hw p) rfl
    split <;> omega
  | refused hp hd hw => exact spent_le (Nat.le_refl _) (count_write_error hw p) rfl
  | @evicted q f =>
    exact spent_le (marked_overwrite (f := f) (x := Frame.empty) rfl rfl
      fun g _ => frameOf?_of_vacate (f := f)) rfl rfl
  | @loaded q f free data d hp hf hr =>
    exact spent_le (marked_overwrite (f := f) (x := ⟨some q, 1, false, data⟩) rfl rfl
      fun g => frameOf?_of_seat data) (count_write_read hr p) rfl
  | @unread q f _ _ _ hp hf hr =>
    exact spent_le (marked_overwrite (f := f) (x := Frame.empty) rfl rfl fun _ _ => id)
      (count_write_read hr p) rfl
  | @created q f free b hp hf ha =>
    exact spent_le (marked_overwrite (f := f) (x := ⟨some q, 1, false, Page.zero⟩) rfl rfl
      fun g => frameOf?_of_seat Page.zero) ((sameTransfers_allocateUnused ha).count_write p) rfl
  | @unallocated f _ _ _ hf ha =>
    exact spent_le (marked_overwrite (f := f) (x := Frame.empty) rfl rfl fun _ _ => id)
      ((sameTransfers_allocateUnused ha).count_write p) rfl
  | released => exact absurd rfl (he _ _ _)
  | undeleted hd | deleted _ hd | condemned _ _ hd =>
    exact spent_le (Nat.le_refl _) ((sameTransfers_deallocate hd).count_write p) rfl
  | @freed q f d _ _ hd =>
    exact spent_le (marked_overwrite (f := f) (x := Frame.empty) rfl rfl
      fun g _ => frameOf?_of_discard (f := f)) ((sameTransfers_deallocate hd).count_write p) rfl
  | @put f offset new =>
    refine spent_le (marked_congr rfl ?_) rfl rfl
    exact apply_modifyFrame s.pool f Frame.dirty
      (h := fun x => { x with data := x.data.write offset new }) fun _ => rfl
  | opened hp hpins hfit hd => exact (Move.opened hp hpins hfit hd).spent_opened
  | written hi => exact (Move.written hi).spent_written
  | closed hi => exact (Move.closed hi).spent_closed hs

theorem spent_unpin (hs : s.pool.Tidy) (q : PageId) (dirty : Bool) :
    (s.step (.call (.unpin q dirty))).spent p ≤
      s.spent p + (s.marks p (.call (.unpin q dirty))).toNat := by
  have refused (h : s.pool.unpin q dirty = (false, s.pool)) :
      (s.step (.call (.unpin q dirty))).spent p = s.spent p := by
    simp only [step, after, h]
    rfl
  rcases hq : s.pool.frameOf? q with _ | f
  · rw [refused (unpin_eq_false_iff.mpr (by simp [hq]))]
    exact Nat.le_add_right _ _
  by_cases hpins : (s.pool.frames.get f).pins = 0
  · rw [refused (unpin_eq_false_iff.mpr fun g hg => by rwa [← Option.some.inj (hq.symm.trans hg)])]
    exact Nat.le_add_right _ _
  have hmarked : marked (s.pool.unpin q dirty).2 p ≤ marked s.pool p + (q == p && dirty).toNat := by
    rcases hp : s.pool.frameOf? p with _ | g
    · rw [marked_eq_zero ((frameOf?_unpin s.pool q dirty p).trans hp)]
      exact Nat.zero_le _
    rw [marked_eq hp, marked_eq ((frameOf?_unpin s.pool q dirty p).trans hp), unpin_eq hq hpins,
      getElem_modifyFrame]
    by_cases hg : f = g
    · rw [if_pos hg, hg, hs.frameOf?_injective hq (hg ▸ hp)]
      cases (s.pool.frames.get g).dirty <;> cases dirty <;> simp
    · rw [if_neg hg]
      exact Nat.le_add_right _ _
  have hdevice : (s.pool.unpin q dirty).2.device = s.pool.device := by
    rw [unpin_eq hq hpins]
    rfl
  have hmarks : s.marks p (.call (.unpin q dirty)) = (q == p && dirty) := by
    rw [marks, unpin_eq hq hpins, Bool.and_true]
  simp only [spent, step, after, hdevice, hmarks]
  omega

theorem Regular.spent (ha : s.Regular a) (p : PageId) :
    (s.step a).spent p ≤ s.spent p + (s.marks p a).toNat := by
  by_cases hunpin : ∃ q dirty, a = .call (.unpin q dirty)
  · obtain ⟨q, dirty, rfl⟩ := hunpin
    exact spent_unpin ha.kempt.tidy q dirty
  refine Nat.le_add_right_of_le ?_
  refine ha.step_induction (P := fun t => t.spent p ≤ s.spent p) ?_ ?_ (Nat.le_refl _)
  · rintro s' e t hs' hm he hle
    refine (hm.spent hs' ?_).trans hle
    rintro q f dirty rfl
    exact hunpin ⟨q, dirty, he.of_released⟩
  · rintro q f - - -
    exact spent_le (marked_congr rfl (s.apply_hit q f Frame.dirty fun _ _ => rfl)) rfl rfl

theorem spent_run (has : s.Along Regular as) (p : PageId) :
    (s.run as).spent p ≤ s.spent p + tally (marks p) s as := by
  induction as generalizing s with
  | nil => exact Nat.le_refl _
  | cons a as ih =>
    calc (s.run (a :: as)).spent p
      _ ≤ (s.step a).spent p + tally (marks p) (s.step a) as := ih has.2
      _ ≤ s.spent p + (s.marks p a).toNat + tally (marks p) (s.step a) as :=
        Nat.add_le_add_right (has.1.spent p) _
      _ = s.spent p + tally (marks p) s (a :: as) := Nat.add_assoc _ _ _

omit [Device δ] [Journaled δ] in
theorem marks_map {ε : Type} (φ : δ → ε) (s : Session δ n) (a : Action n) :
    (s.mapDevice φ).marks p a = s.marks p a := by
  cases a with
  | call c =>
    cases c with
    | unpin q dirty => simp only [marks, mapDevice, map_unpin, Prod.map_fst, id_eq]
    | _ => rfl
  | _ => rfl

omit [Journaled δ] in
/-- Whatever fails, whatever is deleted and created again, and whoever acts while a flush is in its
window: a page is written no more often than it was marked. The marks that lie in its frame are not
used up, nor are those with a flush whose write is still to come or has failed. -/
theorem writes_le_marks {c : Config} {d : δ} {log : Option Log} {b : Pool δ c.poolSize}
    (hb : Pool.ofConfig c d log = .ok b) (as : List (Action c.poolSize))
    (has : (start b).Undisturbed as) (p : PageId) (t : Session δ c.poolSize)
    (ht : t = (start b).run as) (events : List DiskEvent)
    (hevents : events = (start b).requests as) :
    events.count (.write p) + (if t.pool.isDirty? p = some true then 1 else 0) +
        t.flights.countP (Flight.isUnsavedOn p) ≤ tally (marks p) (start b) as ∧
      (tally (marks p) (start b) as = 0 → .write p ∉ events) := by
  have hspent := spent_run (has.along_regular_logged hb).1 p
  rw [tally_logged (marks_map Logged.device)] at hspent
  have hstart : (start b).logged.spent p = 0 := by
    obtain ⟨r, -, rfl⟩ := exists_create_of_ofConfig hb
    have hnone : marked (start (Pool.create r d log)).logged.pool p = 0 :=
      marked_eq_zero (frameOf?_create r d log p)
    rw [spent, hnone]
    rfl
  rw [hstart, Nat.zero_add] at hspent
  -- The session on the device itself has the same frames, table and flushes.
  obtain rfl : t = ((start b).logged.run as).mapDevice Logged.device :=
    ht.trans (forget_run _ as).symm
  subst hevents
  refine ⟨hspent, fun hnone => List.count_eq_zero.mp ?_⟩
  have hcount : ((start b).requests as).count (.write p) ≤
      ((start b).logged.run as).spent p := by
    rw [spent, Nat.add_assoc]
    exact Nat.le_add_right _ _
  omega

def unwritable : FaultyDisk MemoryDisk :=
  { device := .empty, writes := .burst 0 1 fun _ => .io (.other "device unplugged") }

/-- A page is marked again while a flush of it is in its window, and the flush fails. -/
def remarking : List (Action 2) :=
  [.call .new, .call (.unpin 0 true), .call (.fetch 0), .beginFlush 0, .call (.unpin 0 true),
    .writeWindow 0, .closeWindow 0, .call (.flush 0), .call (.fetch 0), .call (.unpin 0 true),
    .call (.fetch 0), .beginFlush 0, .call (.unpin 0 true), .call .new]

theorem writes_le_marks_remarking : ∃ b : Pool (FaultyDisk MemoryDisk) 2,
    Pool.ofConfig ⟨2, .lruK 2⟩ unwritable none = .ok b ∧ (start b).Undisturbed remarking ∧
    ∀ t, t = (start b).run remarking →
      (((start b).requests remarking).count (.write 0) = 1 ∧ t.pool.isDirty? 0 = some true ∧
        t.flights.countP (Flight.isUnsavedOn 0) = 1 ∧ tally (marks 0) (start b) remarking = 4 ∧
        tally (marks 1) (start b) remarking = 0) ∧
      ((start b).requests remarking).count (.write 0) +
          (if t.pool.isDirty? 0 = some true then 1 else 0) +
        t.flights.countP (Flight.isUnsavedOn 0) ≤ tally (marks 0) (start b) remarking ∧
      .write 1 ∉ (start b).requests remarking := by
  have hb : Pool.ofConfig ⟨2, .lruK 2⟩ unwritable none =
      .ok (.create (.lruK { k := 2, k_pos := by decide }) unwritable none) := rfl
  have has : (start (.create (.lruK { k := 2, k_pos := by decide }) unwritable none)).Undisturbed
      remarking := Or.inr (along_and.mpr ⟨by decide +kernel,
    along_pinsFit (m := 0) _ (fun _ => Nat.le_refl _) (by decide)⟩)
  refine ⟨_, hb, has, fun t ht => ?_⟩
  have hmarks : tally (marks 1) (start (.create (.lruK { k := 2, k_pos := by decide })
      unwritable none)) remarking = 0 := by decide +kernel
  refine ⟨?_, (writes_le_marks hb remarking has 0 t ht _ rfl).1,
    (writes_le_marks hb remarking has 1 t ht _ rfl).2 hmarks⟩
  rw [ht]
  decide +kernel

end Session

end BufferPool
