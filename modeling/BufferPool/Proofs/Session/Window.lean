import Mathlib.Data.List.Perm.Basic
import BufferPool.Disk.Memory
import BufferPool.Proofs.Disk.Memory
import BufferPool.Proofs.Session.Durable

/-! # The window of a flush

Whatever happens in the window of a flush, its page stays in its frame, its
extra pin is there until the flush returns and gone then, and no bytes that
were marked are lost.
-/

namespace BufferPool.Session

open Pool Storage

variable {δ : Type} {n : Nat} [Device δ] {s : Session δ n} {as : List (Action n)} {p : PageId}

/-- The number of flushes of `p` in their window, apart from the `i`-th one. -/
def otherWindowsOn (s : Session δ n) (i : Nat) (p : PageId) : Nat :=
  (s.flights.eraseIdx i).countP (Flight.isOpenOn p)

omit [Device δ] in
theorem windowsOn_eq {i : Nat} {w : Flight n} (hi : s.flights[i]? = some w) :
    s.windowsOn p = s.otherWindowsOn i p + (w.isOpenOn p).toNat := by
  obtain ⟨hlt, rfl⟩ := List.getElem?_eq_some_iff.mp hi
  rw [windowsOn, ← (List.getElem_cons_eraseIdx_perm hlt).countP_eq, List.countP_cons]
  cases Flight.isOpenOn p s.flights[i] <;> rfl

theorem isOpen_of_run {bs : List (Action n)} {i : Nat} {w : Window n} {stage : Stage}
    {answer : Except PoolError Unit} (hi : s.flights[i]? = some ⟨w, stage⟩)
    (hbs : bs <+: as) (hend : (s.run as).flights[i]? = some ⟨w, .written answer⟩) :
    ∃ stage', (s.run bs).flights[i]? = some ⟨w, stage'⟩ ∧ Flight.isOpen ⟨w, stage'⟩ = true := by
  obtain ⟨stage', hi', -⟩ := flights_run (P := fun _ => True) (fun _ => id) (fun _ => id) bs hi
    trivial
  refine ⟨stage', hi', ?_⟩
  obtain ⟨cs, rfl⟩ := hbs
  rcases stage' with _ | _ | answer'
  · rfl
  · rfl
  · rw [run_append, flights_run_closed hi'] at hend
    cases congrArg Flight.stage (Option.some.inj hend)

theorem flights_run_closeWindow {i : Nat} {w : Window n} {answer : Except PoolError Unit}
    (hi : (s.run as).flights[i]? = some ⟨w, .written answer⟩) :
    (s.run (as ++ [.closeWindow i])).flights[i]? = some ⟨w, .closed answer⟩ := by
  have hlt := (List.getElem?_eq_some_iff.mp hi).1
  rw [run_append, run_cons, run_nil]
  simp only [step, hi]
  exact List.getElem?_set_self hlt

theorem frameOf?_run_closeWindow {i : Nat} {w : Window n} {answer : Except PoolError Unit}
    (hi : (s.run as).flights[i]? = some ⟨w, .written answer⟩) (q : PageId) :
    (s.run (as ++ [.closeWindow i])).pool.frameOf? q = (s.run as).pool.frameOf? q := by
  rw [run_append, run_cons, run_nil]
  simp only [step, hi]
  exact frameOf?_closeWindow

omit [Device δ] in
theorem otherWindowsOn_eq_zero_iff {i : Nat} : s.otherWindowsOn i p = 0 ↔
    ∀ j w, j ≠ i → s.flights[j]? = some w → w.isOpenOn p = false := by
  simp only [otherWindowsOn, List.countP_eq_zero, List.mem_eraseIdx_iff_getElem?,
    Bool.not_eq_true]
  exact ⟨fun h j w hj hw => h w ⟨j, hj, hw⟩, fun h w ⟨j, hj, hw⟩ => h j w hj hw⟩

theorem otherWindowsOn_beginFlush {f : Fin n} (hp : s.pool.frameOf? p = some f)
    (hpins : (s.pool.frames.get f).pins ≠ 0) (hd : (s.pool.frames.get f).dirty = true) :
    (s.step (.beginFlush p)).otherWindowsOn s.flights.length p = s.windowsOn p := by
  rw [otherWindowsOn, flights_beginFlush hp hpins hd,
    List.eraseIdx_append_of_length_le (Nat.le_refl _), Nat.sub_self, List.eraseIdx_zero,
    List.tail_cons, List.append_nil, windowsOn]

theorem isOpenOn_step {a : Action n} {j : Nat} {w : Flight n}
    (hj : (s.step a).flights[j]? = some w) (ho : w.isOpenOn p = true) :
    a = .beginFlush p ∨ ∃ v, s.flights[j]? = some v ∧ v.isOpenOn p = true := by
  cases a with
  | call | put => exact Or.inr ⟨w, hj, ho⟩
  | beginFlush q =>
    simp only [step] at hj
    split at hj
    · exact Or.inr ⟨w, hj, ho⟩
    · rename_i v b hv
      rcases Nat.lt_or_ge j s.flights.length with hlt | hge
      · rw [List.getElem?_append_left hlt] at hj
        exact Or.inr ⟨w, hj, ho⟩
      · rw [List.getElem?_append_right hge] at hj
        obtain rfl := List.mem_singleton.mp (List.mem_of_getElem? hj)
        obtain ⟨f, -, -, -, rfl⟩ := beginFlush_eq_window (congrArg Prod.fst hv)
        simp only [Flight.isOpenOn, Bool.and_eq_true, beq_iff_eq] at ho
        exact Or.inl (congrArg _ ho.2)
  | writeWindow i | closeWindow i =>
    apply Or.inr
    simp only [step] at hj
    split at hj
    · rename_i v _ hi
      by_cases hij : i = j
      · subst hij
        rw [List.getElem?_set_self (List.getElem?_eq_some_iff.mp hi).1] at hj
        obtain rfl := Option.some.inj hj
        first
          | exact ⟨_, hi, ho⟩
          | cases ho
      · rw [List.getElem?_set_ne hij] at hj
        exact ⟨w, hj, ho⟩
    · exact ⟨w, hj, ho⟩

theorem otherWindowsOn_run {i : Nat} (h : s.otherWindowsOn i p = 0) (has : .beginFlush p ∉ as) :
    (s.run as).otherWindowsOn i p = 0 := by
  induction as generalizing s with
  | nil => exact h
  | cons a as ih =>
    rw [List.mem_cons, not_or] at has
    refine ih (otherWindowsOn_eq_zero_iff.mpr fun j w hj hw => ?_) has.2
    apply Bool.eq_false_iff.mpr
    intro ho
    rcases isOpenOn_step hw ho with rfl | ⟨v, hv, ho⟩
    · exact has.1 rfl
    · rw [otherWindowsOn_eq_zero_iff.mp h j v hj hv] at ho
      cases ho

omit [Device δ] in
theorem Valid.pins_of_isOpen (hv : s.Valid) {i : Nat} {f : Fin n} {stage : Stage}
    (hi : s.flights[i]? = some ⟨⟨p, f⟩, stage⟩) (ho : Flight.isOpen ⟨⟨p, f⟩, stage⟩ = true) :
    s.pool.frameOf? p = some f ∧
      (s.pool.frames.get f).pins.toNat = (s.pins p).held + 1 + s.otherWindowsOn i p := by
  have hpage : s.pool.frameOf? p = some f := hv.inFrame _ (List.mem_of_getElem? hi) ho
  have hw := windowsOn_eq (p := p) hi
  rw [Flight.isOpenOn, ho, beq_self_eq_true, Bool.and_self, Bool.toNat_true] at hw
  refine ⟨hpage, ?_⟩
  rw [hv.toNat_pins hpage, hw]
  omega

omit [Device δ] in
theorem Valid.pins_of_closed (hv : s.Valid) {i : Nat} {f : Fin n} {answer : Except PoolError Unit}
    (hi : s.flights[i]? = some ⟨⟨p, f⟩, .closed answer⟩) (hp : s.pool.frameOf? p = some f) :
    (s.pool.frames.get f).pins.toNat = (s.pins p).held + s.otherWindowsOn i p := by
  have hw : s.windowsOn p = s.otherWindowsOn i p := windowsOn_eq hi
  rw [hv.toNat_pins hp, hw]

variable [Lawful δ]

/-- What was marked at a moment of a run is on the device at its end, or the device is still owed
it. -/
theorem saved_or_unsaved {bs cs : List (Action n)} (hv : s.Valid) (hb : s.Backed)
    (hstored : page? s.pool.device p ≠ none) (has : s.Along Proper (bs ++ cs))
    (hdel : s.Along (fun s a => ¬s.Deletes p a) (bs ++ cs))
    (hd : (s.run bs).pool.isDirty? p = some true) :
    (s.run (bs ++ cs)).pool.isDirty? p = some true ∨
      (∃ w ∈ (s.run (bs ++ cs)).flights, w.isUnsavedOn p = true) ∨
        (s.run (bs ++ cs)).Saved p ((s.run bs).seen p cs) := by
  obtain ⟨f, hp, hd⟩ := Option.map_eq_some_iff.mp hd
  obtain ⟨hbs, hcs⟩ := along_append.mp has
  obtain ⟨hdelBs, hdelCs⟩ := along_append.mp hdel
  rw [run_append]
  obtain ⟨x, hx, hC⟩ := ((Kept.of_dirty hp hd (stored_run hv hb hstored hbs hdelBs)).run
    (hv.run_proper hbs) (hb.run hv hbs) hcs hdelCs (Set.Subset.refl _)).stored
  rcases hC with hC | ⟨-, ⟨g, hg, hdg⟩ | hw⟩ | hfalse
  · exact Or.inr (Or.inr ⟨x, hC, hx⟩)
  · apply Or.inl
    rw [isDirty?_eq hg, hdg]
  · exact Or.inr (Or.inl hw)
  · exact hfalse.elim

/-- A flush of a pinned and dirty page lets others act in its window, and writes at some moment of
it, with success or not. All the while the frame holds the page and has one more pin than its users
and the other flushes have, and when the flush returns it has not. The frames are partitioned then,
and as long as the page is not deleted, what was marked before the flush or in its window is on the
device, or the page is dirty, or another flush owes it. There are no other flushes if there were
none and none begins in the window. -/
theorem flush_window {c : Config} {s : Session δ c.poolSize} (hs : s.Reachable) {p : PageId}
    {f : Fin c.poolSize} (hp : s.pool.frameOf? p = some f) (hpins : (s.pool.frames.get f).pins ≠ 0)
    (hd : (s.pool.frames.get f).dirty = true) {as : List (Action c.poolSize)}
    {answer : Except PoolError Unit}
    (has : s.Along Proper (.beginFlush p :: as ++ [.closeWindow s.flights.length]))
    (hwritten : (s.run (.beginFlush p :: as)).flights[s.flights.length]? =
      some ⟨⟨p, f⟩, .written answer⟩) :
    (∀ bs, bs <+: as →
      (s.run (.beginFlush p :: bs)).pool.frameOf? p = some f ∧
      ((s.run (.beginFlush p :: bs)).pool.frames.get f).pins.toNat =
        ((s.run (.beginFlush p :: bs)).pins p).held + 1 +
          (s.run (.beginFlush p :: bs)).otherWindowsOn s.flights.length p) ∧
    (∀ t, t = s.run (.beginFlush p :: as ++ [.closeWindow s.flights.length]) →
      t.pool.frameOf? p = some f ∧
      (t.pool.frames.get f).pins.toNat = (t.pins p).held + t.otherWindowsOn s.flights.length p ∧
      t.pool.Partitioned ∧
      (t.pool.replacer.isEvictable f = true ↔
        (t.pins p).held = 0 ∧ t.otherWindowsOn s.flights.length p = 0) ∧
      (page? s.pool.device p ≠ none →
        s.Along (fun s a => ¬s.Deletes p a)
          (.beginFlush p :: as ++ [.closeWindow s.flights.length]) →
        ∀ bs cs, .beginFlush p :: as ++ [.closeWindow s.flights.length] = bs ++ cs →
          (s.run bs).pool.isDirty? p = some true →
          t.pool.isDirty? p = some true ∨ t.Saved p ((s.run bs).seen p cs) ∨
            0 < t.otherWindowsOn s.flights.length p ∧ ∃ w ∈ t.flights, w.isUnsavedOn p = true)) ∧
    (s.windowsOn p = 0 → .beginFlush p ∉ as →
      ∀ bs, bs <+: as ++ [.closeWindow s.flights.length] →
        (s.run (.beginFlush p :: bs)).otherWindowsOn s.flights.length p = 0) := by
  have hv := hs.valid
  have hopened := beginFlush_opened hp hpins hd
  obtain ⟨hbegin, -⟩ := along_append.mp has
  refine ⟨?_, ?_, ?_⟩
  · rintro bs ⟨cs, rfl⟩
    have hvb : (s.run (.beginFlush p :: bs)).Valid := by
      rw [← List.cons_append] at hbegin
      exact hv.run_proper (along_append.mp hbegin).1
    obtain ⟨stage, hi, ho⟩ :=
      isOpen_of_run (s := s.step (.beginFlush p)) hopened (List.prefix_append bs cs) hwritten
    exact hvb.pins_of_isOpen hi ho
  · rintro t rfl
    have hvt := hv.run_proper has
    have hi := flights_run_closeWindow hwritten
    have hpage : (s.run (.beginFlush p :: as ++ [.closeWindow s.flights.length])).pool.frameOf? p =
        some f := by
      rw [frameOf?_run_closeWindow hwritten]
      exact ((hv.run_proper hbegin).pins_of_isOpen hwritten rfl).1
    have hpinsEq := hvt.pins_of_closed hi hpage
    refine ⟨hpage, hpinsEq, hvt.sound.partitioned, ?_, ?_⟩
    · rw [hvt.sound.isEvictable_iff_pins hpage, ← UInt32.toNat_inj, hpinsEq, UInt32.toNat_zero]
      omega
    · intro hstored hdel bs cs hsplit hdirty
      rw [hsplit] at has hdel
      have hend := saved_or_unsaved hv hs.backed hstored has hdel hdirty
      rw [← hsplit] at hend
      rcases hend with hend | ⟨w, hw, hu⟩ | hend
      · exact Or.inl hend
      · refine Or.inr (Or.inr ⟨?_, w, hw, hu⟩)
        have hpos := windowsOn_pos hw hu
        rwa [windowsOn_eq hi] at hpos
      · exact Or.inr (Or.inl hend)
  · intro hw hbegins bs hbs
    have hother := (otherWindowsOn_beginFlush hp hpins hd).trans hw
    apply otherWindowsOn_run (s := s.step (.beginFlush p)) hother
    intro hm
    rcases List.mem_append.mp (hbs.subset hm) with hm | hm
    · exact hbegins hm
    · cases List.mem_singleton.mp hm

def lettingGo : List (Action 1) := [.call (.unpin 0 false), .writeWindow 0]

theorem flush_window_lettingGo : ∃ b : Pool (FaultyDisk MemoryDisk) 1,
    Pool.ofConfig ⟨1, .lru⟩ { device := .empty, writes := .burst 0 1 fun _ => .invalidPageId }
      none = .ok b ∧
    ∀ t, t = ((start b).run marking).run (.beginFlush 0 :: lettingGo ++ [.closeWindow 0]) →
      t.pool.Partitioned ∧ t.pool.replacer.isEvictable 0 = true ∧
      (t.pool.isDirty? 0 = some true ∨ t.Saved 0 (((start b).run marking).seen 0
        (.beginFlush 0 :: lettingGo ++ [.closeWindow 0]))) := by
  have hok : Ok ({ device := .empty, writes := .burst 0 1 fun _ => .invalidPageId } :
      FaultyDisk MemoryDisk) :=
    ⟨MemoryDisk.ordered_empty, FaultyDisk.keepsPages_burst 0 1 fun _ => rfl⟩
  refine ⟨_, rfl, fun t ht => ?_⟩
  obtain ⟨hs, has⟩ := Reachable.of_fair marking (.beginFlush 0 :: lettingGo ++ [.closeWindow 0]) hok
    (show Pool.ofConfig ⟨1, .lru⟩ _ none = .ok _ from rfl) (by decide +kernel) (by decide)
    (MemoryDisk.room_empty (by decide))
  obtain ⟨-, hin, -⟩ := flush_window hs (f := 0) rfl (by decide +kernel) rfl has rfl
  obtain ⟨-, -, hpart, hevict, hlost⟩ := hin t ht
  have hnone : (t.pins 0).held = 0 ∧ t.otherWindowsOn 0 0 = 0 := by
    subst ht
    decide +kernel
  refine ⟨hpart, hevict.mpr hnone, ?_⟩
  rcases hlost (Option.isSome_iff_ne_none.mp (by decide +kernel))
    (along_not_deletes (by decide)) [] _ rfl rfl with hd | hsaved | ⟨hpos, -⟩
  · exact Or.inl hd
  · rw [run_nil] at hsaved
    exact Or.inr hsaved
  · exact absurd hnone.2 (Nat.ne_of_gt hpos)

end BufferPool.Session
