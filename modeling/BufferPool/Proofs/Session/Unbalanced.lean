import BufferPool.Disk.Memory
import BufferPool.Proofs.Session.Window

/-! # Unbalanced users

A pin that is given back although none is out is refused, except in the window
of a flush: the flush has a pin of its own in the same count, and that one goes.
As long as it does not happen, every flush takes back its own pin and no other.
-/

namespace BufferPool.Session

open Pool

variable {δ : Type} {n : Nat} [Device δ] {s : Session δ n} {a : Action n} {as : List (Action n)}
  {p : PageId} {dirty : Bool}

/-- A page is given back although all its pins were. -/
def Unbalanced (s : Session δ n) : Action n → Prop
  | .call (.unpin p _) => (s.pins p).held = 0
  | _ => False

/-- A page that is given back is refused, and nothing changes. -/
def Refuses (s : Session δ n) : Action n → Prop
  | .call (.unpin p dirty) => s.pool.unpin p dirty = (false, s.pool)
  | _ => True

namespace Valid

omit [Device δ] in
theorem unpin_eq_false_iff (h : s.Valid) : s.pool.unpin p dirty = (false, s.pool) ↔
    ∀ f, s.pool.frameOf? p = some f → (s.pins p).held = 0 ∧ s.windowsOn p = 0 := by
  rw [Pool.unpin_eq_false_iff]
  refine forall₂_congr fun f hp => ?_
  rw [← UInt32.toNat_inj, h.toNat_pins hp, UInt32.toNat_zero]
  omega

omit [Device δ] in
theorem fair_iff (h : s.Valid) : s.Fair a ↔ (s.Unbalanced a → s.Refuses a) := by
  cases a with
  | call c =>
    cases c with
    | unpin p dirty =>
      have hle := h.returned_le p
      have hheld : (s.pins p).held = 0 ↔ ¬(s.pins p).returned < (s.pins p).handed := by
        unfold Pins.held
        omega
      simp only [Fair, Unbalanced, Refuses, h.unpin_eq_false_iff, hheld]
      constructor
      · rintro (hw | hlt) hu f -
        · exact ⟨hu, hw⟩
        · exact absurd hlt hu
      · intro himp
        by_cases hlt : (s.pins p).returned < (s.pins p).handed
        · exact Or.inr hlt
        · left
          rcases hp : s.pool.frameOf? p with _ | f
          · exact h.windowsOn_eq_zero hp
          · exact (himp hlt f hp).2
    | _ => simp [Fair, Unbalanced]
  | _ => simp [Fair, Unbalanced]

omit [Device δ] in
theorem takes_of_not_fair (h : s.Valid) (hu : ¬s.Fair (.call (.unpin p dirty))) :
    (s.pool.unpin p dirty).1 = true ∧ ∃ f, s.pool.frameOf? p = some f ∧
      ((s.pool.unpin p dirty).2.frames.get f).pins.toNat + 1 = s.windowsOn p := by
  simp only [Fair, not_or] at hu
  obtain ⟨hw, hlt⟩ := hu
  obtain ⟨f, hp⟩ : ∃ f, s.pool.frameOf? p = some f :=
    Option.ne_none_iff_exists'.mp (mt h.windowsOn_eq_zero hw)
  have hcount := h.toNat_pins hp
  have hheld : (s.pins p).held = 0 := by
    unfold Pins.held
    omega
  have hpins : (s.pool.frames.get f).pins ≠ 0 := fun hz => hw (h.unused hp hz).1
  rw [unpin_eq hp hpins]
  refine ⟨rfl, f, hp, ?_⟩
  simp only [getElem_modifyFrame, if_true, toNat_sub_one hpins, hcount, hheld, Nat.zero_add]

theorem along_fair_iff (h : s.Valid) (hfit : s.Along (fun s a => (s.step a).PinsFit) as) :
    s.Along (fun s a => s.Unbalanced a → s.Refuses a) as ↔ s.Along Fair as := by
  induction as generalizing s with
  | nil => exact Iff.rfl
  | cons a as ih =>
    obtain ⟨hfit, hrest⟩ := hfit
    simp only [Along, ← h.fair_iff]
    exact and_congr_right fun hfair => ih (h.step ⟨hfair, hfit⟩) hrest

omit [Device δ] in
theorem pins_closeWindow (h : s.Valid) {i : Nat} {w : Window n} {answer : Except PoolError Unit}
    (hi : s.flights[i]? = some ⟨w, .written answer⟩) (g : Fin n) :
    ((s.pool.closeWindow w answer).frames.get g).pins.toNat + (if w.frame = g then 1 else 0) =
      (s.pool.frames.get g).pins.toNat := by
  rw [getElem_closeWindow]
  split
  · rename_i hg
    subst hg
    exact toNat_sub_one (h.pins_ne_zero (List.mem_of_getElem? hi) rfl)
  · rfl

omit [Device δ] in
theorem held_of_isEvictable (h : s.Valid) {f : Fin n} (hp : s.pool.frameOf? p = some f)
    (hf : s.pool.replacer.isEvictable f = true) : (s.pins p).held = 0 ∧ s.windowsOn p = 0 := by
  obtain ⟨hw, heq⟩ := h.unused hp ((h.sound.isEvictable_iff_pins hp).mp hf)
  exact ⟨by rw [Pins.held, heq, Nat.sub_self], hw⟩

end Valid

/-- All along a run, giving back a page of which no pin is out is refused, if and only if nobody
does so in the window of a flush. The first one who does is not refused, and takes the pin of a
flush. If nobody does, a flush in its window keeps its page in its frame and has its own pin there,
it takes back that pin and no other, and no page becomes evictable that a user still holds. -/
theorem refuses_unbalanced_iff {c : Config} {d : δ} {log : Option Log} {b : Pool δ c.poolSize}
    (hb : Pool.ofConfig c d log = .ok b) {as : List (Action c.poolSize)}
    (hfit : (start b).Along (fun s a => (s.step a).PinsFit) as) :
    ((start b).Along (fun s a => s.Unbalanced a → s.Refuses a) as ↔ (start b).Along Fair as) ∧
    (∀ bs cs p dirty, as = bs ++ .call (.unpin p dirty) :: cs → (start b).Along Fair bs →
      ∀ s, s = (start b).run bs → ¬s.Fair (.call (.unpin p dirty)) →
        (s.pool.unpin p dirty).1 = true ∧ ∃ f, s.pool.frameOf? p = some f ∧
          ((s.pool.unpin p dirty).2.frames.get f).pins.toNat + 1 = s.windowsOn p) ∧
    ((start b).Along Fair as → ∀ bs, bs <+: as → ∀ s, s = (start b).run bs →
      (∀ i p f stage, s.flights[i]? = some ⟨⟨p, f⟩, stage⟩ →
        Flight.isOpen ⟨⟨p, f⟩, stage⟩ = true →
        s.pool.frameOf? p = some f ∧
          (s.pool.frames.get f).pins.toNat = (s.pins p).held + 1 + s.otherWindowsOn i p) ∧
      ∀ i w answer, s.flights[i]? = some ⟨w, .written answer⟩ →
        ∀ t, t = s.step (.closeWindow i) →
          (∀ g : Fin c.poolSize,
            (t.pool.frames.get g).pins.toNat + (if w.frame = g then 1 else 0) =
              (s.pool.frames.get g).pins.toNat) ∧
          ∀ p f, t.pool.frameOf? p = some f → t.pool.replacer.isEvictable f = true →
            (t.pins p).held = 0 ∧ t.windowsOn p = 0) := by
  have hstart := Valid.start hb
  have valid : ∀ bs, bs <+: as → (start b).Along Fair bs → ((start b).run bs).Valid := by
    rintro bs ⟨cs, rfl⟩ hfair
    exact hstart.run (along_and.mpr ⟨hfair, (along_append.mp hfit).1⟩)
  refine ⟨hstart.along_fair_iff hfit, ?_, fun hfair bs hbs => ?_⟩
  · rintro bs cs p dirty rfl hfair s rfl hu
    exact (valid bs (List.prefix_append ..) hfair).takes_of_not_fair hu
  · rintro s rfl
    have hv : ((start b).run bs).Valid := by
      obtain ⟨cs, rfl⟩ := hbs
      exact valid bs (List.prefix_append bs cs) (along_append.mp hfair).1
    refine ⟨fun i p f stage => hv.pins_of_isOpen, ?_⟩
    rintro i w answer hi t rfl
    have ht : (((start b).run bs).step (.closeWindow i)).Valid := by
      obtain ⟨es, hes, -⟩ := closeWindow_moves (s := (start b).run bs) i
      exact hv.moves hes
    refine ⟨fun g => ?_, fun p f => ht.held_of_isEvictable⟩
    simp only [step, hi]
    exact hv.pins_closeWindow hi g

def overdrawing : List (Action 1) :=
  [.call .new, .call (.fetch 0), .call (.unpin 0 true), .beginFlush 0, .call (.unpin 0 false),
    .call (.unpin 0 false), .writeWindow 0, .closeWindow 0]

/-- The user is not refused, and the flush takes its pin from a count of none. -/
theorem not_refused_overdrawing : ∃ b : Pool MemoryDisk 1,
    Pool.ofConfig ⟨1, .lru⟩ MemoryDisk.empty none = .ok b ∧
    ¬(start b).Along (fun s a => s.Unbalanced a → s.Refuses a) overdrawing ∧
    ((start b).run overdrawing).pool.pinCount? 0 = some 4294967295 := by
  refine ⟨_, rfl, fun hrefuses => ?_, by decide +kernel⟩
  have hfair := (refuses_unbalanced_iff
    (show Pool.ofConfig ⟨1, .lru⟩ MemoryDisk.empty none = .ok _ from rfl)
    (along_pinsFit (m := 0) overdrawing (fun _ => Nat.le_refl _) (by decide))).1.mp hrefuses
  exact absurd hfair (by decide +kernel)

end BufferPool.Session
