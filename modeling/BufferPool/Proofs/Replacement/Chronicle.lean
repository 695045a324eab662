import BufferPool.Proofs.Replacement.Line

/-! # Chronicles

A replacer with everything that it was told and that it answered. Under either
policy, an entry is evictable if it was unpinned and nothing else came after. A
replacer that is asked again and again gives the evictable entries, and then none.
-/

namespace BufferPool

variable {α : Type} [DecidableEq α] {a b : α}

namespace Replacer

inductive Call (α : Type) where
  | pin (a : α)
  | unpin (a : α)
  | remove (a : α)
  | victim
  | peek
  deriving DecidableEq, Repr

inductive Event (α : Type) where
  | pin (a : α)
  | unpin (a : α)
  | remove (a : α)
  | victim (answer : Option α)
  | peek (answer : Option α)
  deriving DecidableEq, Repr

namespace Event

variable {e : Event α} {past : List (Event α)}

/-- The entry that the event befalls. Nothing befalls an entry that is looked at. -/
def target? : Event α → Option α
  | pin a | unpin a | remove a => some a
  | victim answer => answer
  | peek _ => none

/-- What befell an entry last. The latest event comes first. -/
def latest (a : α) (past : List (Event α)) : Option (Event α) :=
  past.find? fun e => e.target? = some a

/-- The entry was unpinned, and nothing befell it since. -/
def Evictable (a : α) (past : List (Event α)) : Prop := latest a past = some (unpin a)

/-- The entry was pinned or unpinned since it was last removed or answered as a victim. -/
def Tracked (a : α) (past : List (Event α)) : Prop :=
  latest a past = some (pin a) ∨ latest a past = some (unpin a)

instance : Decidable (Evictable a past) := inferInstanceAs (Decidable (_ = _))

instance : Decidable (Tracked a past) := inferInstanceAs (Decidable (_ ∨ _))

theorem latest_cons :
    latest a (e :: past) = if e.target? = some a then some e else latest a past := by
  simp only [latest, List.find?_cons]
  split <;> simp_all

theorem evictable_cons :
    Evictable a (e :: past) ↔ if e.target? = some a then e = unpin a else Evictable a past := by
  simp only [Evictable, latest_cons]
  split <;> simp

theorem tracked_cons : Tracked a (e :: past) ↔
    if e.target? = some a then e = pin a ∨ e = unpin a else Tracked a past := by
  simp only [Tracked, latest_cons]
  split <;> simp

end Event

def answers : Nat → Replacer α → List (Option α)
  | 0, _ => []
  | m + 1, r => r.victim.1 :: answers m r.victim.2

variable {r : Replacer α}

theorem peek_eq_none_iff (h : r.Sound) : r.peek = none ↔ ∀ a, r.isEvictable a = false := by
  constructor
  · intro hv a
    rw [← Bool.not_eq_true]
    exact fun ha => peek_ne_none h ha hv
  · intro hnone
    rcases hv : r.peek with _ | a
    · rfl
    · exact absurd (isEvictable_of_peek h hv) (by simp [hnone a])

theorem victim_of_peek_eq_none (hv : r.peek = none) : r.victim = (none, r) := by
  cases r with
  | lru r =>
    obtain ⟨capacity, queue⟩ := r
    obtain rfl : queue = [] := List.head?_eq_none_iff.mp hv
    rfl
  | lruK r =>
    have hpeek : r.peek = none := hv
    simp only [victim, LruK.victim, hpeek]

theorem line_eq_nil (h : r.Sound) (hv : r.peek = none) : r.line = [] := by
  apply List.eq_nil_iff_forall_not_mem.mpr
  intro a ha
  have hev := ((line_spec h).2 a).mp ha
  exact peek_ne_none h hev hv

theorem peek_eq_head?_line (h : r.Sound) : r.peek = r.line.head? := by
  rcases hv : r.peek with _ | a
  · rw [line_eq_nil h hv, List.head?_nil]
  · rw [line_eq_cons h hv, List.head?_cons]

theorem answers_eq (h : r.Sound) (m : Nat) :
    r.answers m = (r.line.take m).map some ++ List.replicate (m - r.line.length) none := by
  induction m generalizing r with
  | zero => simp [answers]
  | succ m ih =>
    rcases hv : r.peek with _ | a
    · rw [answers, victim_of_peek_eq_none hv, ih h, line_eq_nil h hv]
      simp [List.replicate_succ]
    · rw [answers, victim_of_peek hv, ih h.remove, line_eq_cons h hv]
      simp

end Replacer

open Replacer Event

/-- A replacer and what happened to it, the latest event first. -/
structure Chronicle (α : Type) where
  replacer : Replacer α
  past : List (Event α) := []

namespace Chronicle

variable {s t : Chronicle α}

def call (s : Chronicle α) : Call α → Chronicle α
  | .pin a => ⟨s.replacer.pin a, .pin a :: s.past⟩
  | .unpin a => ⟨s.replacer.unpin a, .unpin a :: s.past⟩
  | .remove a => ⟨s.replacer.remove a, .remove a :: s.past⟩
  | .victim => ⟨s.replacer.victim.2, .victim s.replacer.victim.1 :: s.past⟩
  | .peek => ⟨s.replacer, .peek s.replacer.peek :: s.past⟩

def run (s : Chronicle α) (calls : List (Call α)) : Chronicle α := calls.foldl call s

/-- What one call does. A victim goes the same way as an entry that is removed. -/
inductive Step (s : Chronicle α) : Chronicle α → Prop where

  | pin (a : α) : Step s ⟨s.replacer.pin a, .pin a :: s.past⟩

  | unpin (a : α) : Step s ⟨s.replacer.unpin a, .unpin a :: s.past⟩

  | forget {a : α} {e : Event α} (h : e = .remove a ∨ e = .victim (some a)) :
      Step s ⟨s.replacer.remove a, e :: s.past⟩

  | idle {e : Event α} (h : e.target? = none) : Step s ⟨s.replacer, e :: s.past⟩

theorem call_victim_of_peek (hv : s.replacer.peek = some a) :
    s.call .victim = ⟨s.replacer.remove a, .victim (some a) :: s.past⟩ := by
  rw [call, victim_of_peek hv]

theorem call_victim_of_peek_eq_none (hv : s.replacer.peek = none) :
    s.call .victim = ⟨s.replacer, .victim none :: s.past⟩ := by
  rw [call, victim_of_peek_eq_none hv]

theorem step_call (s : Chronicle α) (c : Call α) : Step s (s.call c) := by
  cases c with
  | pin a => exact .pin a
  | unpin a => exact .unpin a
  | remove a => exact .forget (Or.inl rfl)
  | victim =>
    rcases hv : s.replacer.peek with _ | a
    · rw [call_victim_of_peek_eq_none hv]
      exact .idle rfl
    · rw [call_victim_of_peek hv]
      exact .forget (Or.inr rfl)
  | peek => exact .idle rfl

theorem run_induction {P : Chronicle α → Prop} (hstep : ∀ s t, Step s t → P s → P t)
    (h : P s) (calls : List (Call α)) : P (s.run calls) := by
  induction calls generalizing s with
  | nil => exact h
  | cons c calls ih => exact ih (hstep s _ (s.step_call c) h)

/-- The replacer is sound, and what is evictable can be told from the events. -/
structure Told (s : Chronicle α) : Prop where
  sound : s.replacer.Sound
  evictable : ∀ a, s.replacer.isEvictable a = true ↔ Evictable a s.past

namespace Told

theorem ofPolicy {capacity : Nat} {policy : Policy} {r : Replacer α}
    (h : Replacer.ofPolicy capacity policy = .ok r) : Told ⟨r, []⟩ where
  sound := (ofPolicy_spec h).1
  evictable a := by simp [(ofPolicy_spec h).2 a, Evictable, latest]

theorem step (h : s.Told) (hst : Step s t) : t.Told := by
  cases hst with
  | pin a =>
    refine ⟨h.sound.pin, fun b => ?_⟩
    simp only [isEvictable_pin h.sound, evictable_cons, target?, Bool.and_eq_true, h.evictable]
    rcases eq_or_ne a b with rfl | hb
    · simp
    · simp [hb, hb.symm]
  | unpin a =>
    refine ⟨h.sound.unpin, fun b => ?_⟩
    simp only [isEvictable_unpin, evictable_cons, target?, Bool.or_eq_true, h.evictable]
    rcases eq_or_ne a b with rfl | hb
    · simp
    · simp [hb, hb.symm]
  | @forget a e he =>
    have htarget : e.target? = some a := by rcases he with rfl | rfl <;> rfl
    have hunpin : e ≠ .unpin a := by rcases he with rfl | rfl <;> simp
    refine ⟨h.sound.remove, fun b => ?_⟩
    simp only [isEvictable_remove h.sound, evictable_cons, htarget, Bool.and_eq_true, h.evictable]
    rcases eq_or_ne a b with rfl | hb
    · simp [hunpin]
    · simp [hb, hb.symm]
  | idle he =>
    refine ⟨h.sound, fun b => ?_⟩
    simp only [evictable_cons, he, h.evictable]
    simp

theorem exists_line (h : s.Told) : s.replacer.line.Nodup ∧
    (∀ a, a ∈ s.replacer.line ↔ Evictable a s.past) ∧
    s.replacer.size = s.replacer.line.length := by
  obtain ⟨hnodup, hmem⟩ := line_spec h.sound
  obtain ⟨entries, hnodup', hmem', hlength⟩ := exists_evictable h.sound
  refine ⟨hnodup, fun a => (hmem a).trans (h.evictable a), ?_⟩
  rw [← hlength]
  apply List.Perm.length_eq
  rw [List.perm_ext_iff_of_nodup hnodup' hnodup]
  exact fun a => (hmem' a).trans (hmem a).symm

end Told

end Chronicle

end BufferPool
