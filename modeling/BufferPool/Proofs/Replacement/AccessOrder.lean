import BufferPool.Proofs.Replacement.Chronicle

/-! # The order of the accesses

LRU-K over whole runs. A pin is an access, and so is an unpin of an entry that is
not tracked. What the replacer remembers of an entry are the latest accesses since
it was last forgotten, and so the victim is the evictable entry that is due by them.
-/

namespace BufferPool

open Replacer Event

variable {α : Type} [DecidableEq α] {a b : α}

namespace Replacer.Event

variable {e : Event α} {past : List (Event α)} {i : Nat}

def accessCount : List (Event α) → Nat
  | [] => 0
  | pin _ :: past => accessCount past + 1
  | unpin a :: past => if Tracked a past then accessCount past else accessCount past + 1
  | _ :: past => accessCount past

/-- The accesses to an entry since it was last removed or answered as a victim, the latest first.
The accesses to all entries are numbered as they happen. -/
def accesses (a : α) : List (Event α) → List Nat
  | [] => []
  | pin b :: past => if b = a then accessCount past :: accesses a past else accesses a past
  | unpin b :: past =>
    if b = a ∧ ¬ Tracked b past then accessCount past :: accesses a past else accesses a past
  | remove b :: past | victim (some b) :: past => if b = a then [] else accesses a past
  | _ :: past => accesses a past

theorem accesses_cons_of_ne (h : e.target? ≠ some a) :
    accesses a (e :: past) = accesses a past := by
  rcases e with b | b | b | (_ | b) | answer
  · exact if_neg fun hb => h (congrArg some hb)
  · exact if_neg fun hb => h (congrArg some hb.1)
  · exact if_neg fun hb => h (congrArg some hb)
  · rfl
  · exact if_neg fun hb => h (congrArg some hb)
  · rfl

theorem accessCount_cons_of_target?_eq_none (h : e.target? = none) :
    accessCount (e :: past) = accessCount past := by
  cases e with
  | victim | peek => rfl
  | _ => cases h

theorem accesses_pin_self : accesses a (pin a :: past) = accessCount past :: accesses a past :=
  if_pos rfl

theorem accesses_unpin_of_tracked (h : Tracked a past) :
    accessCount (unpin a :: past) = accessCount past ∧
      ∀ b, accesses b (unpin a :: past) = accesses b past :=
  ⟨if_pos h, fun _ => if_neg fun hb => hb.2 h⟩

theorem accesses_unpin_self (h : ¬ Tracked a past) : accessCount (unpin a :: past) =
    accessCount past + 1 ∧ accesses a (unpin a :: past) = accessCount past :: accesses a past :=
  ⟨if_neg h, if_pos ⟨rfl, h⟩⟩

theorem accesses_eq_nil_iff : accesses a past = [] ↔ ¬ Tracked a past := by
  induction past with
  | nil => simp [accesses, Tracked, latest]
  | cons e past ih =>
    by_cases htarget : e.target? = some a
    · rw [tracked_cons, if_pos htarget]
      rcases e with b | b | b | answer | answer <;> cases htarget
      · simp [accesses]
      · by_cases ha : Tracked a past <;> simp [accesses, ha, ih]
      · simp [accesses]
      · simp [accesses]
    · rw [accesses_cons_of_ne htarget, ih, tracked_cons, if_neg htarget]

theorem accessCount_le_cons : accessCount past ≤ accessCount (e :: past) := by
  cases e with
  | pin => exact Nat.le_succ _
  | unpin a =>
    simp only [accessCount]
    split
    · exact Nat.le_refl _
    · exact Nat.le_succ _
  | _ => exact Nat.le_refl _

theorem mem_accesses_cons (h : i ∈ accesses a (e :: past)) : i ∈ accesses a past ∨
    i = accessCount past ∧ e.target? = some a ∧ accessCount (e :: past) = accessCount past + 1 := by
  by_cases htarget : e.target? = some a
  · rcases e with b | b | b | answer | answer <;> cases htarget
    · rw [accesses_pin_self, List.mem_cons] at h
      exact h.symm.imp id fun hi => ⟨hi, rfl, rfl⟩
    · by_cases ha : Tracked a past
      · exact Or.inl ((accesses_unpin_of_tracked ha).2 a ▸ h)
      · rw [(accesses_unpin_self ha).2, List.mem_cons] at h
        exact h.symm.imp id fun hi => ⟨hi, rfl, (accesses_unpin_self ha).1⟩
    · simp [accesses] at h
    · simp [accesses] at h
  · exact Or.inl (accesses_cons_of_ne htarget ▸ h)

theorem lt_accessCount (h : i ∈ accesses a past) : i < accessCount past := by
  induction past with
  | nil => cases h
  | cons e past ih =>
    rcases mem_accesses_cons h with h | ⟨rfl, -, hcount⟩
    · exact Nat.lt_of_lt_of_le (ih h) accessCount_le_cons
    · rw [hcount]
      exact Nat.lt_succ_self _

theorem eq_of_mem_accesses (ha : i ∈ accesses a past) (hb : i ∈ accesses b past) : a = b := by
  induction past with
  | nil => cases ha
  | cons e past ih =>
    rcases mem_accesses_cons ha with ha | ⟨hi, hea, -⟩ <;>
      rcases mem_accesses_cons hb with hb | ⟨hj, heb, -⟩
    · exact ih ha hb
    · exact absurd (lt_accessCount ha) (by simp [hj])
    · exact absurd (lt_accessCount hb) (by simp [hi])
    · exact Option.some.inj (hea.symm.trans heb)

end Replacer.Event

namespace Chronicle

variable {s t : Chronicle α} {k : Nat}

/-- The replacer remembers the latest `k` accesses of the entries that are tracked. -/
structure Recalls (s : Chronicle α) (k : Nat) : Prop extends Told s where
  isLruK : s.replacer.IsLruK k (accessCount s.past)
  history : ∀ a, s.replacer.history? a =
    if Tracked a s.past then some ((accesses a s.past).take k) else none

namespace Recalls

theorem start (k_pos : 0 < k) : Recalls (⟨.lruK { k, k_pos }, []⟩ : Chronicle α) k where
  toTold := by
    have hpolicy : Replacer.ofPolicy 0 (.lruK k) = .ok (.lruK { k, k_pos } : Replacer α) :=
      dif_pos k_pos
    exact .ofPolicy hpolicy
  isLruK := ⟨_, rfl, rfl, rfl⟩
  history a := by
    rw [if_neg (by simp [Tracked, latest])]
    rfl

theorem getD_history (h : s.Recalls k) :
    (s.replacer.history? a).getD [] = (accesses a s.past).take k := by
  rw [h.history]
  split
  · rfl
  · rename_i ha
    rw [accesses_eq_nil_iff.mpr ha, List.take_nil]
    rfl

theorem history_cons {e : Event α} (h : s.Recalls k) (he : e.target? ≠ some a) :
    s.replacer.history? a =
      if Tracked a (e :: s.past) then some ((accesses a (e :: s.past)).take k) else none := by
  simp only [h.history, tracked_cons, if_neg he, accesses_cons_of_ne he]

theorem step (h : s.Recalls k) (hst : Step s t) : t.Recalls k := by
  have hpos := h.isLruK.k_pos
  have htold := h.toTold.step hst
  cases hst with
  | pin a =>
    refine ⟨htold, h.isLruK.pin a, fun b => ?_⟩
    rw [h.isLruK.history?_pin]
    rcases eq_or_ne a b with rfl | hab
    · have ha : Tracked a (pin a :: s.past) := by simp [tracked_cons, target?]
      rw [if_pos rfl, if_pos ha, h.getD_history, LruK.take_cons_take hpos, accesses_pin_self]
    · rw [if_neg hab.symm]
      exact h.history_cons (by simpa [target?] using hab)
  | unpin a =>
    have ha' : Tracked a (unpin a :: s.past) := by simp [tracked_cons, target?]
    by_cases ha : Tracked a s.past
    · obtain ⟨hcount, haccesses⟩ := accesses_unpin_of_tracked ha
      obtain ⟨hlruK, hsame⟩ := h.isLruK.unpin (a := a) (by simp [h.history a, ha])
      refine ⟨htold, hcount ▸ hlruK, fun b => ?_⟩
      rw [hsame]
      rcases eq_or_ne a b with rfl | hab
      · rw [h.history, if_pos ha, if_pos ha', haccesses]
      · exact h.history_cons (by simpa [target?] using hab)
    · obtain ⟨hcount, haccesses⟩ := accesses_unpin_self ha
      obtain ⟨hlruK, hnew⟩ := h.isLruK.unpin_new (a := a) (by simp [h.history a, ha])
      refine ⟨htold, hcount ▸ hlruK, fun b => ?_⟩
      rw [hnew]
      rcases eq_or_ne a b with rfl | hab
      · rw [if_pos rfl, if_pos ha', haccesses, accesses_eq_nil_iff.mpr ha,
          List.take_of_length_le hpos]
      · rw [if_neg hab.symm]
        exact h.history_cons (by simpa [target?] using hab)
  | @forget a e he =>
    have htarget : e.target? = some a := by rcases he with rfl | rfl <;> rfl
    have hcount : accessCount (e :: s.past) = accessCount s.past := by
      rcases he with rfl | rfl <;> rfl
    refine ⟨htold, hcount ▸ h.isLruK.remove a, fun b => ?_⟩
    rw [h.isLruK.history?_remove]
    rcases eq_or_ne a b with rfl | hab
    · have ha : ¬ Tracked a (e :: s.past) := by
        rw [tracked_cons, if_pos htarget]
        rcases he with rfl | rfl <;> simp
      rw [if_pos rfl, if_neg ha]
    · rw [if_neg hab.symm]
      exact h.history_cons (by simpa [htarget] using hab)
  | @idle e he =>
    have hcount : accessCount (e :: s.past) = accessCount s.past :=
      accessCount_cons_of_target?_eq_none he
    exact ⟨htold, hcount ▸ h.isLruK, fun b => h.history_cons (by simp [he])⟩

theorem run (h : s.Recalls k) (calls : List (Call α)) : (s.run calls).Recalls k :=
  run_induction (P := fun t => t.Recalls k) (fun _ _ hst hs => hs.step hst) h calls

theorem knows_iff (h : s.Recalls k) : s.replacer.knows a = true ↔ Tracked a s.past := by
  have hhistory := h.history a
  obtain ⟨q, hq, -⟩ := h.isLruK
  rw [hq] at hhistory ⊢
  simp only [knows]
  rw [show q.history? a = _ from hhistory]
  split <;> simp [*]

theorem remembers (h : s.Recalls k) :
    Remembers s.replacer k (accessCount s.past) fun a => accesses a s.past := by
  have htracked : ∀ a, s.replacer.isEvictable a = true → Tracked a s.past := fun a ha =>
    Or.inr ((h.evictable a).mp ha)
  constructor
  · exact h.isLruK
  · intro a ha
    rw [h.history, if_pos (htracked a ha)]
  · intro a ha hnil
    exact accesses_eq_nil_iff.mp hnil (htracked a ha)
  · intro a i
    exact lt_accessCount
  · intro a b i
    exact eq_of_mem_accesses

end Recalls

/-- What is tracked and what is evictable can be told from the events. There is a victim if and only
if an entry is evictable, and it is the one that is due by the accesses. It is forgotten when it is
given up, but looking at it changes nothing. -/
structure GoesByAccesses (s : Chronicle α) (k : Nat) : Prop where
  tracked : ∀ a, s.replacer.knows a = true ↔ Tracked a s.past
  evictable : ∀ a, s.replacer.isEvictable a = true ↔ Evictable a s.past
  size : ∃ entries : List α, entries.Nodup ∧ (∀ a, a ∈ entries ↔ Evictable a s.past) ∧
    s.replacer.size = entries.length
  none_iff : s.replacer.peek = none ↔ ∀ a, ¬ Evictable a s.past
  due : ∀ a, s.replacer.peek = some a → Evictable a s.past ∧
    Due k (fun b => accesses b s.past) (fun b => Evictable b s.past) a
  looked_at : s.call .peek = ⟨s.replacer, .peek s.replacer.peek :: s.past⟩
  given_up : ∀ a, s.replacer.peek = some a →
    s.call .victim = ⟨s.replacer.remove a, .victim (some a) :: s.past⟩ ∧
      (s.replacer.remove a).knows a = false
  none_left : s.replacer.peek = none → s.call .victim = ⟨s.replacer, .victim none :: s.past⟩

/-- Whatever it is told, an LRU-K replacer gives up the evictable entry that is due by the
accesses. -/
theorem evicts_by_latest_accesses (k : Nat) (k_pos : 0 < k) (calls : List (Call α)) :
    GoesByAccesses (run ⟨.lruK { k, k_pos }, []⟩ calls) k := by
  have h := (Recalls.start (α := α) k_pos).run calls
  constructor
  · exact fun a => h.knows_iff
  · exact h.evictable
  · exact ⟨_, h.toTold.exists_line⟩
  · simp only [peek_eq_none_iff h.sound, ← Bool.not_eq_true, h.evictable]
  · intro a ha
    have hdue := h.remembers.due_of_peek h.sound ha
    simp only [h.evictable] at hdue
    exact ⟨(h.evictable a).mp (isEvictable_of_peek h.sound ha), hdue⟩
  · rfl
  · intro a ha
    refine ⟨call_victim_of_peek ha, ?_⟩
    rw [← Bool.not_eq_true]
    exact fun hknows => (knows_remove h.sound hknows).1 rfl
  · exact call_victim_of_peek_eq_none

/-- Entry 1 was accessed twice, the others once. Entry 3 is given up and comes back with an unpin,
which is its access then. -/
def comingBack : List (Call Nat) :=
  [.pin 1, .unpin 3, .unpin 3, .pin 2, .pin 1, .unpin 1, .victim, .unpin 2, .unpin 3, .unpin 1]

theorem evicts_by_latest_accesses_coming_back : 0 < 2 ∧
    GoesByAccesses (run ⟨.lruK { k := 2, k_pos := Nat.two_pos }, []⟩ comingBack) 2 ∧
    accesses 1 (run ⟨.lruK { k := 2, k_pos := Nat.two_pos }, []⟩ comingBack).past = [3, 0] ∧
    accesses 3 (run ⟨.lruK { k := 2, k_pos := Nat.two_pos }, []⟩ comingBack).past = [4] ∧
    (run ⟨.lruK { k := 2, k_pos := Nat.two_pos }, []⟩ comingBack).replacer.answers 4 =
      [some 2, some 3, some 1, none] :=
  ⟨Nat.two_pos, evicts_by_latest_accesses 2 Nat.two_pos comingBack, by decide +kernel,
    by decide +kernel, by decide +kernel⟩

end Chronicle

end BufferPool
