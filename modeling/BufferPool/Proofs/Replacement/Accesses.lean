import BufferPool.Proofs.Replacement.Evictable

/-! # What LRU-K remembers

An LRU-K replacer remembers the times of the latest accesses of an entry until
the entry is removed. Only pins are accesses, as long as no entry is unpinned
that is not tracked. The times alone decide which entry goes next.
-/

namespace BufferPool

variable {α : Type} [DecidableEq α] {a b : α}

namespace LruK

variable {r : LruK α} {x y : Node}

theorem take_cons_take {k : Nat} (hk : 0 < k) (i : Nat) (past : List Nat) :
    (i :: past.take k).take k = (i :: past).take k := by
  obtain ⟨k, rfl⟩ := Nat.exists_eq_add_of_lt hk
  simp [List.take_take]

def history? (r : LruK α) (a : α) : Option (List Nat) := (r.node? a).map Node.history

theorem history?_setNode (ha : r.node? a = some y) (hx : x.history = y.history) :
    (r.setNode a x).history? b = r.history? b := by
  simp only [history?, node?_setNode, ha, Option.map_some]
  split
  · rename_i hb
    rw [hb, ha, Option.map_some, Option.map_some, hx]
  · rfl

theorem history?_access : (r.access a).history? b =
    if b = a then some ((r.clock :: (r.history? a).getD []).take r.k) else r.history? b := by
  unfold access history?
  rcases ha : r.node? a with _ | x
  · simp only [node?, List.lookup_append, lookup_cons, List.lookup_nil]
    by_cases hb : b = a
    · subst hb
      simp [show r.nodes.lookup b = none from ha]
    · simp [hb]
  · simp only [node?_setNode, show LruK.node? { r with clock := r.clock + 1 } a = some x from ha]
    split
    · rfl
    · rfl

theorem clock_access : (r.access a).clock = r.clock + 1 := by
  unfold access
  cases r.node? a <;> rfl

theorem k_access : (r.access a).k = r.k := by
  unfold access
  cases r.node? a <;> rfl

theorem history?_pin : (r.pin a).history? b = (r.access a).history? b := by
  unfold pin
  obtain ⟨x, hx⟩ := node?_access_self (r := r) (a := a)
  simp only [hx]
  split
  · exact history?_setNode hx rfl
  · rfl

theorem exists_pin_eq (r : LruK α) (a : α) : ∃ nodes evictableCount,
    r.pin a = { r.access a with nodes, evictableCount } := by
  obtain ⟨x, hx⟩ := node?_access_self (r := r) (a := a)
  simp only [pin, hx]
  split <;> exact ⟨_, _, rfl⟩

theorem clock_pin : (r.pin a).clock = r.clock + 1 := by
  obtain ⟨nodes, evictableCount, h⟩ := exists_pin_eq r a
  rw [h]
  exact clock_access

theorem k_pin : (r.pin a).k = r.k := by
  obtain ⟨nodes, evictableCount, h⟩ := exists_pin_eq r a
  rw [h]
  exact k_access

theorem unpin_of_node? (hx : r.node? a = some x) : r.unpin a = if x.evictable then r else
    { r.setNode a { x with evictable := true } with evictableCount := r.evictableCount + 1 } := by
  simp [unpin, hx]

theorem unpin_of_node?_eq_none (ha : r.node? a = none) :
    (r.unpin a).k = r.k ∧ (r.unpin a).clock = r.clock + 1 ∧
      ∀ b, (r.unpin a).history? b = (r.access a).history? b := by
  obtain ⟨x, hx⟩ := node?_access_self (r := r) (a := a)
  simp only [unpin, ha, Option.isSome_none, Bool.false_eq_true, if_false, hx]
  split
  · exact ⟨k_access, clock_access, fun _ => rfl⟩
  · exact ⟨k_access, clock_access, fun _ => history?_setNode hx rfl⟩

theorem history?_remove :
    (r.remove a).history? b = if b = a then none else r.history? b := by
  unfold remove history?
  rcases ha : r.node? a with _ | x
  · by_cases hb : b = a
    · simp [hb, ha]
    · simp [hb]
  · simp only [node?, lookup_filter_ne]
    split <;> rfl

theorem clock_remove : (r.remove a).clock = r.clock := by
  unfold remove
  cases r.node? a <;> rfl

theorem k_remove : (r.remove a).k = r.k := by
  unfold remove
  cases r.node? a <;> rfl

theorem of_peek (h : r.Sound) (hv : r.peek = some a) : ∃ x, r.node? a = some x ∧
    (x.kthAccess r.k = none ∧ (∀ b y, r.node? b = some y → y.evictable = true →
        y.kthAccess r.k = none → r.clock - y.firstAccess ≤ r.clock - x.firstAccess) ∨
      ∃ time, x.kthAccess r.k = some time ∧ ∀ b y, r.node? b = some y → y.evictable = true →
        ∃ time', y.kthAccess r.k = some time' ∧ r.clock - time' ≤ r.clock - time) := by
  unfold peek at hv
  split at hv
  · cases hv
  rcases Option.or_eq_some_iff.mp hv with hn | ⟨hnone, hv⟩
  · obtain ⟨score, hm, hbest⟩ := exists_of_best hn
    obtain ⟨x, hx, -, hk, rfl⟩ := (mem_newcomers h).mp hm
    refine ⟨x, hx, Or.inl ⟨hk, fun b y hy he hky => ?_⟩⟩
    exact hbest _ ((mem_newcomers h).mpr ⟨y, hy, he, hky, rfl⟩)
  · obtain ⟨score, hm, hbest⟩ := exists_of_best hv
    obtain ⟨x, hx, -, time, hk, rfl⟩ := (mem_veterans h).mp hm
    refine ⟨x, hx, Or.inr ⟨time, hk, fun b y hy he => ?_⟩⟩
    rcases hky : y.kthAccess r.k with _ | time'
    · have hmem := (mem_newcomers h).mpr ⟨y, hy, he, hky, rfl⟩
      exact absurd hnone (best_ne_none (List.ne_nil_of_mem hmem))
    · exact ⟨time', rfl, hbest _ ((mem_veterans h).mpr ⟨y, hy, he, time', hky, rfl⟩)⟩

end LruK

namespace Replacer

variable {r : Replacer α} {k clock : Nat}

def history? : Replacer α → α → Option (List Nat)
  | lru _, _ => none
  | lruK r, a => r.history? a

/-- The replacer goes by the last `k` accesses, and the next access is at `clock`. -/
def IsLruK (k clock : Nat) (r : Replacer α) : Prop := ∃ q, r = lruK q ∧ q.k = k ∧ q.clock = clock

namespace IsLruK

omit [DecidableEq α] in
theorem k_pos (h : r.IsLruK k clock) : 0 < k := by
  obtain ⟨q, -, rfl, -⟩ := h
  exact q.k_pos

theorem pin (h : r.IsLruK k clock) (a : α) : (r.pin a).IsLruK k (clock + 1) := by
  obtain ⟨q, rfl, rfl, rfl⟩ := h
  exact ⟨q.pin a, rfl, LruK.k_pin, LruK.clock_pin⟩

theorem history?_pin (h : r.IsLruK k clock) (a b : α) : (r.pin a).history? b =
    if b = a then some ((clock :: (r.history? a).getD []).take k) else r.history? b := by
  obtain ⟨q, rfl, rfl, rfl⟩ := h
  exact LruK.history?_pin.trans LruK.history?_access

theorem remove (h : r.IsLruK k clock) (a : α) : (r.remove a).IsLruK k clock := by
  obtain ⟨q, rfl, rfl, rfl⟩ := h
  exact ⟨q.remove a, rfl, LruK.k_remove, LruK.clock_remove⟩

theorem history?_remove (h : r.IsLruK k clock) (a b : α) :
    (r.remove a).history? b = if b = a then none else r.history? b := by
  obtain ⟨q, rfl, -⟩ := h
  exact LruK.history?_remove

theorem unpin (h : r.IsLruK k clock) (ha : r.history? a ≠ none) :
    (r.unpin a).IsLruK k clock ∧ ∀ b, (r.unpin a).history? b = r.history? b := by
  obtain ⟨q, rfl, rfl, rfl⟩ := h
  rcases hx : q.node? a with _ | x
  · exact absurd (congrArg (Option.map LruK.Node.history) hx) ha
  simp only [Replacer.unpin, history?, LruK.unpin_of_node? hx]
  split
  · exact ⟨⟨q, rfl, rfl, rfl⟩, fun b => rfl⟩
  · exact ⟨⟨_, rfl, rfl, rfl⟩, fun b => LruK.history?_setNode hx rfl⟩

theorem unpin_new (h : r.IsLruK k clock) (ha : r.history? a = none) :
    (r.unpin a).IsLruK k (clock + 1) ∧
      ∀ b, (r.unpin a).history? b = if b = a then some [clock] else r.history? b := by
  have hpos := h.k_pos
  obtain ⟨q, rfl, rfl, rfl⟩ := h
  have hnode : q.node? a = none := Option.map_eq_none_iff.mp ha
  obtain ⟨hk, hclock, hhistory⟩ := LruK.unpin_of_node?_eq_none hnode
  refine ⟨⟨q.unpin a, rfl, hk, hclock⟩, fun b => ?_⟩
  have haccess := (hhistory b).trans LruK.history?_access
  rwa [show q.history? a = none from ha, Option.getD_none, List.take_of_length_le hpos] at haccess

theorem of_peek (h : r.IsLruK k clock) (hs : r.Sound) (hv : r.peek = some a) :
    ∃ times, r.history? a = some times ∧
      (times[k - 1]? = none ∧ (∀ b times', r.isEvictable b = true → r.history? b = some times' →
          times'[k - 1]? = none →
            clock - times'.getLast?.getD 0 ≤ clock - times.getLast?.getD 0) ∨
        ∃ time, times[k - 1]? = some time ∧ ∀ b times', r.isEvictable b = true →
          r.history? b = some times' →
            ∃ time', times'[k - 1]? = some time' ∧ clock - time' ≤ clock - time) := by
  obtain ⟨q, rfl, rfl, rfl⟩ := h
  have of_history : ∀ b times', q.isEvictable b = true → q.history? b = some times' →
      ∃ y, q.node? b = some y ∧ y.evictable = true ∧ y.history = times' := by
    intro b times' he hb
    obtain ⟨y, hy, he⟩ := LruK.isEvictable_iff.mp he
    rw [LruK.history?, hy] at hb
    exact ⟨y, hy, he, Option.some.inj hb⟩
  obtain ⟨x, hx, ⟨hk, hfirst⟩ | ⟨time, hk, hkth⟩⟩ := LruK.of_peek hs hv
  all_goals refine ⟨x.history, congrArg (Option.map LruK.Node.history) hx, ?_⟩
  · refine Or.inl ⟨hk, fun b times' he hb hkb => ?_⟩
    obtain ⟨y, hy, he, rfl⟩ := of_history b times' he hb
    exact hfirst b y hy he hkb
  · refine Or.inr ⟨time, hk, fun b times' he hb => ?_⟩
    obtain ⟨y, hy, he, rfl⟩ := of_history b times' he hb
    exact hkth b y hy he

end IsLruK

/-- Both are known, and the first is the earlier one. -/
def Earlier (i j : Option Nat) : Prop := ∃ i' ∈ i, ∃ j' ∈ j, i' < j'

/-- By the accesses, `a` is the next of the candidates to go: of those with fewer than `k` the one
whose first is the earliest, and if there are none, the one whose `k`-th latest is. The latest
access comes first. -/
inductive Due (k : Nat) (accesses : α → List Nat) (candidate : α → Prop) (a : α) : Prop where
  | few (few : (accesses a).length < k)
      (earliest : ∀ b, b ≠ a → candidate b → (accesses b).length < k →
        Earlier (accesses a).getLast? (accesses b).getLast?)
  | many (many : ∀ b, candidate b → k ≤ (accesses b).length)
      (earliest : ∀ b, b ≠ a → candidate b → Earlier (accesses a)[k - 1]? (accesses b)[k - 1]?)

omit [DecidableEq α] in
theorem Due.transfer {β : Type} {accesses : α → List Nat} {accesses' : β → List Nat}
    {candidate : α → Prop} {candidate' : β → Prop} {a : α} {b : β}
    (h : Due k accesses candidate a) (heq : accesses a = accesses' b)
    (hcandidate : ∀ b', candidate' b' →
      ∃ a', candidate a' ∧ accesses a' = accesses' b' ∧ (b' ≠ b → a' ≠ a)) :
    Due k accesses' candidate' b := by
  cases h with
  | few hfew hearliest =>
    refine .few (heq ▸ hfew) fun b' hne hb hlt => ?_
    obtain ⟨a', ha, heq', hne'⟩ := hcandidate b' hb
    rw [← heq, ← heq']
    exact hearliest a' (hne' hne) ha (heq' ▸ hlt)
  | many hmany hearliest =>
    refine .many (fun b' hb => ?_) fun b' hne hb => ?_
    · obtain ⟨a', ha, heq', -⟩ := hcandidate b' hb
      exact heq' ▸ hmany a' ha
    · obtain ⟨a', ha, heq', hne'⟩ := hcandidate b' hb
      rw [← heq, ← heq']
      exact hearliest a' (hne' hne) ha

/-- The replacer remembers the latest `k` of these accesses of every evictable entry. They all
happened by now, and none is that of two entries. -/
structure Remembers (r : Replacer α) (k clock : Nat) (accesses : α → List Nat) : Prop where
  isLruK : r.IsLruK k clock
  history : ∀ a, r.isEvictable a = true → r.history? a = some ((accesses a).take k)
  accessed : ∀ a, r.isEvictable a = true → accesses a ≠ []
  lt_clock : ∀ a, ∀ i ∈ accesses a, i < clock
  apart : ∀ a b i, i ∈ accesses a → i ∈ accesses b → a = b

namespace Remembers

variable {accesses : α → List Nat}

omit [DecidableEq α] in
theorem exists_first {times : List Nat} (hne : times ≠ []) (hfew : times.length < k) :
    ∃ i ∈ times, times.getLast? = some i ∧ (times.take k).getLast?.getD 0 = i := by
  refine ⟨_, List.getLast_mem hne, List.getLast?_eq_some_getLast hne, ?_⟩
  rw [List.take_of_length_le (Nat.le_of_lt hfew), List.getLast?_eq_some_getLast hne,
    Option.getD_some]

theorem lt_of_age {i j : Nat} (h : r.Remembers k clock accesses) (hne : b ≠ a)
    (hi : i ∈ accesses a) (hj : j ∈ accesses b) (hage : clock - j ≤ clock - i) : i < j := by
  have hij : i ≠ j := by
    rintro rfl
    exact hne (h.apart b a i hj hi)
  have := h.lt_clock a i hi
  have := h.lt_clock b j hj
  omega

/-- The victim is the evictable entry that is due by the accesses. -/
theorem due_of_peek (h : r.Remembers k clock accesses) (hs : r.Sound) (hv : r.peek = some a) :
    Due k accesses (fun b => r.isEvictable b = true) a := by
  have hkth : ∀ b, ((accesses b).take k)[k - 1]? = (accesses b)[k - 1]? := fun b =>
    List.getElem?_take_of_lt (Nat.sub_lt h.isLruK.k_pos Nat.one_pos)
  have hlength : ∀ b, (accesses b)[k - 1]? = none ↔ (accesses b).length < k := fun b => by
    rw [List.getElem?_eq_none_iff]
    have := h.isLruK.k_pos
    omega
  have hev := isEvictable_of_peek hs hv
  obtain ⟨times, htimes, hbest⟩ := h.isLruK.of_peek hs hv
  obtain rfl := Option.some.inj (htimes.symm.trans (h.history a hev))
  rw [hkth] at hbest
  rcases hbest with ⟨hfew, hfirst⟩ | ⟨i, hi, hlast⟩
  · have hfew := (hlength a).mp hfew
    refine .few hfew fun b hne hb hlt => ?_
    obtain ⟨i, hi, hai, hage⟩ := exists_first (h.accessed a hev) hfew
    obtain ⟨j, hj, hbj, hage'⟩ := exists_first (h.accessed b hb) hlt
    have hle := hfirst b _ hb (h.history b hb) ((hkth b).trans ((hlength b).mpr hlt))
    rw [hage, hage'] at hle
    exact ⟨i, hai, j, hbj, h.lt_of_age hne hi hj hle⟩
  · have hall : ∀ b, r.isEvictable b = true → ∃ j, (accesses b)[k - 1]? = some j ∧
        clock - j ≤ clock - i := by
      intro b hb
      obtain ⟨j, hj, hle⟩ := hlast b _ hb (h.history b hb)
      exact ⟨j, (hkth b).symm.trans hj, hle⟩
    refine .many (fun b hb => ?_) fun b hne hb => ?_
    · obtain ⟨j, hj, -⟩ := hall b hb
      rw [← Nat.not_lt, ← hlength]
      exact fun hnone => Option.some_ne_none j (hj.symm.trans hnone)
    · obtain ⟨j, hj, hle⟩ := hall b hb
      exact ⟨i, hi, j, hj, h.lt_of_age hne (List.mem_of_getElem? hi) (List.mem_of_getElem? hj) hle⟩

end Remembers

end Replacer

end BufferPool
