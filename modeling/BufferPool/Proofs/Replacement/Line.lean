import BufferPool.Proofs.Replacement.Accesses

/-! # The line for eviction

The evictable entries in the order in which a replacer gives them up, if it is
asked for one victim after the other. Removing the first leaves the line of the
others as it is. An entry that was removed is not known any more until it is
pinned or unpinned again.
-/

namespace BufferPool

variable {α : Type} [DecidableEq α] {a b : α}

namespace LruK

variable {r : LruK α}

theorem isSome_history?_unpin (h : ((r.unpin a).history? b).isSome = true) :
    b = a ∨ (r.history? b).isSome = true := by
  rcases ha : r.node? a with _ | x
  · rw [(unpin_of_node?_eq_none ha).2.2, history?_access] at h
    split at h
    · exact Or.inl ‹_›
    · exact Or.inr h
  · right
    rw [unpin_of_node? ha] at h
    split at h
    · exact h
    · rwa [← history?_setNode (x := { x with evictable := true }) ha rfl]

end LruK

namespace Replacer

variable {r : Replacer α}

/-- The replacer has heard of the entry since it was last removed, if it was. -/
def knows : Replacer α → α → Bool
  | lru r, a => r.queue.contains a
  | lruK r, a => (r.history? a).isSome

theorem knows_pin (h : (r.pin a).knows b = true) : b = a ∨ r.knows b = true := by
  cases r with
  | lru r =>
    right
    simp only [pin, knows, Lru.pin, List.contains_iff_mem] at h ⊢
    exact List.mem_of_mem_erase h
  | lruK r =>
    simp only [pin, knows, LruK.history?_pin, LruK.history?_access] at h ⊢
    split at h
    · exact Or.inl ‹_›
    · exact Or.inr h

theorem knows_unpin (h : (r.unpin a).knows b = true) : b = a ∨ r.knows b = true := by
  cases r with
  | lru r =>
    have hb : r.isEvictable b = true ∨ b = a := by
      have hunpin : (r.unpin a).isEvictable b = true := h
      rw [Lru.isEvictable_unpin, Bool.or_eq_true, decide_eq_true_eq] at hunpin
      exact hunpin.symm
    exact hb.symm
  | lruK r => exact LruK.isSome_history?_unpin h

theorem knows_remove (hr : r.Sound) (h : (r.remove a).knows b = true) :
    b ≠ a ∧ r.knows b = true := by
  cases r with
  | lru r =>
    simp only [remove, knows, Lru.remove, Lru.pin, List.contains_iff_mem] at h ⊢
    exact (List.Nodup.mem_erase_iff hr).mp h
  | lruK r =>
    simp only [remove, knows, LruK.history?_remove] at h ⊢
    split at h
    · cases h
    · exact ⟨‹_›, h⟩

theorem knows_ofPolicy {capacity : Nat} {policy : Policy}
    (h : Replacer.ofPolicy capacity policy = .ok r) : r.knows a = false := by
  cases policy with
  | lru =>
    obtain rfl := Except.ok.inj h
    rfl
  | lruK k =>
    by_cases hk : 0 < k
    · simp only [ofPolicy, dif_pos hk] at h
      obtain rfl := Except.ok.inj h
      rfl
    · simp only [ofPolicy, dif_neg hk] at h
      cases h

def victims : Nat → Replacer α → List α
  | 0, _ => []
  | k + 1, r =>
    match r.victim with
    | (some a, r) => a :: victims k r
    | (none, _) => []

/-- The evictable entries, the next victim first. -/
def line (r : Replacer α) : List α := r.victims r.size

theorem victim_of_peek (hv : r.peek = some a) : r.victim = (some a, r.remove a) := by
  cases r with
  | lru r =>
    obtain ⟨queue, hq⟩ := List.head?_eq_some_iff.mp hv
    simp [victim, Lru.victim, Lru.peek, remove, Lru.remove, Lru.pin, hq]
  | lruK r =>
    have hpeek : r.peek = some a := hv
    simp only [victim, LruK.victim, hpeek, remove]

theorem size_remove (h : r.Sound) (ha : r.isEvictable a = true) :
    (r.remove a).size + 1 = r.size := by
  cases r with
  | lru r =>
    have hm := Lru.isEvictable_iff.mp ha
    have hpos := List.length_pos_of_mem hm
    simp only [size, Lru.size, remove, Lru.remove, Lru.pin, List.length_erase_of_mem hm]
    omega
  | lruK r =>
    obtain ⟨x, hx, he⟩ := LruK.isEvictable_iff.mp ha
    have hcount := LruK.countP_filter_ne h hx
    simp only [size, LruK.size, remove, LruK.remove, hx, he, if_true]
    rw [he, Bool.toNat_true] at hcount
    omega

theorem line_eq_cons (h : r.Sound) (hv : r.peek = some a) : r.line = a :: (r.remove a).line := by
  rw [line, ← size_remove h (isEvictable_of_peek h hv), victims, victim_of_peek hv]
  rfl

theorem line_spec (h : r.Sound) :
    r.line.Nodup ∧ ∀ a, a ∈ r.line ↔ r.isEvictable a = true := by
  induction hk : r.size generalizing r with
  | zero =>
    obtain ⟨entries, -, hmem, hlength⟩ := exists_evictable h
    have hnil : entries = [] := List.eq_nil_of_length_eq_zero (hlength.trans hk)
    simp [line, hk, victims, ← hmem, hnil]
  | succ k ih =>
    obtain ⟨entries, -, hmem, hlength⟩ := exists_evictable h
    have hpos : 0 < entries.length := by omega
    have hsome := peek_ne_none h ((hmem _).mp (List.getElem_mem hpos))
    obtain ⟨v, hv⟩ := Option.ne_none_iff_exists'.mp hsome
    have hev := isEvictable_of_peek h hv
    have hsize := size_remove h hev
    obtain ⟨hnodup, hrest⟩ := ih (r := r.remove v) h.remove (by omega)
    simp only [isEvictable_remove h, Bool.and_eq_true, decide_eq_true_eq] at hrest
    rw [line_eq_cons h hv]
    constructor
    · rw [List.nodup_cons, hrest]
      exact ⟨fun hn => hn.1 rfl, hnodup⟩
    · intro a
      rw [List.mem_cons, hrest]
      by_cases ha : a = v
      · simp [ha, hev]
      · simp [ha]

end Replacer

end BufferPool
