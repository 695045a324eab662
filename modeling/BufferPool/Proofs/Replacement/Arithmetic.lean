import Mathlib.Data.Finset.Card
import BufferPool.Proofs.Replacement.AccessOrder

/-! # The arithmetic of LRU-K

The times that are remembered are those of different accesses, and the evictable
entries are counted. So no subtraction falls below zero, and no two candidates
are of the same age, so that it does not matter in which order they are looked at.
-/

namespace BufferPool

open Replacer Event

variable {α : Type} [DecidableEq α] {a b : α}

namespace Replacer

variable {r t : Replacer α}

theorem exists_finset (h : r.Sound) :
    ∃ entries : Finset α, (∀ a, a ∈ entries ↔ r.isEvictable a = true) ∧ entries.card = r.size := by
  obtain ⟨entries, hnodup, hmem, hsize⟩ := exists_evictable h
  refine ⟨entries.toFinset, fun a => List.mem_toFinset.trans (hmem a), ?_⟩
  rw [List.toFinset_card_of_nodup hnodup, hsize]

theorem size_of_erased (h : r.Sound) (h' : t.Sound)
    (hev : ∀ b, t.isEvictable b = (b ≠ a && r.isEvictable b)) :
    t.size + (r.isEvictable a).toNat = r.size := by
  obtain ⟨entries, hmem, hsize⟩ := exists_finset h
  obtain ⟨entries', hmem', hsize'⟩ := exists_finset h'
  have herase : entries' = entries.erase a := by
    ext b
    rw [Finset.mem_erase, hmem', hmem, hev, Bool.and_eq_true, decide_eq_true_eq]
  rw [← hsize, ← hsize', herase]
  rcases ha : r.isEvictable a with _ | _
  · have hnot : a ∉ entries := by simp [hmem, ha]
    rw [Finset.erase_eq_of_notMem hnot]
    rfl
  · exact Finset.card_erase_add_one ((hmem a).mpr ha)

theorem size_of_inserted (h : r.Sound) (h' : t.Sound)
    (hev : ∀ b, t.isEvictable b = (b = a || r.isEvictable b)) :
    t.size = r.size + (!r.isEvictable a).toNat := by
  obtain ⟨entries, hmem, hsize⟩ := exists_finset h
  obtain ⟨entries', hmem', hsize'⟩ := exists_finset h'
  have hinsert : entries' = insert a entries := by
    ext b
    rw [Finset.mem_insert, hmem', hmem, hev, Bool.or_eq_true, decide_eq_true_eq]
  rw [← hsize, ← hsize', hinsert]
  rcases ha : r.isEvictable a with _ | _
  · exact Finset.card_insert_of_notMem (by simp [hmem, ha])
  · rw [Finset.insert_eq_of_mem ((hmem a).mpr ha)]
    rfl

namespace Event

theorem pairwise_accesses (a : α) (past : List (Event α)) :
    (accesses a past).Pairwise (· > ·) := by
  induction past with
  | nil => exact .nil
  | cons e past ih =>
    have hcons : (accessCount past :: accesses a past).Pairwise (· > ·) :=
      List.pairwise_cons.mpr ⟨fun i hi => lt_accessCount hi, ih⟩
    rcases e with b | b | b | (_ | b) | answer <;> simp only [accesses]
    · split
      · exact hcons
      · exact ih
    · split
      · exact hcons
      · exact ih
    · split
      · exact .nil
      · exact ih
    · exact ih
    · split
      · exact .nil
      · exact ih
    · exact ih

end Event

end Replacer

namespace LruK

variable {r : LruK α} {x y : Node}

omit [DecidableEq α] in
/-- If no two scores are the same, then the order of the entries does not matter. -/
theorem best_eq_of_perm {entries entries' : List (α × Nat)} (h : entries'.Perm entries)
    (apart : ∀ c ∈ entries, ∀ d ∈ entries, c.2 = d.2 → c.1 = d.1) :
    best entries' = best entries := by
  rcases hb : best entries with _ | b
  · have hnil : entries = [] := by
      by_contra hne
      exact best_ne_none hne hb
    rw [hnil] at h
    rw [h.eq_nil]
    rfl
  rcases ha : best entries' with _ | a
  · have hne : entries' ≠ [] := by
      rintro rfl
      rw [h.nil_eq] at ha
      exact Option.some_ne_none b (hb.symm.trans ha)
    exact absurd ha (best_ne_none hne)
  obtain ⟨score, hm, hle⟩ := exists_of_best hb
  obtain ⟨score', hm', hle'⟩ := exists_of_best ha
  have heq : score' = score :=
    Nat.le_antisymm (hle _ (h.mem_iff.mp hm')) (hle' _ (h.mem_iff.mpr hm))
  exact congrArg some (apart _ (h.mem_iff.mp hm') _ hm heq)

/-- What is remembered are the times of different accesses, at least one and at most `k` of every
entry, the most recent first. The evictable entries are counted. -/
structure Exact (r : LruK α) : Prop extends Sound r where
  length : ∀ a x, (a, x) ∈ r.nodes → 1 ≤ x.history.length ∧ x.history.length ≤ r.k
  decreasing : ∀ a x, (a, x) ∈ r.nodes → x.history.Pairwise (· > ·)
  lt_clock : ∀ a x, (a, x) ∈ r.nodes → ∀ i ∈ x.history, i < r.clock
  apart : ∀ a b x y, (a, x) ∈ r.nodes → (b, y) ∈ r.nodes → a ≠ b →
    x.history.Disjoint y.history

/-- No subtraction falls below zero: what was subtracted can be added again. The count does not
outgrow the clock. There is a victim if an entry is evictable, in whatever order the entries
are. -/
structure Checked (r : LruK α) : Prop where
  index : r.k - 1 + 1 = r.k
  age : ∀ a x, (a, x) ∈ r.nodes → ∀ time, x.kthAccess r.k = some time →
    r.clock - time + time = r.clock
  pin : ∀ a, (r.pin a).evictableCount + (r.isEvictable a).toNat = r.evictableCount
  unpin : ∀ a, (r.unpin a).evictableCount = r.evictableCount + (!r.isEvictable a).toNat
  remove : ∀ a, (r.remove a).evictableCount + (r.isEvictable a).toNat = r.evictableCount
  victim : ∀ a, r.peek = some a → r.victim.2.evictableCount + 1 = r.evictableCount
  count_le : r.evictableCount ≤ r.clock
  answered : 0 < r.evictableCount → ∃ a, r.peek = some a
  any_order : ∀ nodes, nodes.Perm r.nodes → ({ r with nodes } : LruK α).peek = r.peek

namespace Exact

omit [DecidableEq α] in
theorem firstAccess_mem (h : r.Exact) (hx : (a, x) ∈ r.nodes) : x.firstAccess ∈ x.history := by
  have hne : x.history ≠ [] := List.ne_nil_of_length_pos (h.length a x hx).1
  rw [Node.firstAccess, List.getLast?_eq_some_getLast hne]
  exact List.getLast_mem hne

theorem eq_of_age {i j : Nat} (h : r.Exact) (hx : (a, x) ∈ r.nodes) (hy : (b, y) ∈ r.nodes)
    (hi : i ∈ x.history) (hj : j ∈ y.history) (hage : r.clock - i = r.clock - j) : a = b := by
  have hlt := h.lt_clock a x hx i hi
  have hlt' := h.lt_clock b y hy j hj
  have hij : i = j := by omega
  by_contra hab
  exact h.apart a b x y hx hy hab hi (hij ▸ hj)

/-- Candidates whose scores are the ages of accesses are known by their scores. -/
theorem apart_of_ages {candidates : List (α × Nat)} (h : r.Exact)
    (hages : ∀ a age, (a, age) ∈ candidates →
      ∃ x, r.node? a = some x ∧ ∃ i ∈ x.history, r.clock - i = age) :
    ∀ c ∈ candidates, ∀ d ∈ candidates, c.2 = d.2 → c.1 = d.1 := by
  rintro ⟨a, age⟩ hc ⟨b, age'⟩ hd hage
  obtain ⟨x, hx, i, hi, rfl⟩ := hages a age hc
  obtain ⟨y, hy, j, hj, rfl⟩ := hages b age' hd
  rw [node?_eq_some_iff h.toSound] at hx hy
  exact h.eq_of_age hx hy hi hj hage

theorem peek_eq_of_perm (h : r.Exact) {nodes : List (α × Node)} (hn : nodes.Perm r.nodes) :
    ({ r with nodes } : LruK α).peek = r.peek := by
  have hnewcomers : ∀ a age, (a, age) ∈ r.newcomers →
      ∃ x, r.node? a = some x ∧ ∃ i ∈ x.history, r.clock - i = age := by
    intro a age hc
    obtain ⟨x, hx, -, -, hage⟩ := (mem_newcomers h.toSound).mp hc
    exact ⟨x, hx, _, h.firstAccess_mem ((node?_eq_some_iff h.toSound).mp hx), hage⟩
  have hveterans : ∀ a age, (a, age) ∈ r.veterans →
      ∃ x, r.node? a = some x ∧ ∃ i ∈ x.history, r.clock - i = age := by
    intro a age hc
    obtain ⟨x, hx, -, time, htime, hage⟩ := (mem_veterans h.toSound).mp hc
    exact ⟨x, hx, time, List.mem_of_getElem? htime, hage⟩
  have hnew := best_eq_of_perm (hn.filterMap _) (h.apart_of_ages hnewcomers)
  have hold := best_eq_of_perm (hn.filterMap _) (h.apart_of_ages hveterans)
  unfold peek
  split
  · rfl
  · exact congrArg₂ Option.or hnew hold

theorem length_nodes_le (h : r.Exact) : r.nodes.length ≤ r.clock := by
  have hinj : (r.nodes.map fun c => c.2.firstAccess).Nodup := by
    apply List.Nodup.map_on _ (h.nodup.of_map Prod.fst)
    rintro ⟨a, x⟩ hx ⟨b, y⟩ hy hage
    have hxa := h.firstAccess_mem hx
    have hyb := h.firstAccess_mem hy
    obtain rfl : a = b := h.eq_of_age hx hy hxa hyb (congrArg (r.clock - ·) hage)
    exact List.inj_on_of_nodup_map h.nodup hx hy rfl
  have hsub : (r.nodes.map fun c => c.2.firstAccess) ⊆ List.range r.clock := by
    intro i hi
    obtain ⟨⟨a, x⟩, hx, rfl⟩ := List.mem_map.mp hi
    exact List.mem_range.mpr (h.lt_clock a x hx _ (h.firstAccess_mem hx))
  have hle := (List.subperm_of_subset hinj hsub).length_le
  rwa [List.length_map, List.length_range] at hle

theorem checked (h : r.Exact) : r.Checked := by
  have hremove (a : α) : (r.remove a).evictableCount + (r.isEvictable a).toNat = r.evictableCount :=
    size_of_erased (r := .lruK r) (t := .lruK (r.remove a)) h.toSound h.toSound.remove
      fun _ => isEvictable_remove
  constructor
  · exact Nat.sub_add_cancel r.k_pos
  · intro a x hx time ht
    exact Nat.sub_add_cancel (Nat.le_of_lt (h.lt_clock a x hx time (List.mem_of_getElem? ht)))
  · exact fun a => size_of_erased (r := .lruK r) (t := .lruK (r.pin a)) h.toSound h.toSound.pin
      fun _ => isEvictable_pin
  · exact fun a => size_of_inserted (r := .lruK r) (t := .lruK (r.unpin a)) h.toSound
      h.toSound.unpin fun _ => isEvictable_unpin
  · exact hremove
  · intro a ha
    have hcount := hremove a
    rw [isEvictable_of_peek h.toSound ha] at hcount
    rw [LruK.victim, ha]
    exact hcount
  · rw [h.count]
    exact Nat.le_trans List.countP_le_length h.length_nodes_le
  · intro hpos
    rw [h.count, List.countP_pos_iff] at hpos
    obtain ⟨⟨a, x⟩, hx, he⟩ := hpos
    have hev : r.isEvictable a = true :=
      isEvictable_iff.mpr ⟨x, (node?_eq_some_iff h.toSound).mpr hx, he⟩
    exact Option.ne_none_iff_exists'.mp (peek_ne_none h.toSound hev)
  · exact fun nodes hn => h.peek_eq_of_perm hn

end Exact

end LruK

namespace Chronicle

variable {s : Chronicle α} {k : Nat}

theorem Recalls.exact (h : s.Recalls k) : ∃ r, s.replacer = .lruK r ∧ r.k = k ∧
    r.clock = accessCount s.past ∧ r.Exact := by
  obtain ⟨r, hr, hk, hclock⟩ := h.isLruK
  have hsound : r.Sound := by
    have := h.sound
    rwa [hr] at this
  have hhistory : ∀ a x, (a, x) ∈ r.nodes →
      Tracked a s.past ∧ x.history = (accesses a s.past).take k := by
    intro a x hx
    have hnode := (LruK.node?_eq_some_iff hsound).mpr hx
    have hrecalled := h.history a
    rw [hr] at hrecalled
    simp only [history?, LruK.history?, hnode, Option.map_some] at hrecalled
    split at hrecalled
    · rename_i ha
      exact ⟨ha, Option.some.inj hrecalled⟩
    · cases hrecalled
  have hmem : ∀ a x, (a, x) ∈ r.nodes → ∀ i ∈ x.history, i ∈ accesses a s.past := by
    intro a x hx i hi
    rw [(hhistory a x hx).2] at hi
    exact List.mem_of_mem_take hi
  refine ⟨r, hr, hk, hclock, hsound, ?_, ?_, ?_, ?_⟩
  · intro a x hx
    obtain ⟨ha, hx⟩ := hhistory a x hx
    have hne : accesses a s.past ≠ [] := fun hnil => accesses_eq_nil_iff.mp hnil ha
    rw [hx, List.length_take, hk]
    have := List.length_pos_iff.mpr hne
    have := h.isLruK.k_pos
    omega
  · intro a x hx
    rw [(hhistory a x hx).2]
    exact (pairwise_accesses a s.past).sublist (List.take_sublist k _)
  · intro a x hx i hi
    rw [hclock]
    exact lt_accessCount (hmem a x hx i hi)
  · intro a b x y hx hy hab i hi hi'
    exact hab (eq_of_mem_accesses (hmem a x hx i hi) (hmem b y hy i hi'))

/-- Whatever it is told, the times that an LRU-K replacer remembers are those of different accesses
before now, and its count is that of the evictable entries. So no subtraction falls below zero, and
its choice does not depend on the order of its entries. The clock tells the number of accesses. -/
theorem arithmetic_exact (k : Nat) (k_pos : 0 < k) (calls : List (Call α)) :
    ∃ r, (run ⟨.lruK { k, k_pos }, []⟩ calls).replacer = .lruK r ∧ r.k = k ∧
      r.clock = accessCount (run ⟨.lruK { k, k_pos }, []⟩ calls).past ∧ r.Exact ∧ r.Checked := by
  obtain ⟨r, hr, hk, hclock, hexact⟩ := ((Recalls.start (α := α) k_pos).run calls).exact
  exact ⟨r, hr, hk, hclock, hexact, hexact.checked⟩

def turningOver : List (Call Nat) :=
  [.unpin 1, .pin 2, .pin 1, .unpin 1, .remove 2, .unpin 2, .pin 2, .pin 2, .unpin 2, .remove 9,
    .victim, .unpin 3, .unpin 1]

theorem arithmetic_exact_turning_over : ∃ r : LruK Nat, 0 < 2 ∧
    (run ⟨.lruK { k := 2, k_pos := Nat.two_pos }, []⟩ turningOver).replacer = .lruK r ∧
    r.clock = 8 ∧ r.evictableCount = 3 ∧ r.Exact ∧ r.Checked ∧
    ({ r with nodes := r.nodes.reverse } : LruK Nat).peek = some 3 := by
  obtain ⟨r, hr, -, hclock, hexact, hchecked⟩ := arithmetic_exact 2 Nat.two_pos turningOver
  have hsize : (run ⟨.lruK { k := 2, k_pos := Nat.two_pos }, []⟩
      turningOver).replacer.size = 3 := by
    decide +kernel
  have hpeek : (run ⟨.lruK { k := 2, k_pos := Nat.two_pos }, []⟩ turningOver).replacer.peek =
      some 3 := by
    decide +kernel
  rw [hr] at hsize hpeek
  refine ⟨r, Nat.two_pos, hr, ?_, hsize, hexact, hchecked, ?_⟩
  · rw [hclock]
    decide +kernel
  · rw [hchecked.any_order _ (List.reverse_perm _)]
    exact hpeek

end Chronicle

end BufferPool
