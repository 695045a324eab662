import Mathlib.Data.List.Nodup
import BufferPool.Replacement.Policy

/-! # Evictable entries

Pinning and removing take an entry out of the evictable ones, unpinning puts it
in, and no other entry is touched. A sound replacer counts its evictable
entries right, and its next victim is one of them.
-/

namespace BufferPool

variable {α : Type} [DecidableEq α] {a b : α}

namespace Lru

variable {r : Lru α}

def Sound (r : Lru α) : Prop := r.queue.Nodup

theorem isEvictable_iff : r.isEvictable a = true ↔ a ∈ r.queue := by
  simp [isEvictable]

theorem Sound.pin (h : r.Sound) : (r.pin a).Sound := List.Nodup.erase a h

theorem Sound.unpin (h : r.Sound) : (r.unpin a).Sound := by
  unfold Sound Lru.unpin
  split
  · exact h
  · rename_i ha
    exact h.append (List.nodup_singleton a) (by simpa using ha)

theorem isEvictable_pin (h : r.Sound) :
    (r.pin a).isEvictable b = (b ≠ a && r.isEvictable b) := by
  rw [Bool.eq_iff_iff, Bool.and_eq_true, isEvictable_iff, isEvictable_iff, decide_eq_true_eq]
  exact List.Nodup.mem_erase_iff h

theorem isEvictable_unpin : (r.unpin a).isEvictable b = (b = a || r.isEvictable b) := by
  rw [Bool.eq_iff_iff, Bool.or_eq_true, isEvictable_iff, isEvictable_iff, decide_eq_true_eq]
  unfold Lru.unpin
  split
  · rename_i ha
    exact ⟨Or.inr, fun hb => hb.elim (fun he => he ▸ ha) id⟩
  · simp [or_comm]

theorem isEvictable_of_peek (h : r.peek = some a) : r.isEvictable a = true :=
  isEvictable_iff.mpr (List.mem_of_mem_head? h)

theorem peek_ne_none (h : r.isEvictable a = true) : r.peek ≠ none := by
  rw [peek, Ne, List.head?_eq_none_iff]
  exact List.ne_nil_of_mem (isEvictable_iff.mp h)

end Lru

namespace LruK

variable {r : LruK α} {x y : Node}

structure Sound (r : LruK α) : Prop where
  nodup : (r.nodes.map Prod.fst).Nodup
  count : r.evictableCount = r.nodes.countP (·.2.evictable)

theorem isEvictable_iff :
    r.isEvictable a = true ↔ ∃ x, r.node? a = some x ∧ x.evictable = true := by
  simp only [isEvictable, Option.any_eq_true]

theorem lookup_cons (nodes : List (α × Node)) :
    ((a, x) :: nodes).lookup b = if b = a then some x else nodes.lookup b := by
  rw [List.lookup_cons]
  by_cases h : b = a
  · simp [h]
  · simp [h, beq_false_of_ne h]

theorem lookup_eq_some_iff_mem {nodes : List (α × Node)} (h : (nodes.map Prod.fst).Nodup) :
    nodes.lookup a = some x ↔ (a, x) ∈ nodes := by
  induction nodes with
  | nil => simp
  | cons c nodes ih =>
    obtain ⟨c, y⟩ := c
    simp only [List.map_cons, List.nodup_cons] at h
    rw [lookup_cons, List.mem_cons, Prod.mk.injEq]
    by_cases he : a = c
    · subst he
      have hx : (a, x) ∉ nodes := fun hm => h.1 (List.mem_map.mpr ⟨_, hm, rfl⟩)
      simp [hx, eq_comm]
    · simp only [he, if_false, ih h.2, false_and, false_or]

theorem node?_eq_some_iff (h : r.Sound) : r.node? a = some x ↔ (a, x) ∈ r.nodes :=
  lookup_eq_some_iff_mem h.nodup

theorem node?_setNode : (r.setNode a x).node? b =
    if b = a then (r.node? a).map fun _ => x else r.node? b := by
  simp only [node?, setNode]
  induction r.nodes with
  | nil => simp
  | cons c nodes ih =>
    obtain ⟨c, y⟩ := c
    rw [List.map_cons, lookup_cons, lookup_cons]
    by_cases hc : c = a
    · subst hc
      rw [if_pos rfl, lookup_cons]
      by_cases hb : b = c
      · simp [hb]
      · simpa [hb] using ih
    · rw [if_neg hc, lookup_cons, ih]
      by_cases hb : b = c
      · simp [hb, hc]
      · simp [hb, Ne.symm hc]

theorem keys_setNode : (r.setNode a x).nodes.map Prod.fst = r.nodes.map Prod.fst := by
  simp only [setNode, List.map_map]
  apply List.map_congr_left
  intro c _
  simp only [Function.comp]
  split <;> rfl

omit [DecidableEq α] in
theorem map_eq_self {nodes : List (α × Node)} {f : α × Node → α × Node}
    (hf : ∀ c, c.1 ≠ a → f c = c) (ha : a ∉ nodes.map Prod.fst) : nodes.map f = nodes := by
  refine (List.map_congr_left fun c hc => hf c ?_).trans (List.map_id nodes)
  rintro rfl
  exact ha (List.mem_map_of_mem hc)

theorem countP_setNode (h : r.Sound) (hy : r.node? a = some y) :
    (r.setNode a x).nodes.countP (·.2.evictable) + y.evictable.toNat =
      r.nodes.countP (·.2.evictable) + x.evictable.toNat := by
  obtain ⟨before, after, hn, hb⟩ := List.lookup_eq_some_iff.mp hy
  have hnd := h.nodup
  rw [hn, List.map_append, List.map_cons, List.nodup_middle, List.nodup_cons,
    List.mem_append, not_or] at hnd
  simp only [setNode, hn, List.map_append, List.map_cons, List.countP_append, List.countP_cons,
    if_true]
  rw [map_eq_self (fun c hc => if_neg hc) hnd.1.1, map_eq_self (fun c hc => if_neg hc) hnd.1.2]
  cases x.evictable <;> cases y.evictable <;> simp <;> omega

theorem Sound.setNode {count : Nat} (h : r.Sound) (hy : r.node? a = some y)
    (hc : count + y.evictable.toNat = r.evictableCount + x.evictable.toNat) :
    Sound { r.setNode a x with evictableCount := count } where
  nodup := by simpa only [keys_setNode] using h.nodup
  count := by
    have := countP_setNode (x := x) h hy
    have := h.count
    simp only
    omega

theorem node?_access : ((r.access a).node? b).map Node.evictable =
    if b = a then some ((r.node? a).any Node.evictable) else (r.node? b).map Node.evictable := by
  unfold access
  cases ha : r.node? a with
  | some x =>
    simp only
    rw [node?_setNode]
    by_cases hb : b = a
    · simp [hb, show ({ r with clock := r.clock + 1 } : LruK α).node? a = some x from ha]
    · simp only [hb, if_false]; rfl
  | none =>
    simp only [node?, List.lookup_append, lookup_cons, List.lookup_nil]
    by_cases hb : b = a
    · subst hb
      simp [show r.nodes.lookup b = none from ha]
    · simp [hb]

theorem isEvictable_access : (r.access a).isEvictable b = r.isEvictable b := by
  have h := node?_access (r := r) (a := a) (b := b)
  by_cases hb : b = a
  · subst hb
    rw [if_pos rfl] at h
    cases ha : (r.access b).node? b with
    | none => simp [ha] at h
    | some x => simpa [isEvictable, ha] using h
  · rw [if_neg hb] at h
    cases ha : (r.access a).node? b <;> cases hr : r.node? b <;> simp_all [isEvictable]

theorem Sound.access (h : r.Sound) : (r.access a).Sound := by
  unfold LruK.access
  cases ha : r.node? a with
  | some x =>
    have hs : Sound { r with clock := r.clock + 1 } := ⟨h.nodup, h.count⟩
    exact hs.setNode ha rfl
  | none =>
    refine ⟨?_, by simp [h.count]⟩
    have hn : a ∉ r.nodes.map Prod.fst := by
      intro hm
      obtain ⟨⟨_, x⟩, hx, rfl⟩ := List.mem_map.mp hm
      rw [(node?_eq_some_iff h).mpr hx] at ha
      cases ha
    rw [List.map_append, List.nodup_append]
    refine ⟨h.nodup, List.nodup_singleton a, fun c hc d hd => ?_⟩
    rintro rfl
    rw [List.mem_singleton.mp hd] at hc
    exact hn hc

theorem node?_access_self : ∃ x, (r.access a).node? a = some x := by
  have h := node?_access (r := r) (a := a) (b := a)
  cases ha : (r.access a).node? a with
  | none => simp [ha] at h
  | some x => exact ⟨x, rfl⟩

theorem isEvictable_eq_of_node? (h : r.node? a = some x) : r.isEvictable a = x.evictable := by
  simp [isEvictable, h]

theorem isEvictable_setNode {count : Nat} (h : r.node? a = some y) :
    LruK.isEvictable { r.setNode a x with evictableCount := count } b =
      if b = a then x.evictable else r.isEvictable b := by
  simp only [isEvictable]
  rw [show LruK.node? { r.setNode a x with evictableCount := count } b = (r.setNode a x).node? b
    from rfl, node?_setNode, h]
  split <;> simp

theorem Sound.pin (h : r.Sound) : (r.pin a).Sound := by
  unfold LruK.pin
  obtain ⟨x, hx⟩ := node?_access_self (r := r) (a := a)
  simp only [hx]
  split
  · rename_i he
    apply h.access.setNode hx
    have hpos : 0 < (r.access a).evictableCount := by
      rw [h.access.count]
      exact List.countP_pos_iff.mpr ⟨_, (node?_eq_some_iff h.access).mp hx, he⟩
    simp only [he, Bool.toNat_true, Bool.toNat_false]
    omega
  · exact h.access

theorem isEvictable_pin : (r.pin a).isEvictable b = (b ≠ a && r.isEvictable b) := by
  unfold LruK.pin
  obtain ⟨x, hx⟩ := node?_access_self (r := r) (a := a)
  simp only [hx]
  split
  · rw [isEvictable_setNode hx, isEvictable_access]
    by_cases hb : b = a <;> simp [hb]
  · rename_i he
    rw [isEvictable_access]
    by_cases hb : b = a
    · subst hb
      rw [← isEvictable_access (a := b), isEvictable_eq_of_node? hx]
      simpa using he
    · simp [hb]

theorem unpin_eq : ∃ t : LruK α, (r.Sound → t.Sound) ∧ (∀ c, t.isEvictable c = r.isEvictable c) ∧
    ∃ x, t.node? a = some x ∧ r.unpin a = if x.evictable then t else
      { t.setNode a { x with evictable := true } with evictableCount := t.evictableCount + 1 } := by
  cases hx : r.node? a with
  | some x => exact ⟨r, id, fun _ => rfl, x, hx, by simp [LruK.unpin, hx]⟩
  | none =>
    obtain ⟨x, ha⟩ := node?_access_self (r := r) (a := a)
    exact ⟨r.access a, Sound.access, fun _ => isEvictable_access, x, ha,
      by simp [LruK.unpin, hx, ha]⟩

theorem Sound.unpin (h : r.Sound) : (r.unpin a).Sound := by
  obtain ⟨t, ht, -, x, hx, he⟩ := unpin_eq (r := r) (a := a)
  rw [he]
  split
  · exact ht h
  · rename_i hf
    exact (ht h).setNode hx (by simp [hf])

theorem isEvictable_unpin : (r.unpin a).isEvictable b = (b = a || r.isEvictable b) := by
  obtain ⟨t, -, ht, x, hx, he⟩ := unpin_eq (r := r) (a := a)
  rw [he, ← ht b]
  split
  · rename_i hf
    by_cases hb : b = a
    · subst hb
      simpa [isEvictable_eq_of_node? hx] using hf
    · simp [hb]
  · rw [isEvictable_setNode hx]
    by_cases hb : b = a <;> simp [hb]

theorem lookup_filter_ne (nodes : List (α × Node)) :
    (nodes.filter fun (c, _) => c ≠ a).lookup b = if b = a then none else nodes.lookup b := by
  induction nodes with
  | nil => simp
  | cons c nodes ih =>
    obtain ⟨c, y⟩ := c
    rw [List.filter_cons, lookup_cons]
    by_cases hc : c = a
    · subst hc
      rw [if_neg (by simp), ih]
      by_cases hb : b = c <;> simp [hb]
    · rw [if_pos (by simpa using hc), lookup_cons, ih]
      by_cases hb : b = c
      · simp [hb, hc]
      · simp [hb]

theorem countP_filter_ne (h : r.Sound) (hx : r.node? a = some x) :
    (r.nodes.filter fun (c, _) => c ≠ a).countP (·.2.evictable) + x.evictable.toNat =
      r.evictableCount := by
  obtain ⟨before, after, hn, hb⟩ := List.lookup_eq_some_iff.mp hx
  have hnd := h.nodup
  rw [hn, List.map_append, List.map_cons, List.nodup_middle, List.nodup_cons,
    List.mem_append, not_or] at hnd
  have keep : ∀ nodes : List (α × Node), a ∉ nodes.map Prod.fst →
      (nodes.filter fun (c, _) => c ≠ a) = nodes := by
    intro nodes hm
    apply List.filter_eq_self.mpr
    intro c hc
    simpa using fun he : c.1 = a => hm (he ▸ List.mem_map_of_mem (f := Prod.fst) hc)
  rw [h.count, hn, List.filter_append, List.filter_cons, if_neg (by simp),
    keep before hnd.1.1, keep after hnd.1.2, List.countP_append, List.countP_append,
    List.countP_cons]
  cases x.evictable
  · simp
  · simp only [Bool.toNat_true, if_true]
    omega

theorem Sound.remove (h : r.Sound) : (r.remove a).Sound := by
  unfold LruK.remove
  cases hx : r.node? a with
  | none => exact h
  | some x =>
    constructor
    · exact h.nodup.sublist (List.filter_sublist.map Prod.fst)
    · have := countP_filter_ne h hx
      simp only
      cases he : x.evictable <;> simp [he] at this ⊢ <;> omega

theorem isEvictable_remove : (r.remove a).isEvictable b = (b ≠ a && r.isEvictable b) := by
  unfold LruK.remove
  cases hx : r.node? a with
  | none =>
    by_cases hb : b = a
    · subst hb
      simp [isEvictable, hx]
    · simp [hb]
  | some x =>
    simp only [isEvictable, node?, lookup_filter_ne]
    by_cases hb : b = a <;> simp [hb]

omit [DecidableEq α] in
theorem mem_of_foldl {entries : List (α × Nat)} {found : Option (α × Nat)}
    {f : Option (α × Nat) → α × Nat → Option (α × Nat)} {y : α × Nat}
    (hf : ∀ found c y, f found c = some y → found = some y ∨ y = c)
    (h : entries.foldl f found = some y) : found = some y ∨ y ∈ entries := by
  induction entries generalizing found with
  | nil => exact Or.inl h
  | cons c entries ih =>
    rcases ih h with h | h
    · rcases hf _ _ _ h with h | rfl
      · exact Or.inl h
      · exact Or.inr List.mem_cons_self
    · exact Or.inr (List.mem_cons_of_mem _ h)

omit [DecidableEq α] in
theorem le_of_foldl {entries : List (α × Nat)} {found : Option (α × Nat)}
    {f : Option (α × Nat) → α × Nat → Option (α × Nat)} {y : α × Nat}
    (hf : ∀ found c, ∃ z, f found c = some z ∧ c.2 ≤ z.2 ∧ ∀ d, found = some d → d.2 ≤ z.2)
    (h : entries.foldl f found = some y) :
    (∀ c ∈ entries, c.2 ≤ y.2) ∧ ∀ d, found = some d → d.2 ≤ y.2 := by
  induction entries generalizing found with
  | nil => exact ⟨nofun, fun d hd => Nat.le_of_eq (congrArg _ (Option.some.inj (hd.symm.trans h)))⟩
  | cons c entries ih =>
    obtain ⟨hle, hfound⟩ := ih h
    obtain ⟨z, hz, hc, hd⟩ := hf found c
    have hzy := hfound z hz
    exact ⟨List.forall_mem_cons.mpr ⟨Nat.le_trans hc hzy, hle⟩,
      fun d hfd => Nat.le_trans (hd d hfd) hzy⟩

omit [DecidableEq α] in
theorem exists_of_best {entries : List (α × Nat)} (h : best entries = some a) :
    ∃ score, (a, score) ∈ entries ∧ ∀ c ∈ entries, c.2 ≤ score := by
  unfold best at h
  obtain ⟨⟨_, score⟩, hf, rfl⟩ := Option.map_eq_some_iff.mp h
  refine ⟨score, (mem_of_foldl (fun found c y hy => ?_) hf).resolve_left nofun,
    (le_of_foldl (fun found c => ?_) hf).1⟩
  · cases found with
    | none => exact Or.inr (Option.some.inj hy).symm
    | some d =>
      simp only at hy
      split at hy
      · exact Or.inr (Option.some.inj hy).symm
      · exact Or.inl hy
  · cases found with
    | none => exact ⟨c, rfl, Nat.le_refl _, nofun⟩
    | some d =>
      simp only
      split
      · rename_i hlt
        exact ⟨c, rfl, Nat.le_refl _, fun _ he => Option.some.inj he ▸ Nat.le_of_lt hlt⟩
      · rename_i hlt
        exact ⟨d, rfl, Nat.le_of_not_lt hlt, fun _ he => Option.some.inj he ▸ Nat.le_refl _⟩

omit [DecidableEq α] in
theorem foldl_ne_none {entries : List (α × Nat)} {found : Option (α × Nat)}
    {f : Option (α × Nat) → α × Nat → Option (α × Nat)} (hf : ∀ found c, f found c ≠ none)
    (h : found ≠ none) : entries.foldl f found ≠ none := by
  induction entries generalizing found with
  | nil => exact h
  | cons c entries ih => exact ih (hf found c)

omit [DecidableEq α] in
theorem best_ne_none {entries : List (α × Nat)} (h : entries ≠ []) : best entries ≠ none := by
  obtain ⟨c, entries, rfl⟩ := List.exists_cons_of_ne_nil h
  rw [best, Ne, Option.map_eq_none_iff, List.foldl_cons]
  refine foldl_ne_none (fun found d => ?_) (by simp)
  rcases found with _ | d'
  · simp
  · simp only
    split <;> simp

theorem mem_newcomers (h : r.Sound) {score : Nat} : (a, score) ∈ r.newcomers ↔
    ∃ x, r.node? a = some x ∧ x.evictable = true ∧ x.kthAccess r.k = none ∧
      r.clock - x.firstAccess = score := by
  simp only [newcomers, List.mem_filterMap, Option.ite_none_right_eq_some, Option.some.injEq,
    Prod.mk.injEq, node?_eq_some_iff h]
  constructor
  · rintro ⟨⟨_, x⟩, hx, ⟨he, hk⟩, rfl, hscore⟩
    exact ⟨x, hx, he, hk, hscore⟩
  · rintro ⟨x, hx, he, hk, hscore⟩
    exact ⟨(a, x), hx, ⟨he, hk⟩, rfl, hscore⟩

theorem mem_veterans (h : r.Sound) {score : Nat} : (a, score) ∈ r.veterans ↔
    ∃ x, r.node? a = some x ∧ x.evictable = true ∧
      ∃ time, x.kthAccess r.k = some time ∧ r.clock - time = score := by
  simp only [veterans, List.mem_filterMap, Option.ite_none_right_eq_some, Option.map_eq_some_iff,
    Prod.mk.injEq, node?_eq_some_iff h]
  constructor
  · rintro ⟨⟨_, x⟩, hx, he, time, hk, rfl, hscore⟩
    exact ⟨x, hx, he, time, hk, hscore⟩
  · rintro ⟨x, hx, he, time, hk, hscore⟩
    exact ⟨(a, x), hx, he, time, hk, rfl, hscore⟩

theorem isEvictable_of_peek (h : r.Sound) (hp : r.peek = some a) : r.isEvictable a = true := by
  unfold peek at hp
  split at hp
  · cases hp
  rw [isEvictable_iff]
  rcases Option.or_eq_some_iff.mp hp with hn | ⟨-, hv⟩
  · obtain ⟨score, hm, -⟩ := exists_of_best hn
    obtain ⟨x, hx, he, -⟩ := (mem_newcomers h).mp hm
    exact ⟨x, hx, he⟩
  · obtain ⟨score, hm, -⟩ := exists_of_best hv
    obtain ⟨x, hx, he, -⟩ := (mem_veterans h).mp hm
    exact ⟨x, hx, he⟩

/-- An evictable entry has `k` accesses or fewer, and so there is a victim. -/
theorem peek_ne_none (h : r.Sound) (ha : r.isEvictable a = true) : r.peek ≠ none := by
  obtain ⟨x, hx, he⟩ := isEvictable_iff.mp ha
  have hcount : r.evictableCount ≠ 0 := by
    rw [h.count]
    exact Nat.ne_of_gt (List.countP_pos_iff.mpr ⟨(a, x), (node?_eq_some_iff h).mp hx, he⟩)
  rw [peek, if_neg hcount, Ne, Option.or_eq_none_iff, not_and_or]
  rcases hk : x.kthAccess r.k with _ | time
  · have hm := (mem_newcomers h).mpr ⟨x, hx, he, hk, rfl⟩
    exact Or.inl (best_ne_none (List.ne_nil_of_mem hm))
  · have hm := (mem_veterans h).mpr ⟨x, hx, he, time, hk, rfl⟩
    exact Or.inr (best_ne_none (List.ne_nil_of_mem hm))

end LruK

namespace Replacer

variable {r : Replacer α}

def Sound : Replacer α → Prop
  | lru r => r.Sound
  | lruK r => r.Sound

theorem Sound.pin (h : r.Sound) : (r.pin a).Sound := by
  cases r with
  | lru r => exact Lru.Sound.pin h
  | lruK r => exact LruK.Sound.pin h

theorem Sound.unpin (h : r.Sound) : (r.unpin a).Sound := by
  cases r with
  | lru r => exact Lru.Sound.unpin h
  | lruK r => exact LruK.Sound.unpin h

theorem Sound.remove (h : r.Sound) : (r.remove a).Sound := by
  cases r with
  | lru r => exact Lru.Sound.pin h
  | lruK r => exact LruK.Sound.remove h

theorem isEvictable_pin (h : r.Sound) :
    (r.pin a).isEvictable b = (b ≠ a && r.isEvictable b) := by
  cases r with
  | lru r => exact Lru.isEvictable_pin h
  | lruK r => exact LruK.isEvictable_pin

theorem isEvictable_unpin : (r.unpin a).isEvictable b = (b = a || r.isEvictable b) := by
  cases r with
  | lru r => exact Lru.isEvictable_unpin
  | lruK r => exact LruK.isEvictable_unpin

theorem isEvictable_remove (h : r.Sound) :
    (r.remove a).isEvictable b = (b ≠ a && r.isEvictable b) := by
  cases r with
  | lru r => exact Lru.isEvictable_pin h
  | lruK r => exact LruK.isEvictable_remove

theorem isEvictable_of_peek (h : r.Sound) (hp : r.peek = some a) : r.isEvictable a = true := by
  cases r with
  | lru r => exact Lru.isEvictable_of_peek hp
  | lruK r => exact LruK.isEvictable_of_peek h hp

theorem peek_ne_none (h : r.Sound) (ha : r.isEvictable a = true) : r.peek ≠ none := by
  cases r with
  | lru r => exact Lru.peek_ne_none ha
  | lruK r => exact LruK.peek_ne_none h ha

theorem ofPolicy_spec {capacity : Nat} {policy : Policy}
    (h : Replacer.ofPolicy capacity policy = .ok r) :
    r.Sound ∧ ∀ a, r.isEvictable a = false := by
  cases policy with
  | lru =>
    obtain rfl := Except.ok.inj h
    exact ⟨(List.nodup_nil : ([] : List α).Nodup), fun _ => rfl⟩
  | lruK k =>
    by_cases hk : 0 < k
    · simp only [ofPolicy, dif_pos hk] at h
      obtain rfl := Except.ok.inj h
      exact ⟨⟨List.nodup_nil, rfl⟩, fun _ => rfl⟩
    · simp only [ofPolicy, dif_neg hk] at h
      cases h

theorem exists_evictable (h : r.Sound) : ∃ entries : List α, entries.Nodup ∧
    (∀ a, a ∈ entries ↔ r.isEvictable a = true) ∧ entries.length = r.size := by
  cases r with
  | lru r => exact ⟨r.queue, h, fun a => Lru.isEvictable_iff.symm, rfl⟩
  | lruK r =>
    refine ⟨(r.nodes.filter (·.2.evictable)).map Prod.fst, ?_, fun a => ?_, ?_⟩
    · exact h.nodup.sublist (List.filter_sublist.map Prod.fst)
    · rw [isEvictable, LruK.isEvictable_iff, List.mem_map]
      constructor
      · rintro ⟨⟨_, x⟩, hx, rfl⟩
        obtain ⟨hx, he⟩ := List.mem_filter.mp hx
        exact ⟨x, (LruK.node?_eq_some_iff h).mpr hx, he⟩
      · rintro ⟨x, hx, he⟩
        exact ⟨(a, x), List.mem_filter.mpr ⟨(LruK.node?_eq_some_iff h).mp hx, he⟩, rfl⟩
    · rw [List.length_map, ← List.countP_eq_length_filter]
      exact h.count.symm

end Replacer

end BufferPool
