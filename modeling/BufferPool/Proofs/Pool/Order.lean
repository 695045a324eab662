import BufferPool.Proofs.Pool.Flush
import BufferPool.Proofs.Session.Basic

/-! # The order of eviction

The pages that nobody has pinned, in the order in which a pool that evicts the
least recently unpinned page would drop them. A request for a frame drops the
first of them, if there is no free frame, or none at all.
-/

namespace BufferPool

namespace Replacer

variable {α : Type} [DecidableEq α] {r : Replacer α} {a b : α}

def queue : Replacer α → List α
  | lru r => r.queue
  | lruK _ => []

def IsLru (r : Replacer α) : Prop := ∃ q, r = lru q

theorem IsLru.pin (h : r.IsLru) (a : α) : (r.pin a).IsLru := by
  obtain ⟨q, rfl⟩ := h
  exact ⟨q.pin a, rfl⟩

theorem IsLru.unpin (h : r.IsLru) (a : α) : (r.unpin a).IsLru := by
  obtain ⟨q, rfl⟩ := h
  exact ⟨q.unpin a, rfl⟩

theorem IsLru.remove (h : r.IsLru) (a : α) : (r.remove a).IsLru := by
  obtain ⟨q, rfl⟩ := h
  exact ⟨q.remove a, rfl⟩

omit [DecidableEq α] in
theorem Sound.nodup_queue (h : r.Sound) : r.queue.Nodup := by
  cases r with
  | lru r => exact h
  | lruK r => exact List.nodup_nil

theorem queue_pin (r : Replacer α) (a : α) : (r.pin a).queue = r.queue.erase a := by
  cases r <;> rfl

theorem queue_remove (r : Replacer α) (a : α) : (r.remove a).queue = r.queue.erase a := by
  cases r <;> rfl

theorem queue_pin_sublist (r : Replacer α) (a : α) :
    List.Sublist (r.pin a).queue r.queue := by
  rw [queue_pin]
  exact List.erase_sublist

theorem queue_remove_sublist (r : Replacer α) (a : α) :
    List.Sublist (r.remove a).queue r.queue := by
  rw [queue_remove]
  exact List.erase_sublist

theorem Sound.ne_of_mem_queue_pin (h : r.Sound) (hb : b ∈ (r.pin a).queue) : b ≠ a := by
  rintro rfl
  rw [queue_pin] at hb
  exact h.nodup_queue.not_mem_erase hb

theorem Sound.ne_of_mem_queue_remove (h : r.Sound) (hb : b ∈ (r.remove a).queue) : b ≠ a := by
  rintro rfl
  rw [queue_remove] at hb
  exact h.nodup_queue.not_mem_erase hb

theorem IsLru.queue_unpin (h : r.IsLru) (ha : a ∉ r.queue) :
    (r.unpin a).queue = r.queue ++ [a] := by
  obtain ⟨q, rfl⟩ := h
  change a ∉ q.queue at ha
  change (q.unpin a).queue = _
  rw [Lru.unpin, if_neg ha]
  rfl

theorem IsLru.mem_queue_iff (h : r.IsLru) : a ∈ r.queue ↔ r.isEvictable a = true := by
  obtain ⟨q, rfl⟩ := h
  exact Lru.isEvictable_iff.symm

omit [DecidableEq α] in
theorem IsLru.head?_queue (h : r.IsLru) : r.queue.head? = r.peek := by
  obtain ⟨q, rfl⟩ := h
  rfl

end Replacer

namespace Pool

variable {δ : Type} {n : Nat} {b b' : Pool δ n} {f : Fin n} {p : PageId}

/-- The pages that are open to eviction, the next victim first. -/
def order (b : Pool δ n) : List PageId :=
  b.replacer.queue.filterMap fun f => (b.frames.get f).page

theorem mem_queue_iff (h : b.Sound) (hl : b.replacer.IsLru) :
    f ∈ b.replacer.queue ↔ (∃ p, b.frameOf? p = some f) ∧ (b.frames.get f).pins = 0 := by
  rw [hl.mem_queue_iff, h.isEvictable_iff, Option.ne_none_iff_exists']
  simp only [h.frameOf?_iff]

theorem mem_order_iff (h : b.Sound) (hl : b.replacer.IsLru) :
    p ∈ b.order ↔ b.pinCount? p = some 0 := by
  simp only [order, List.mem_filterMap, pinCount?, Option.map_eq_some_iff, mem_queue_iff h hl,
    ← h.frameOf?_iff]
  constructor
  · rintro ⟨f, ⟨-, hpins⟩, hp⟩
    exact ⟨f, hp, hpins⟩
  · rintro ⟨f, hp, hpins⟩
    exact ⟨f, ⟨⟨p, hp⟩, hpins⟩, hp⟩

theorem nodup_order (h : b.Sound) : b.order.Nodup := by
  apply h.replacer.nodup_queue.filterMap
  intro f g p hf hg
  have hp := (h.frameOf?_iff p f).mpr hf
  rw [(h.frameOf?_iff p g).mpr hg] at hp
  exact (Option.some.inj hp).symm

theorem order_sublist (hqueue : List.Sublist b'.replacer.queue b.replacer.queue)
    (hpage : ∀ f ∈ b'.replacer.queue, (b'.frames.get f).page = (b.frames.get f).page) :
    List.Sublist b'.order b.order := by
  have hsame : b'.order = b'.replacer.queue.filterMap fun f => (b.frames.get f).page :=
    List.filterMap_congr hpage
  rw [hsame]
  exact hqueue.filterMap _

theorem order_sublist_of_page_eq (hqueue : List.Sublist b'.replacer.queue b.replacer.queue)
    (hpage : ∀ f, (b'.frames.get f).page = (b.frames.get f).page) :
    List.Sublist b'.order b.order :=
  order_sublist hqueue fun f _ => hpage f

theorem order_release (h : b.Sound) (hl : b.replacer.IsLru) (hp : b.frameOf? p = some f)
    (hpins : (b.frames.get f).pins ≠ 0) {k : Frame → Frame} (hk : ∀ x, (k x).page = x.page) :
    order { b.modifyFrame f k with replacer :=
      if (b.frames.get f).pins = 1 then b.replacer.unpin f else b.replacer } =
      if (b.frames.get f).pins = 1 then b.order ++ [p] else b.order := by
  have hpage := apply_modifyFrame b f Frame.page hk
  have hf : f ∉ b.replacer.queue := by
    rw [mem_queue_iff h hl]
    exact fun hm => hpins hm.2
  simp only [order, hpage]
  split
  · rw [hl.queue_unpin hf, List.filterMap_append]
    simp [h.page_eq hp]
  · rfl

theorem order_unpin (h : b.Sound) (hl : b.replacer.IsLru) (hp : b.frameOf? p = some f)
    (hpins : (b.frames.get f).pins ≠ 0) (dirty : Bool) : (b.unpin p dirty).2.order =
      if (b.frames.get f).pins = 1 then b.order ++ [p] else b.order := by
  rw [unpin_eq hp hpins]
  exact order_release (k := fun x => { x with pins := x.pins - 1, dirty := x.dirty || dirty })
    h hl hp hpins fun _ => rfl

theorem order_closeWindow (h : b.Sound) (hl : b.replacer.IsLru) {w : Window n}
    (hp : b.frameOf? w.page = some w.frame) (hpins : (b.frames.get w.frame).pins ≠ 0)
    (answer : Except PoolError Unit) : (b.closeWindow w answer).order =
      if (b.frames.get w.frame).pins = 1 then b.order ++ [w.page] else b.order := by
  rw [closeWindow_eq]
  exact order_release (k := fun x =>
    { x with pins := x.pins - 1, dirty := x.dirty || !answer.isOk }) h hl hp hpins fun _ => rfl

def IsVictim (b : Pool δ n) (p : PageId) : Prop :=
  b.free = [] ∧ ∃ f, b.replacer.peek = some f ∧ (b.frames.get f).page = some p

theorem IsVictim.head?_order (h : b.IsVictim p) (hl : b.replacer.IsLru) :
    b.order.head? = some p := by
  obtain ⟨-, f, hv, hp⟩ := h
  rw [← hl.head?_queue] at hv
  obtain ⟨queue, hqueue⟩ := List.head?_eq_some_iff.mp hv
  simp only [order, hqueue, List.filterMap_cons, hp, List.head?_cons]

section Victim

variable [Device δ] {q : PageId}

theorem frameOf?_takeFrame (b : Pool δ n) (p : PageId) :
    b.takeFrame.2.frameOf? p = b.frameOf? p ∨ b.IsVictim p := by
  rcases ht : b.takeFrame with ⟨answer, b'⟩
  cases takeFrame_outcome ht with
  | free | full => exact Or.inl rfl
  | @evicted f _ hfree hpeek hevict =>
    cases hevict with
    | empty => exact Or.inl rfl
    | @expelled q _ b₁ hpage hflush =>
      have hsame := frameOf?_flushNow b q p
      rw [hflush] at hsame
      by_cases hq : q = p
      · exact Or.inr ⟨hfree, f, hpeek, hq ▸ hpage⟩
      · exact Or.inl (frameOf?_expel.trans ((if_neg hq).trans hsame))
  | refused _ _ hevict =>
    cases hevict with
    | @refused q _ _ _ hflush =>
      have hsame := frameOf?_flushNow b q p
      rw [hflush] at hsame
      exact Or.inl hsame

/-- Securing a frame drops no page but that of the victim, and only if no frame is free. -/
theorem dropped_of_takeFrame (hp : b.frameOf? p ≠ none) (hn : b.takeFrame.2.frameOf? p = none) :
    b.IsVictim p :=
  (frameOf?_takeFrame b p).resolve_left fun hsame => hp (hsame.symm.trans hn)

theorem dropped_of_fetch (hp : b.frameOf? p ≠ none) (hn : (b.fetch q).2.frameOf? p = none) :
    b.frameOf? q = none ∧ b.IsVictim p := by
  rcases hf : b.fetch q with ⟨answer, b'⟩
  rw [hf] at hn
  have htaken {answer : Except PoolError (Option (Fin n))} {b' : Pool δ n}
      (ht : b.missed.takeFrame = (answer, b')) (hn : b'.frameOf? p = none) : b.IsVictim p :=
    dropped_of_takeFrame (b := b.missed) hp (by rwa [ht])
  cases fetch_outcome hf with
  | invalid | hit => exact absurd hn hp
  | refused _ hq ht | full _ hq ht | missing _ hq ht | unread _ hq ht => exact ⟨hq, htaken ht hn⟩
  | loaded _ hq ht =>
    refine ⟨hq, htaken ht ?_⟩
    rw [frameOf?_install] at hn
    split at hn
    · cases hn
    · exact hn

theorem frameOf?_allocateUnused {answer : Except PoolError PageId}
    (h : b.allocateUnused = (answer, b')) (p : PageId) : b'.frameOf? p = b.frameOf? p := by
  rw [eq_of_allocateUnused h]
  rfl

theorem dropped_of_new (hp : b.frameOf? p ≠ none)
    (hn : b.new.2.frameOf? p = none ∨ b.created? = some p) : b.IsVictim p := by
  apply dropped_of_takeFrame hp
  unfold created? at hn
  rcases hb : b.new with ⟨answer, b'⟩
  rw [hb] at hn
  cases new_outcome hb with
  | refused ht | full ht =>
    rw [ht]
    exact hn.resolve_right nofun
  | @created _ q _ _ ht ha =>
    have halloc := frameOf?_allocateUnused ha p
    rw [ht, ← halloc]
    simp only [frameOf?_modifyStats, frameOf?_install, frames_modifyStats, getElem_install, if_true,
      Option.some.injEq] at hn
    by_cases hqp : q = p
    · rw [halloc, ← hqp]
      exact frameOf?_of_allocateUnused ha
    · rw [if_neg hqp] at hn
      exact hn.resolve_right hqp
  | unallocated ht ha =>
    rw [ht, ← frameOf?_allocateUnused ha]
    exact hn.resolve_right nofun

end Victim

end Pool

end BufferPool
