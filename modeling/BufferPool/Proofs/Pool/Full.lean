import BufferPool.Proofs.Pool.Flush

/-! # Full pools

A pool is full if every frame holds a pinned page. No request for a frame is
turned away but by a full pool, which is left as it was: a frame that is
neither free nor evictable holds a pinned page.
-/

namespace BufferPool.Pool

variable {δ : Type} {n : Nat} {b : Pool δ n} {f : Fin n} {p : PageId}

def Full (b : Pool δ n) : Prop := ∀ f, ∃ p, b.frameOf? p = some f ∧ (b.frames.get f).pins ≠ 0

def pinnedCount (b : Pool δ n) : Nat :=
  b.table.toList.countP fun (_, f) => (b.frames.get f).pins ≠ 0

theorem mem_table_toList {x : PageId × Fin n} :
    x ∈ b.table.toList ↔ b.frameOf? x.1 = some x.2 :=
  Std.ExtTreeMap.mem_toList_iff_getElem?_eq_some

theorem Sound.size_replacer_add_pinnedCount (h : b.Sound) :
    b.replacer.size + b.pinnedCount = b.table.size := by
  obtain ⟨entries, hnodup, hmem, hlength⟩ := Replacer.exists_evictable h.replacer
  let unpinned := b.table.toList.filter fun (_, f) => (b.frames.get f).pins = 0
  have hperm : (unpinned.map Prod.snd).Perm entries := by
    have hn : (unpinned.map Prod.snd).Nodup :=
      h.nodup_table_frames.sublist (List.filter_sublist.map Prod.snd)
    refine (List.perm_ext_iff_of_nodup hn hnodup).mpr fun f => ?_
    rw [hmem, h.isEvictable_iff, Option.ne_none_iff_exists']
    simp only [← h.frameOf?_iff, ← Sound.mem_table_frames]
    simp only [unpinned, List.mem_map, List.mem_filter, decide_eq_true_eq]
    constructor
    · rintro ⟨x, ⟨hx, hpins⟩, rfl⟩
      exact ⟨⟨x, hx, rfl⟩, hpins⟩
    · rintro ⟨⟨x, hx, rfl⟩, hpins⟩
      exact ⟨x, ⟨hx, hpins⟩, rfl⟩
  have hunpinned : unpinned.length = b.replacer.size := by
    rw [← hlength, ← hperm.length_eq, List.length_map]
  have hsplit := List.length_eq_countP_add_countP (l := b.table.toList)
    fun (_, f) => (b.frames.get f).pins = 0
  rw [Std.ExtTreeMap.length_toList, List.countP_eq_length_filter] at hsplit
  rw [hsplit, pinnedCount, ← hunpinned]
  simp [unpinned]

theorem Sound.counts (h : b.Sound) : b.freeCount + b.evictableCount + b.pinnedCount = n := by
  rw [freeCount, evictableCount, Nat.add_assoc, h.size_replacer_add_pinnedCount,
    h.length_free_add_size]

theorem pinnedCount_eq_zero (h : ∀ p f, b.frameOf? p = some f → (b.frames.get f).pins = 0) :
    b.pinnedCount = 0 := by
  rw [pinnedCount, List.countP_eq_zero]
  intro x hx
  have hpins := h x.1 x.2 (mem_table_toList.mp hx)
  simp [hpins]

theorem Sound.full_iff (h : b.Sound) : b.Full ↔ b.pinnedCount = n := by
  let frames := (b.table.toList.filter fun (_, f) => (b.frames.get f).pins ≠ 0).map Prod.snd
  have hlength : frames.length = b.pinnedCount := by
    rw [List.length_map, ← List.countP_eq_length_filter, pinnedCount]
  have hnodup : frames.Nodup :=
    h.nodup_table_frames.sublist (List.filter_sublist.map Prod.snd)
  have hfull : b.Full ↔ ∀ f, f ∈ frames := by
    refine forall_congr' fun f => ?_
    simp [frames, mem_table_toList]
  rw [hfull, ← hlength]
  constructor
  · intro hall
    have hperm := (List.perm_ext_iff_of_nodup hnodup (List.nodup_finRange n)).mpr fun f =>
      iff_of_true (hall f) (List.mem_finRange f)
    rw [hperm.length_eq, List.length_finRange]
  · intro hn f
    have hsub : List.Subperm frames (List.finRange n) :=
      List.subperm_of_subset hnodup fun f _ => List.mem_finRange f
    have hperm := hsub.perm_of_length_le (by rw [List.length_finRange, hn])
    exact hperm.mem_iff.mpr (List.mem_finRange f)

theorem pinnedCount_eq_length {ps : List PageId} (hn : ps.Nodup)
    (hps : ∀ p, p ∈ ps ↔ ∃ f, b.frameOf? p = some f ∧ (b.frames.get f).pins ≠ 0) :
    b.pinnedCount = ps.length := by
  let pages := (b.table.toList.filter fun (_, f) => (b.frames.get f).pins ≠ 0).map Prod.fst
  have hnodup : pages.Nodup := by
    rw [List.Nodup, List.pairwise_map]
    refine (b.table.distinct_keys_toList.sublist List.filter_sublist).imp fun hne he => hne ?_
    rw [Std.LawfulEqCmp.compare_eq_iff_eq]
    exact he
  have hperm := (List.perm_ext_iff_of_nodup hnodup hn).mpr fun p => by
    rw [hps]
    simp [pages, mem_table_toList]
  rw [← hperm.length_eq, List.length_map, ← List.countP_eq_length_filter, pinnedCount]

section Device

variable [Device δ]

theorem takeFrame_of_full (hs : b.Sound) (h : b.Full) : b.takeFrame = (.ok none, b) := by
  have hfree : b.free = [] := by
    rw [List.eq_nil_iff_forall_not_mem]
    intro f hf
    obtain ⟨p, hp, -⟩ := h f
    exact hs.not_mem_free hp hf
  have hpeek : b.replacer.peek = none := by
    rw [Option.eq_none_iff_forall_ne_some]
    intro f hf
    obtain ⟨-, -, hpins⟩ := h f
    exact hpins (hs.of_peek hf).2
  simp only [takeFrame, hfree, hpeek]

/-- Only a full pool has no frame for a page to come. -/
theorem takeFrame_eq_none_iff (hs : b.Sound) : b.takeFrame.1 = .ok none ↔ b.Full := by
  refine ⟨fun hn f => ?_, fun h => by rw [takeFrame_of_full hs h]⟩
  rcases ht : b.takeFrame with ⟨answer, b'⟩
  obtain rfl : answer = .ok none := (congrArg Prod.fst ht).symm.trans hn
  cases takeFrame_outcome ht with
  | full hfree hpeek =>
    have hf : (b.frames.get f).page ≠ none := by
      rw [Ne, ← hs.mem_free_iff, hfree]
      exact List.not_mem_nil
    obtain ⟨p, hp⟩ := Option.ne_none_iff_exists'.mp hf
    refine ⟨p, (hs.frameOf?_iff p f).mpr hp, fun hpins => ?_⟩
    exact Replacer.peek_ne_none hs.replacer ((hs.isEvictable_iff f).mpr ⟨hf, hpins⟩) hpeek

theorem new_of_full (hs : b.Sound) (h : b.Full) : b.new = (.ok none, b) := by
  simp only [new, takeFrame_of_full hs h]

theorem new_eq_none_iff (hs : b.Sound) : b.new.1 = .ok none ↔ b.Full := by
  rw [← takeFrame_eq_none_iff hs]
  rcases hn : b.new with ⟨answer, b'⟩
  cases new_outcome hn with
  | refused ht | full ht | created ht | unallocated ht => simp [ht]

theorem fetch_of_full (hs : b.Sound) (h : b.Full) (hv : p ≠ PageId.invalid)
    (hp : b.frameOf? p = none) : b.fetch p = (.ok none, b.missed) := by
  have htake : b.missed.takeFrame = (.ok none, b.missed) :=
    takeFrame_of_full (hs.congr rfl rfl rfl rfl) h
  simp only [missed] at htake ⊢
  simp only [fetch, if_neg hv, hp, htake]

theorem fetch_of_cached (hv : p ≠ PageId.invalid) (hp : b.frameOf? p = some f) :
    (b.fetch p).1 = .ok (some f) := by
  simp only [fetch, if_neg hv, hp]

end Device

end BufferPool.Pool
