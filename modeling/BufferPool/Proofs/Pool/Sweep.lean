import BufferPool.Proofs.Disk.Batch
import BufferPool.Proofs.Pool.Flushed

/-! # Sweeps

A sweep flushes the pages of some frames in turn. Frame by frame it writes what
is dirty, and it stops at the first failure. What it has flushed by then stays
flushed, and it has not touched the rest.
-/

namespace BufferPool.Pool

open Storage

variable {δ : Type} {n : Nat} {b b' b₁ : Pool δ n} {f g : Fin n} {fs gs : List (Fin n)}
  {p : PageId}

def dirtyIn (b : Pool δ n) (f : Fin n) : Option (PageId × Page) :=
  if (b.frames.get f).dirty then (b.frames.get f).page.map (·, (b.frames.get f).data) else none

def dirtyPages (b : Pool δ n) : List (PageId × Page) := (List.finRange n).filterMap b.dirtyIn

theorem dirtyIn_congr (h : b'.frames.get f = b.frames.get f) : b'.dirtyIn f = b.dirtyIn f := by
  rw [dirtyIn, dirtyIn, h]

theorem dirtyIn_of_clean (h : (b.frames.get f).dirty = false) : b.dirtyIn f = none := by
  rw [dirtyIn, h]
  rfl

theorem dirtyIn_of_dirty (hp : (b.frames.get f).page = some p)
    (hd : (b.frames.get f).dirty = true) : b.dirtyIn f = some (p, (b.frames.get f).data) := by
  rw [dirtyIn, hp, if_pos hd]
  rfl

theorem fst_of_dirtyIn {w : PageId × Page} (h : b.dirtyIn f = some w) :
    (b.frames.get f).page = some w.1 := by
  rw [dirtyIn] at h
  split at h
  · obtain ⟨p, hp, rfl⟩ := Option.map_eq_some_iff.mp h
    exact hp
  · cases h

theorem Tidy.nodup_dirtyIn (h : b.Tidy) (hfs : fs.Nodup) :
    ((fs.filterMap b.dirtyIn).map Prod.fst).Nodup := by
  rw [List.map_filterMap]
  apply hfs.filterMap
  intro f g p hf hg
  obtain ⟨v, hv, rfl⟩ := Option.map_eq_some_iff.mp hf
  obtain ⟨w, hw, heq⟩ := Option.map_eq_some_iff.mp hg
  have hpage := h.frameOf?_iff.mpr (fst_of_dirtyIn hv)
  have hpage' := h.frameOf?_iff.mpr (fst_of_dirtyIn hw)
  rw [heq, hpage] at hpage'
  exact Option.some.inj hpage'

theorem cachedPages_eq (b : Pool δ n) :
    b.cachedPages = (List.finRange n).filterMap fun f => (b.frames.get f).page := by
  have hframes : b.frames.toList = (List.finRange n).map b.frames.get := by
    rw [← List.ofFn_eq_map, ← Vector.toList_ofFn]
    exact congrArg Vector.toList Vector.ofFn_getElem.symm
  rw [cachedPages, hframes, List.filterMap_map]
  rfl

variable [Device δ]

/-- The frames `fs` were swept: their pages are clean, and the dirty ones among them were written,
in this order. -/
structure Swept (b : Pool δ n) (fs : List (Fin n)) (b' : Pool δ n) : Prop
    extends b.Remarked fs b' where
  clean : ∀ g ∈ fs, (b.frames.get g).page ≠ none → (b'.frames.get g).dirty = false
  batch : Device.Batch b.device (fs.filterMap b.dirtyIn) b'.device

/-- How a sweep of the frames `fs` ends. -/
inductive Sweeps (b : Pool δ n) (fs : List (Fin n)) : Except PoolError Unit × Pool δ n → Prop where

  | done {b' : Pool δ n} (h : b.Swept fs b') : Sweeps b fs (.ok (), b')

  | stopped {before after : List (Fin n)} {f : Fin n} {b₁ : Pool δ n} {w : PageId × Page}
      {e : DiskError} {d : δ} (hfs : fs = before ++ f :: after) (h : b.Swept before b₁)
      (hf : b.dirtyIn f = some w) (hw : Device.write w.1 w.2 b₁.device = (.error e, d))
      (he : e.isMissing = false) :
      Sweeps b fs (.error (.writingBack w.1 e), { b₁ with device := d })

namespace Swept

theorem nil (b : Pool δ n) : b.Swept [] b := ⟨.refl b [], by simp, .nil⟩

theorem of_clean (h : (b.frames.get f).page ≠ none → (b.frames.get f).dirty = false) :
    b.Swept [f] b := by
  refine ⟨.refl b [f], by simpa using h, ?_⟩
  have hnone : b.dirtyIn f = none := by
    rcases hp : b.dirtyIn f with _ | w
    · rfl
    · rw [← hp, dirtyIn_of_clean (h (by rw [fst_of_dirtyIn hp]; exact Option.some_ne_none _))]
  rw [List.filterMap_cons, hnone]
  exact .nil

theorem trans (h : b.Swept fs b₁) (h' : b₁.Swept gs b') (hfs : ∀ g ∈ gs, g ∉ fs) :
    b.Swept (fs ++ gs) b' where
  toRemarked := h.toRemarked.trans h'.toRemarked
  clean g hg hpage := by
    rw [← h.page_eq g] at hpage
    rcases List.mem_append.mp hg with hg | hg
    · by_cases hgs : g ∈ gs
      · exact h'.clean g hgs hpage
      · rw [h'.others g hgs]
        exact h.clean g hg (h.page_eq g ▸ hpage)
    · exact h'.clean g hg hpage
  batch := by
    have hsame := List.filterMap_congr fun g hg => dirtyIn_congr (h.others g (hfs g hg))
    rw [List.filterMap_append, ← hsame]
    exact h.batch.append h'.batch

end Swept

theorem Swept.of_flush {r : Except DiskError Unit} (hf : b.frameOf? p = some f)
    (hdirty : b.dirtyIn f = some (p, (b.frames.get f).data)) (hflush : b.flush p = (.ok true, b'))
    (hw : Device.write p (b.frames.get f).data b.device = (r, b'.device))
    (hr : ∀ e, r = .error e → e.isMissing = true) : b.Swept [f] b' where
  toRemarked := by
    have hremarked := remarked_flush hf
    rwa [hflush] at hremarked
  clean g hg _ := by
    obtain rfl := List.mem_singleton.mp hg
    rw [flush_eq_flushNow] at hflush
    have hclean := dirty_of_flushNow hf (congrArg (fun r => r.1.isOk) hflush)
    rwa [hflush] at hclean
  batch := by
    rw [List.filterMap_cons, hdirty]
    exact .cons hw hr .nil

theorem swept_or_failed (h : b.Tidy) (hp : (b.frames.get f).page = some p) :
    (∃ b', b.flush p = (.ok true, b') ∧ b.Swept [f] b') ∨
      ∃ x e d, b.dirtyIn f = some (p, x) ∧ Device.write p x b.device = (.error e, d) ∧
        e.isMissing = false ∧ b.flush p = (.error (.writingBack p e), { b with device := d }) := by
  have hf := h.frameOf?_iff.mpr hp
  rcases hd : (b.frames.get f).dirty with _ | _
  · exact Or.inl ⟨b, flush_of_clean hf hd, .of_clean fun _ => hd⟩
  have hdirty := dirtyIn_of_dirty hp hd
  rcases hw : Device.write p (b.frames.get f).data b.device with ⟨e | _, d⟩
  · rcases he : e.isMissing with _ | _
    · exact Or.inr ⟨_, e, d, hdirty, hw, he, flush_of_error hf hd hw he⟩
    · have hflush := flush_of_missing hf hd hw he
      exact Or.inl ⟨_, hflush, .of_flush hf hdirty hflush hw fun _ heq => Except.error.inj heq ▸ he⟩
  · have hflush := flush_of_ok hf hd hw
    exact Or.inl ⟨_, hflush, .of_flush hf hdirty hflush hw nofun⟩

theorem Sweeps.cons {r : Except PoolError Unit × Pool δ n} (h : b.Swept [f] b₁) (hf : f ∉ fs)
    (hs : b₁.Sweeps fs r) : b.Sweeps (f :: fs) r := by
  have hne : ∀ g ∈ fs, g ∉ [f] := by
    intro g hg hgf
    exact hf (List.mem_singleton.mp hgf ▸ hg)
  cases hs with
  | done h' => exact .done (h.trans h' hne)
  | @stopped before after g b₂ w e d hfs h' hg hw he =>
    subst hfs
    have hother := h.others g (hne g (List.mem_append_right before List.mem_cons_self))
    exact .stopped (List.cons_append ..).symm
      (h.trans h' fun g hg => hne g (List.mem_append_left _ hg))
      (dirtyIn_congr hother ▸ hg) hw he

theorem sweeps_flushEach (h : b.Tidy) (hfs : fs.Nodup) :
    b.Sweeps fs (b.flushEach (fs.filterMap fun f => (b.frames.get f).page)) := by
  induction fs generalizing b with
  | nil => exact .done (.nil b)
  | cons f fs ih =>
    rw [List.nodup_cons] at hfs
    rw [List.filterMap_cons]
    rcases hp : (b.frames.get f).page with _ | p
    · exact .cons (.of_clean fun hne => absurd hp hne) hfs.1 (ih h hfs.2)
    simp only [flushEach]
    rcases swept_or_failed h hp with ⟨b₁, hflush, hswept⟩ | ⟨x, e, d, hdirty, hw, he, hflush⟩
    · rw [hflush, ← List.filterMap_congr fun g _ => hswept.page_eq g]
      exact .cons hswept hfs.1 (ih (hswept.tidy h) hfs.2)
    · rw [hflush]
      exact .stopped (rfl : f :: fs = [] ++ f :: fs) (.nil b) hdirty hw he

theorem sweeps_flushAll (h : b.Tidy) : b.Sweeps (List.finRange n) b.flushAll := by
  rw [flushAll, cachedPages_eq]
  exact sweeps_flushEach h (List.nodup_finRange n)

theorem mem_before_iff {before after : List (Fin n)}
    (h : List.finRange n = before ++ f :: after) : g ∈ before ↔ g < f := by
  have hlt := List.pairwise_lt_finRange n
  rw [h, List.pairwise_append] at hlt
  obtain ⟨-, hlater, hbefore⟩ := hlt
  constructor
  · exact fun hg => hbefore g hg f List.mem_cons_self
  · intro hg
    have hmem := List.mem_finRange g
    rw [h, List.mem_append] at hmem
    rcases hmem with hmem | hmem
    · exact hmem
    · rcases List.mem_cons.mp hmem with rfl | hmem
      · exact absurd hg (lt_irrefl g)
      · exact absurd hg (List.rel_of_pairwise_cons hlater hmem).le.not_gt

namespace Swept

theorem stored [Storage δ] [Pagewise δ] (h : b.Swept fs b') (hb : b.Tidy)
    (hd : Pagewise.InOrder b.device) (hfs : fs.Nodup) {w : PageId × Page}
    (hw : w ∈ fs.filterMap b.dirtyIn) (hplace : page? b.device w.1 ≠ none) :
    page? b'.device w.1 = some w.2 :=
  h.batch.stored hd (hb.nodup_dirtyIn hfs) hw hplace

theorem forget {b' : Pool (Traced δ) n} (h : b.traced.Swept fs b') :
    b.Swept fs (b'.mapDevice Traced.device) ∧
      b'.device.calls = DiskCall.writes (fs.filterMap b.dirtyIn) := by
  refine ⟨⟨⟨h.table, h.free, h.replacer, h.frame, h.others⟩, h.clean, ?_⟩, ?_⟩
  · exact (h.batch.map Traced.hom_device :)
  · exact Traced.calls_of_batch h.batch

end Swept

/-- A flush of everything sweeps all frames, or those before the first that fails, and it makes no
other request than these writes. -/
theorem flushAll_cases (h : b.Tidy) :
    (∃ b', b.Swept (List.finRange n) b' ∧ b.flushAll = (.ok (), b') ∧
      b.asks .flushAll = DiskCall.writes b.dirtyPages) ∨
    ∃ before f after b₁ w e d, List.finRange n = before ++ f :: after ∧ b.Swept before b₁ ∧
      b.dirtyIn f = some w ∧ Device.write w.1 w.2 b₁.device = (.error e, d) ∧
      e.isMissing = false ∧ b.flushAll = (.error (.writingBack w.1 e), { b₁ with device := d }) ∧
      b.asks .flushAll = DiskCall.writes (before.filterMap b.dirtyIn ++ [w]) := by
  have hflush : b.flushAll = Prod.map id (mapDevice Traced.device) b.traced.flushAll :=
    map_flushEach Traced.hom_device b.traced b.traced.cachedPages
  have hasks : b.asks .flushAll = b.traced.flushAll.2.device.calls := rfl
  have hsweep := sweeps_flushAll h.traced
  generalize b.traced.flushAll = r at hsweep hflush hasks
  cases hsweep with
  | done hswept =>
    obtain ⟨hswept, hcalls⟩ := hswept.forget
    exact Or.inl ⟨_, hswept, hflush, hasks.trans hcalls⟩
  | @stopped before after f b₁ w e d hfs hswept hf hw he =>
    obtain ⟨hswept, hcalls⟩ := hswept.forget
    have hwrite := (Traced.hom_device.write w.1 w.2 b₁.device).trans
      (congrArg (Prod.map id Traced.device) hw)
    have hlast : d.calls = b₁.device.calls ++ [.write w.1 w.2] :=
      congrArg (fun r => r.2.calls) hw.symm
    refine Or.inr ⟨before, f, after, _, w, e, d.device, hfs, hswept, hf, hwrite, he, hflush, ?_⟩
    rw [hasks, DiskCall.writes, List.map_append]
    exact hlast.trans (congrArg (· ++ _) hcalls)

variable [Storage δ]

structure FlushedAll (b b' : Pool δ n) : Prop where
  asks : b.asks .flushAll = DiskCall.writes b.dirtyPages
  clean : ∀ p, b'.isDirty? p ≠ some true
  stored : ∀ w ∈ b.dirtyPages, page? b.device w.1 ≠ none → page? b'.device w.1 = some w.2

/-- Between `b` and `b'` the dirty pages `before` were flushed, and the next write, of the page in
the frame `f`, has failed. -/
structure FlushedUpTo (b : Pool δ n) (f : Fin n) (before : List (PageId × Page))
    (w : PageId × Page) (b' : Pool δ n) : Prop where
  pages : ∃ after, b.dirtyPages = before ++ w :: after
  failing : b.dirtyIn f = some w
  asks : b.asks .flushAll = DiskCall.writes (before ++ [w])
  clean : ∀ g < f, (b.frames.get g).page ≠ none → (b'.frames.get g).dirty = false
  stored : ∀ v ∈ before, page? b.device v.1 ≠ none → page? b'.device v.1 = some v.2
  frames : ∀ g, f ≤ g → b'.frames.get g = b.frames.get g
  device : ∀ p, p ∉ before.map Prod.fst → page? b'.device p = page? b.device p

variable [Pagewise δ] {w : PageId × Page} {e : DiskError} {d : δ}

theorem Swept.flushedAll (h : b.Swept (List.finRange n) b') (hb : b.Tidy)
    (hd : Pagewise.InOrder b.device) (hasks : b.asks .flushAll = DiskCall.writes b.dirtyPages) :
    b.FlushedAll b' where
  asks := hasks
  clean p hp := by
    obtain ⟨g, hg, hdirty⟩ := Option.map_eq_some_iff.mp hp
    have hpage := (h.tidy hb).page_eq hg
    rw [h.page_eq g] at hpage
    rw [h.clean g (List.mem_finRange g) (hpage ▸ Option.some_ne_none p)] at hdirty
    cases hdirty
  stored _ hw := h.stored hb hd (List.nodup_finRange n) hw

theorem Swept.flushedUpTo {before after : List (Fin n)}
    (hfs : List.finRange n = before ++ f :: after) (h : b.Swept before b') (hb : b.Tidy)
    (hd : Pagewise.InOrder b.device) (hf : b.dirtyIn f = some w)
    (hw : Device.write w.1 w.2 b'.device = (.error e, d))
    (hasks : b.asks .flushAll = DiskCall.writes (before.filterMap b.dirtyIn ++ [w])) :
    b.FlushedUpTo f (before.filterMap b.dirtyIn) w { b' with device := d } where
  pages := by
    simp only [dirtyPages, hfs, List.filterMap_append, List.filterMap_cons, hf]
    exact ⟨_, rfl⟩
  failing := hf
  asks := hasks
  clean g hg := h.clean g ((mem_before_iff hfs).mpr hg)
  stored v hv hplace := by
    have hnodup := List.nodup_finRange n
    rw [hfs] at hnodup
    have hstored := h.stored hb hd (hnodup.sublist (List.sublist_append_left _ _)) hv hplace
    exact (congrFun (Pagewise.write_error hw) v.1).trans hstored
  frames g hg := by
    apply h.others
    intro hmem
    exact ((mem_before_iff hfs).mp hmem).not_ge hg
  device p hp := (congrFun (Pagewise.write_error hw) p).trans (h.batch.page?_eq hd hp)

end BufferPool.Pool
