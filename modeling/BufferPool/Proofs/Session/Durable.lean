import BufferPool.Proofs.Disk.Memory
import BufferPool.Proofs.Session.History

/-! # Durable flushes

A flush that succeeds has put the bytes of its page on the device, if the page
was dirty when the flush began or no other flush owed its bytes. A flush that
begins in the window of another, with nothing marked since, answers at once and
leaves the device as it is.
-/

namespace BufferPool

open Storage

variable {δ : Type} {n : Nat} [Device δ] [Lawful δ]

namespace Pool

variable {b : Pool δ n} {p : PageId} {f : Fin n}

/-- Flushes lead from `b` to `b'`. They left the page `p` in frame `f` as it was, or they stored its
bytes and cleaned it. The first is no success when `p` was to be flushed and is dirty. -/
structure Flushed (b : Pool δ n) (p : PageId) (f : Fin n) (success : Prop) (b' : Pool δ n) :
    Prop where
  ok : Ok b'.device
  data : (b'.frames.get f).data = (b.frames.get f).data
  cases : ((b'.frames.get f).dirty = (b.frames.get f).dirty ∧ page? b'.device p = page? b.device p ∧
      (success → (b.frames.get f).dirty = false)) ∨
    ((b.frames.get f).dirty = true ∧ (b'.frames.get f).dirty = false ∧
      page? b'.device p = some (b.frames.get f).data)

theorem Flushed.stored {success : Prop} {b' : Pool δ n} (h : b.Flushed p f success b')
    (hs : page? b.device p ≠ none) : page? b'.device p ≠ none := by
  rcases h.cases with ⟨-, hpage, -⟩ | ⟨-, -, hpage⟩
  · rwa [hpage]
  · rw [hpage]
    simp

theorem Flushed.of_success {success : Prop} {b' : Pool δ n} (h : b.Flushed p f success b')
    (hs : success) : b.Flushed p f True b' :=
  ⟨h.ok, h.data, h.cases.imp_left fun hc => ⟨hc.1, hc.2.1, fun _ => hc.2.2 hs⟩⟩

theorem flushed_flushNow (hs : b.Sound) (hok : Ok b.device) (hp : b.frameOf? p = some f)
    (hstored : page? b.device p ≠ none) (q : PageId) :
    b.Flushed p f (q = p ∧ (b.flushNow q).1.isOk = true) (b.flushNow q).2 := by
  rcases hq : b.frameOf? q with _ | g
  · simp only [flushNow, hq]
    refine ⟨hok, rfl, Or.inl ⟨rfl, rfl, ?_⟩⟩
    rintro ⟨rfl, -⟩
    rw [hp] at hq
    cases hq
  rcases hd : (b.frames.get g).dirty with _ | _
  · rw [flushNow_of_clean hq hd]
    refine ⟨hok, rfl, Or.inl ⟨rfl, rfl, ?_⟩⟩
    rintro ⟨rfl, -⟩
    rwa [Option.some.inj (hp.symm.trans hq)]
  rw [flushNow_of_dirty hq hd]
  have hx := frames_writeBack b q (b.frames.get g).data
  rcases hr : b.writeBack q (b.frames.get g).data with ⟨r, b'⟩
  obtain ⟨hsteady, hspec⟩ := Session.writeBack_spec hok hr
  simp only [hr] at hx ⊢
  by_cases hpq : q = p
  · subst hpq
    obtain rfl : f = g := Option.some.inj (hp.symm.trans hq)
    refine ⟨hsteady.ok, ?_, ?_⟩
    · simp only [getElem_modifyFrame, if_true, hx]
    simp only [getElem_modifyFrame, if_true, hx, device_modifyFrame]
    rcases hspec with ⟨rfl, hpage⟩ | ⟨hmissing, hpage⟩
    · refine Or.inr ⟨hd, rfl, ?_⟩
      rw [hpage, Function.update_self]
    · have hfail : r.isOk = false := Bool.eq_false_iff.mpr fun hr => hstored (hmissing hr)
      refine Or.inl ⟨?_, congrFun hpage q, fun hok => ?_⟩
      · rw [hfail, hd]
        rfl
      · rcases r with e | _
        · cases hok.2
        · cases hfail
  · have hfg := hs.frame_ne hpq hq hp
    refine ⟨hsteady.ok, ?_, Or.inl ⟨?_, ?_, fun he => absurd he.1 hpq⟩⟩
    · simp only [getElem_modifyFrame, if_neg hfg, hx]
    · simp only [getElem_modifyFrame, if_neg hfg, hx]
    rw [device_modifyFrame]
    rcases hspec with ⟨-, hpage⟩ | ⟨-, hpage⟩
    · rw [hpage, Function.update_of_ne (Ne.symm hpq)]
    · exact congrFun hpage p

theorem flushed_flushEach (hs : b.Sound) (hok : Ok b.device) (hp : b.frameOf? p = some f)
    (hstored : page? b.device p ≠ none) (ps : List PageId) :
    b.Flushed p f (p ∈ ps ∧ (b.flushEach ps).1.isOk = true) (b.flushEach ps).2 := by
  induction ps generalizing b with
  | nil => exact ⟨hok, rfl, Or.inl ⟨rfl, rfl, fun h => by cases h.1⟩⟩
  | cons q ps ih =>
    have hq := flushed_flushNow hs hok hp hstored q
    have hsq := hs.flushNow q
    have hpq := frameOf?_flushNow b q p
    simp only [flushEach, flush_eq_flushNow]
    generalize b.flushNow q = r at hq hsq hpq
    obtain ⟨e | cached, b₁⟩ := r
    · exact ⟨hq.ok, hq.data, hq.cases.imp_left fun h => ⟨h.1, h.2.1, fun h => by cases h.2⟩⟩
    have hrest := ih hsq hq.ok (hpq.trans hp) (hq.stored hstored)
    refine ⟨hrest.ok, hrest.data.trans hq.data, ?_⟩
    rcases hq.cases with ⟨hd, hpage, hclean⟩ | ⟨hd, hd', hpage⟩
    · rcases hrest.cases with ⟨hd₁, hpage₁, hclean₁⟩ | ⟨hd₁, hd₁', hpage₁⟩
      · refine Or.inl ⟨hd₁.trans hd, hpage₁.trans hpage, fun h => ?_⟩
        rcases List.mem_cons.mp h.1 with rfl | hm
        · exact hclean ⟨rfl, rfl⟩
        · exact hd.symm.trans (hclean₁ ⟨hm, h.2⟩)
      · exact Or.inr ⟨hd.symm.trans hd₁, hd₁', hpage₁.trans (congrArg some hq.data)⟩
    · rcases hrest.cases with ⟨hd₁, hpage₁, -⟩ | ⟨hd₁, -, -⟩
      · exact Or.inr ⟨hd, hd₁.trans hd', hpage₁.trans hpage⟩
      · rw [hd'] at hd₁
        cases hd₁

end Pool

namespace Session

open Pool

/-- The device holds one of these contents of the page. -/
def Saved (s : Session δ n) (p : PageId) (C : Set Page) : Prop :=
  ∃ x ∈ C, page? s.pool.device p = some x

/-- The actions of a flush of `p` that succeeds, from its call to its return. Others may act in its
window. -/
inductive Flushes (s : Session δ n) (p : PageId) : List (Action n) → Prop where
  | call (h : (s.pool.flush p).1 = .ok true) : Flushes s p [.call (.flush p)]
  | callAll (hp : s.pool.isCached p = true) (h : s.pool.flushAll.1 = .ok ()) :
      Flushes s p [.call .flushAll]
  | atOnce (h : (s.pool.beginFlush p).1 = .done (.ok true)) : Flushes s p [.beginFlush p]
  | window {w : Window n} {as : List (Action n)} (h : (s.pool.beginFlush p).1 = .window w)
      (hw : (s.run (.beginFlush p :: as)).flights[s.flights.length]? =
        some ⟨w, .written (.ok ())⟩) :
      Flushes s p (.beginFlush p :: (as ++ [.closeWindow s.flights.length]))

variable {s : Session δ n} {p : PageId} {f : Fin n} {C : Set Page} {late : Prop}
  {as : List (Action n)}

theorem Kept.saved (h : s.Kept p C False False) : s.Saved p C :=
  h.settled nofun id

theorem Kept.of_saved (h : s.Kept p C late False) (hs : s.Saved p C) : s.Kept p C False False := by
  obtain ⟨x, hC, hx⟩ := hs
  exact ⟨h.mem, ⟨x, hx, Or.inl hC⟩, nofun⟩

theorem Kept.saved_of_written (h : s.Kept p C late False) (hv : s.Valid) (hb : s.Backed) {i : Nat}
    {w : Window n} (hi : s.flights[i]? = some ⟨w, .opened⟩) (hpage : w.page = p)
    (hok : (s.pool.writeWindow w).1 = .ok ()) :
    ∃ x ∈ C, page? (s.pool.writeWindow w).2.device p = some x := by
  subst hpage
  have hp : s.pool.frameOf? w.page = some w.frame := hv.inFrame _ (List.mem_of_getElem? hi) rfl
  obtain ⟨-, ⟨-, hupdate⟩ | ⟨hnone, -⟩⟩ := writeBack_spec hb.ok
    (show s.pool.writeBack w.page (s.pool.frames.get w.frame).data = _ from rfl)
  · exact ⟨_, h.mem _ hp, (congrFun hupdate _).trans (Function.update_self ..)⟩
  · obtain ⟨x, hx, -⟩ := h.stored
    rw [hnone (congrArg Except.isOk hok)] at hx
    cases hx

theorem Kept.run_flight (hv : s.Valid) (hb : s.Backed) (h : s.Kept p C late False) {i : Nat}
    {w : Window n} (hi : s.flights[i]? = some ⟨w, .opened⟩) (hpage : w.page = p)
    (has : s.Along Proper as) (hdel : s.Along (fun s a => ¬s.Deletes p a) as)
    (hseen : s.seen p as ⊆ C)
    (hend : (s.run as).flights[i]? = some ⟨w, .written (.ok ())⟩) :
    (s.run as).Kept p C False False := by
  induction as generalizing s with
  | nil =>
    rw [run_nil, hi] at hend
    cases hend
  | cons a as ih =>
    have hnext : ∀ x, (s.step a).data? p = some x → x ∈ C := fun x hx =>
      hseen (seen_step_subset ⟨[], List.nil_prefix, hx⟩)
    have hstep := h.step hv hb has.1 hdel.1 (fun _ _ _ _ => hnext) nofun
    have hrest := seen_step_subset.trans hseen
    rcases flights_step (a := a) hi with hi' | ⟨rfl, -, hi'⟩ | ⟨_, -, hc, -⟩
    · exact ih (hv.step has.1.1) (hb.step hv has.1) hstep hi' has.2 hdel.2 hrest hend
    · have hw : (s.pool.writeWindow w).1 = .ok () := by
        rcases flights_run_written as hi' with hr | hr
        · have := Option.some.inj (hr.symm.trans hend)
          exact Stage.written.inj (congrArg Flight.stage this)
        · cases congrArg Flight.stage (Option.some.inj (hr.symm.trans hend))
      refine Kept.run (s := s.step (.writeWindow i)) (hv.step has.1.1) (hb.step hv has.1)
        (hstep.of_saved ?_) has.2 hdel.2 hrest
      have hsaved := h.saved_of_written hv hb hi hpage hw
      simpa only [Saved, Session.step, hi] using hsaved
    · cases hc

/-- A flush whose write succeeded in its window has put one of the contents on the device. -/
theorem Kept.run_window (hv : s.Valid) (hb : s.Backed) (h : s.Kept p C late False) {i : Nat}
    (has : s.Along Proper (.beginFlush p :: (as ++ [.closeWindow i])))
    (hdel : s.Along (fun s a => ¬s.Deletes p a) (.beginFlush p :: (as ++ [.closeWindow i])))
    (hseen : s.seen p (.beginFlush p :: (as ++ [.closeWindow i])) ⊆ C)
    (hopened : (s.step (.beginFlush p)).flights[i]? = some ⟨⟨p, f⟩, .opened⟩)
    (hwritten : (s.run (.beginFlush p :: as)).flights[i]? = some ⟨⟨p, f⟩, .written (.ok ())⟩) :
    (s.run (.beginFlush p :: (as ++ [.closeWindow i]))).Saved p C := by
  have hv' := hv.step has.1.1
  have hb' := hb.step hv has.1
  have hseen' := seen_step_subset.trans hseen
  have h₁ := h.step hv hb has.1 hdel.1
    (fun _ _ _ _ x hx => hseen (seen_step_subset ⟨[], List.nil_prefix, hx⟩)) nofun
  obtain ⟨has, hclose⟩ := along_append.mp has.2
  obtain ⟨hdel, hdelClose⟩ := along_append.mp hdel.2
  have h₂ := h₁.run_flight hv' hb' hopened rfl has hdel
    ((seen_mono (List.prefix_append as _)).trans hseen') hwritten
  have h₃ := h₂.run (hv'.run_proper has) (hb'.run hv' has) hclose hdelClose
    (seen_run_subset.trans hseen')
  rw [run_cons, run_append]
  exact h₃.saved

omit [Lawful δ] in
theorem flights_beginFlush (hp : s.pool.frameOf? p = some f)
    (hpins : (s.pool.frames.get f).pins ≠ 0) (hd : (s.pool.frames.get f).dirty = true) :
    (s.step (.beginFlush p)).flights = s.flights ++ [⟨⟨p, f⟩, .opened⟩] := by
  simp only [step, beginFlush, hp, if_neg hpins, if_pos hd]

omit [Lawful δ] in
theorem beginFlush_opened (hp : s.pool.frameOf? p = some f)
    (hpins : (s.pool.frames.get f).pins ≠ 0) (hd : (s.pool.frames.get f).dirty = true) :
    (s.step (.beginFlush p)).flights[s.flights.length]? = some ⟨⟨p, f⟩, .opened⟩ := by
  rw [flights_beginFlush hp hpins hd]
  exact List.getElem?_concat_length

omit [Lawful δ] in
theorem beginFlush_done {cached : Bool} (hp : s.pool.frameOf? p = some f)
    (h : (s.pool.beginFlush p).1 = .done (.ok cached)) :
    s.pool.beginFlush p = (.done (s.pool.flushNow p).1, (s.pool.flushNow p).2) := by
  simp only [beginFlush, hp] at h ⊢
  split
  · rfl
  · rename_i hpins
    rw [if_neg hpins] at h
    split
    · rename_i hd
      rw [if_pos hd] at h
      cases h
    · rename_i hd
      rw [flushNow_of_clean hp (Bool.eq_false_iff.mpr hd)]

theorem Flushes.flushed (h : s.Flushes p as) (hv : s.Valid) (hb : s.Backed)
    (hstored : page? s.pool.device p ≠ none) :
    (∃ f, s.pool.frameOf? p = some f ∧ s.pool.Flushed p f True (s.run as).pool) ∨
    ∃ f bs, s.pool.frameOf? p = some f ∧ (s.pool.frames.get f).dirty = true ∧
      as = .beginFlush p :: (bs ++ [.closeWindow s.flights.length]) ∧
      (s.step (.beginFlush p)).flights[s.flights.length]? = some ⟨⟨p, f⟩, .opened⟩ ∧
      (s.run (.beginFlush p :: bs)).flights[s.flights.length]? =
        some ⟨⟨p, f⟩, .written (.ok ())⟩ := by
  have hs := hv.sound
  cases h with
  | call h =>
    rw [flush_eq_flushNow] at h
    rcases hp : s.pool.frameOf? p with _ | f
    · simp only [flushNow, hp] at h
      cases h
    · refine Or.inl ⟨f, rfl, ?_⟩
      simp only [run_cons, run_nil, step, after, flush_eq_flushNow]
      exact (flushed_flushNow hs hb.ok hp hstored p).of_success ⟨rfl, congrArg Except.isOk h⟩
  | callAll hp h =>
    obtain ⟨f, hf⟩ := Option.isSome_iff_exists.mp hp
    have hm : p ∈ s.pool.cachedPages :=
      List.mem_filterMap.mpr ⟨s.pool.frames.get f,
        Vector.mem_toList_iff.mpr (Vector.getElem_mem f.isLt), hs.page_eq hf⟩
    refine Or.inl ⟨f, hf, ?_⟩
    exact (flushed_flushEach hs hb.ok hf hstored _).of_success ⟨hm, congrArg Except.isOk h⟩
  | atOnce h =>
    obtain ⟨f, hp⟩ : ∃ f, s.pool.frameOf? p = some f := by
      rcases hp : s.pool.frameOf? p with _ | f
      · simp only [beginFlush, hp] at h
        cases h
      · exact ⟨f, rfl⟩
    have heq := beginFlush_done hp h
    rw [heq] at h
    refine Or.inl ⟨f, hp, ?_⟩
    simp only [run_cons, run_nil, step, heq]
    have hok : (s.pool.flushNow p).1 = .ok true := by
      injection h
    exact (flushed_flushNow hs hb.ok hp hstored p).of_success ⟨rfl, congrArg Except.isOk hok⟩
  | @window w bs h hw =>
    obtain ⟨f, hp, hpins, hd, rfl⟩ := beginFlush_eq_window h
    exact Or.inr ⟨f, bs, hp, hd, rfl, beginFlush_opened hp hpins hd, hw⟩

/-- When a flush succeeds, the device holds bytes that were in the frame since it was marked, if and
only if the page was dirty when the flush was called or the device held such bytes already. So it
is if no other flush owed them. -/
theorem saved_iff_of_flushes {c : Config} {s : Session δ c.poolSize} (hs : s.Reachable)
    {p : PageId} {f : Fin c.poolSize} (hp : s.pool.frameOf? p = some f)
    (hd : (s.pool.frames.get f).dirty = true) (hstored : page? s.pool.device p ≠ none)
    {as call : List (Action c.poolSize)} (has : s.Along Proper (as ++ call))
    (hdel : s.Along (fun s a => ¬s.Deletes p a) (as ++ call))
    (hcall : (s.run as).Flushes p call) :
    ((s.run (as ++ call)).Saved p (s.seen p (as ++ call)) ↔
      (s.run as).pool.isDirty? p = some true ∨
        (s.run as).Saved p (s.seen p (as ++ call))) ∧
    ((∀ w ∈ (s.run as).flights, w.isUnsavedOn p = false) →
      (s.run (as ++ call)).Saved p (s.seen p (as ++ call))) := by
  obtain ⟨has, hcallProper⟩ := along_append.mp has
  obtain ⟨hdel, hcallDel⟩ := along_append.mp hdel
  have hv := hs.valid.run_proper has
  have hb := hs.backed.run hs.valid has
  have hseen : (s.run as).seen p call ⊆ s.seen p (as ++ call) := seen_run_subset
  have hkept : (s.run as).Kept p (s.seen p (as ++ call)) True False :=
    ((Kept.of_dirty hp hd hstored).run hs.valid hs.backed has hdel (seen_mono
      (List.prefix_append as call)))
  have hstored' := stored_run hs.valid hs.backed hstored has hdel
  simp only [run_append s as call]
  generalize s.seen p (as ++ call) = C at hseen hkept
  generalize s.run as = t at *
  rcases hcall.flushed hv hb hstored' with ⟨g, hg, hflushed⟩ |
      ⟨g, bs, hg, hdirty, rfl, hopened, hwritten⟩
  · rcases hflushed.cases with ⟨-, hpage, hclean⟩ | ⟨hdirty, -, hpage⟩
    · have hsame : (t.run call).Saved p C ↔ t.Saved p C := by simp only [Saved, hpage]
      refine ⟨?_, fun hw => ?_⟩
      · have hd : t.pool.isDirty? p ≠ some true := by
          rw [isDirty?_eq hg, hclean trivial]
          simp
        rw [hsame, or_iff_right hd]
      · refine hsame.mpr (hkept.settled (fun _ => ?_) id)
        rintro (⟨g', hg', hd'⟩ | ⟨w, hm, hu⟩)
        · obtain rfl := Option.some.inj (hg.symm.trans hg')
          rw [hclean trivial] at hd'
          cases hd'
        · rw [hw w hm] at hu
          cases hu
    · have hsaved : (t.run call).Saved p C := ⟨_, hkept.mem g hg, hpage⟩
      refine ⟨iff_of_true hsaved (Or.inl ?_), fun _ => hsaved⟩
      rw [isDirty?_eq hg, hdirty]
  · have hsaved := hkept.run_window hv hb hcallProper hcallDel hseen hopened hwritten
    refine ⟨iff_of_true hsaved (Or.inl ?_), fun _ => hsaved⟩
    rw [isDirty?_eq hg, hdirty]

def marking : List (Action 1) :=
  [.call .new, .call (.fetch 0), .put 0 0 [7], .call (.unpin 0 true)]

/-- A flush in the window of another one succeeds, and the device still has the page of zeros. -/
theorem not_saved_marking : ∃ b : Pool MemoryDisk 1,
    Pool.ofConfig ⟨1, .lru⟩ MemoryDisk.empty none = .ok b ∧
    ∀ s, s = (start b).run marking →
      ((s.run [.beginFlush 0]).pool.flush 0).1 = .ok true ∧
      ¬(s.run ([.beginFlush 0] ++ [.call (.flush 0)])).Saved 0
        (s.seen 0 ([.beginFlush 0] ++ [.call (.flush 0)])) := by
  refine ⟨_, rfl, ?_⟩
  rintro s rfl
  obtain ⟨hs, has⟩ := Reachable.of_fair marking ([.beginFlush 0] ++ [.call (.flush 0)])
    MemoryDisk.ordered_empty (show Pool.ofConfig ⟨1, .lru⟩ MemoryDisk.empty none = .ok _ from rfl)
    (by decide +kernel) (by decide) (MemoryDisk.room_empty (by decide))
  refine ⟨rfl, fun hsaved => ?_⟩
  have hiff := (saved_iff_of_flushes hs (p := 0) (f := 0) rfl rfl
    (Option.isSome_iff_ne_none.mp (by decide +kernel)) has (along_not_deletes (by decide))
    (.call rfl)).1
  rcases hiff.mp hsaved with hd | ⟨x, hx, hstored⟩
  · exact absurd hd (by decide +kernel)
  · have hzero : Page.zero.write 0 [7] = Page.zero := by
      have hseen : x = Page.zero.write 0 [7] := by
        simp only [List.singleton_append, mem_seen_cons, mem_seen_nil] at hx
        rcases hx with hx | hx | hx <;> exact (Option.some.inj hx).symm
      have hdevice : x = Page.zero := (Option.some.inj hstored).symm
      exact hseen.symm.trans hdevice
    have := congrArg (fun x => x.bytes.head?) hzero
    exact absurd this (by decide +kernel)

end Session

end BufferPool
