import BufferPool.Proofs.Disk.Requests
import BufferPool.Proofs.Session.Durable

/-! # What is owed gets written

A session leads its device on by requests. The device is owed the bytes of a
page until a request to write the page succeeds.
-/

namespace BufferPool.Session

open Pool Storage
open Device (Leads Writes)

variable {δ : Type} {n : Nat} [Device δ] {s t : Session δ n} {e : Event n} {es : List (Event n)}
  {a : Action n} {p q : PageId}

theorem Move.leads (hm : Move s e t) : Leads s.pool.device t.pool.device := by
  cases hm with
  | missed | hit | evicted | released | put | opened => exact .refl
  | saved hp hd hw | dropped hp hd hw | refused hp hd hw => exact .single (.write hw)
  | loaded hp hf hr | unread hp hf hr => exact .single (.read hr)
  | created hp hf ha | unallocated hf ha =>
    have hl := leads_allocateUnused ha
    exact hl
  | undeleted hd | deleted hp hd | condemned hp hpins hd | freed hp hpins hd =>
    exact .single (.deallocate hd)
  | written hi => exact leads_writeBack rfl
  | closed hi =>
    simp only [closeWindow_eq]
    exact .refl

theorem Moves.leads (hm : Moves s es t) : Leads s.pool.device t.pool.device := by
  induction hm with
  | nil => exact .refl
  | cons hm _ _ ih => exact hm.leads.trans ih

theorem Valid.leads_step (hv : s.Valid) (ha : s.Orderly a) :
    Leads s.pool.device (s.step a).pool.device := by
  obtain ⟨es, hes, -⟩ := hv.step_moves ha
  exact hes.leads

variable [Lawful δ]

theorem writes_of_writeBack {b b' : Pool δ n} {data : Page} {r : Except PoolError Unit}
    (hok : Ok b.device) (hq : page? b.device q ≠ none) (h : b.writeBack q data = (r, b'))
    (hr : r.isOk = true) : Writes q b.device b'.device := by
  unfold writeBack at h
  rcases hw : Device.write q data b.device with ⟨e | _, d⟩ <;> rw [hw] at h <;> cases h
  · rcases he : e.isMissing with _ | _
    · rw [he] at hr
      cases hr
    · exact absurd ((Lawful.write_error hok hw).2.2 he) hq
  · exact .of_write hw

theorem Move.unsaved (hm : Move s e t) (hv : s.Valid) (hb : s.Backed)
    (hq : page? s.pool.device q ≠ none) (hdel : e.deallocated? ≠ some q) (hu : s.Unsaved q) :
    t.Unsaved q ∨ Writes q s.pool.device t.pool.device := by
  have ne_of_none : ∀ {p : PageId} {f : Fin n}, s.pool.frameOf? p = none →
      s.pool.frameOf? q = some f → p ≠ q := by
    rintro p f hp hf rfl
    rw [hp] at hf
    cases hf
  cases hm with
  | missed | refused | undeleted | deleted | condemned => exact Or.inl hu
  | hit hp hpins => exact Or.inl (hu.move_hit (.hit hp hpins))
  | @saved p f d hp hd hw =>
    by_cases hpq : p = q
    · subst hpq
      exact Or.inr (.of_write hw)
    · refine Or.inl (hu.aside (fun _ => id) (fun g hg => ?_) rfl)
      exact (getElem_modifyFrame _ f _ g).trans (if_neg (hv.sound.frame_ne hpq hp hg))
  | @dropped p f d e hp hd hw he =>
    have hpq : p ≠ q := by
      rintro rfl
      exact hq ((Lawful.write_error hb.ok hw).2.2 he)
    refine Or.inl (hu.aside (fun _ => id) (fun g hg => ?_) rfl)
    exact (getElem_modifyFrame _ f _ g).trans (if_neg (hv.sound.frame_ne hpq hp hg))
  | @evicted p f hp hd hf hpeek =>
    by_cases hpq : p = q
    · subst hpq
      obtain ⟨hw, -⟩ := hv.unused hp (hv.sound.of_peek hpeek).2
      refine absurd hu (not_unsaved hw fun g hg => ?_)
      rwa [← Option.some.inj (hp.symm.trans hg)]
    · refine Or.inl (hu.aside (fun g hg => ?_) (fun g hg => ?_) rfl)
      · exact (frameOf?_vacate (f := f)).trans ((if_neg hpq).trans hg)
      · exact (getElem_vacate (p := p)).trans (if_neg (hv.sound.frame_ne hpq hp hg))
  | @loaded p f free data d hp hf hr =>
    refine Or.inl (hu.aside (fun g hg => ?_) (fun g hg => ?_) rfl)
    · exact (frameOf?_seat data).trans ((if_neg (ne_of_none hp hg)).trans hg)
    · exact getElem_seat.trans (if_neg (hv.sound.head_ne hf hg))
  | @created p f free b hp hf ha =>
    refine Or.inl (hu.aside (fun g hg => ?_) (fun g hg => ?_) rfl)
    · exact (frameOf?_seat Page.zero).trans ((if_neg (ne_of_none hp hg)).trans hg)
    · exact getElem_seat.trans (if_neg (hv.sound.head_ne hf hg))
  | @unread p f free e d hp hf | @unallocated f free b e hf =>
    refine Or.inl (hu.aside (fun _ => id) (fun g hg => ?_) rfl)
    exact getElem_requeue.trans (if_neg (hv.sound.head_ne hf hg))
  | released hp hpins hfair => exact Or.inl (hu.move_released (.released hp hpins hfair))
  | @freed p f d hp hpins hd =>
    have hpq : p ≠ q := fun hpq => hdel (congrArg some hpq)
    refine Or.inl (hu.aside (fun g hg => ?_) (fun g hg => ?_) rfl)
    · exact (frameOf?_discard (f := f)).trans ((if_neg hpq).trans hg)
    · exact (getElem_discard (p := p)).trans (if_neg (hv.sound.frame_ne hpq hp hg))
  | @put f offset new =>
    have frame := apply_modifyFrame s.pool f Frame.dirty
      (h := fun x => { x with data := x.data.write offset new }) fun _ => rfl
    exact Or.inl (hu.still (fun _ => id) (fun g _ hd => (frame g).trans hd) fun _ hw _ => hw)
  | opened hp hpins hfit hd => exact Or.inl (hu.move_opened hv (.opened hp hpins hfit hd))
  | @written i w hi =>
    by_cases hwritten : w.page = q ∧ (s.pool.writeWindow w).1.isOk = true
    · obtain ⟨rfl, hok⟩ := hwritten
      exact Or.inr (writes_of_writeBack hb.ok hq rfl hok)
    · refine Or.inl (hu.written hi fun hpage => Bool.eq_false_iff.mpr fun hok => ?_)
      exact hwritten ⟨hpage, hok⟩
  | closed hi => exact Or.inl (hu.closed hv hi)

theorem Move.stored (hm : Move s e t) (hv : s.Valid) (hb : s.Backed)
    (hroom : e.allocates = true → Room s.pool.device 1) (hdel : e.deallocated? ≠ some q)
    (hq : page? s.pool.device q ≠ none) : page? t.pool.device q ≠ none := by
  by_cases hput : ∃ f, e = .put f
  · obtain ⟨f, rfl⟩ := hput
    cases hm
    exact hq
  · have hkept := (Kept.of_stored hq).move hv hb hm hroom (fun f he => hput ⟨f, he⟩) hdel nofun
    obtain ⟨y, hy, -⟩ := hkept.stored
    exact Option.ne_none_iff_exists'.mpr ⟨y, hy⟩

theorem Moves.stored (hm : Moves s es t) (hv : s.Valid) (hb : s.Backed)
    (hroom : Room s.pool.device 1) (hdel : ∀ e ∈ es, e.deallocated? ≠ some q)
    (hq : page? s.pool.device q ≠ none) : page? t.pool.device q ≠ none := by
  induction hm with
  | nil => exact hq
  | @cons s t u e es hm hlast hms ih =>
    obtain ⟨hde, hdel⟩ := List.forall_mem_cons.mp hdel
    have hs := hm.stored hv hb (fun _ => hroom) hde hq
    rcases he : e.allocates with _ | _
    · exact ih (hv.move hm) (hb.move hm fun _ => hroom) ((hm.steady hb.ok he).room 1 hroom) hdel hs
    · obtain rfl := hlast he
      cases hms
      exact hs

theorem Moves.ne_created (hm : Moves s es t) (hv : s.Valid) (hb : s.Backed)
    (hroom : Room s.pool.device 1) (hdel : ∀ e ∈ es, e.deallocated? ≠ some q)
    (hq : page? s.pool.device q ≠ none) (f : Fin n) : .created q f ∉ es := by
  induction hm with
  | nil => exact List.not_mem_nil
  | @cons s t u e es hm hlast hms ih =>
    obtain ⟨hde, hdel⟩ := List.forall_mem_cons.mp hdel
    rw [List.mem_cons, not_or]
    rcases he : e.allocates with _ | _
    · refine ⟨fun heq => ?_, ih (hv.move hm) (hb.move hm fun _ => hroom)
        ((hm.steady hb.ok he).room 1 hroom) hdel (hm.stored hv hb (fun _ => hroom) hde hq)⟩
      rw [← heq] at he
      cases he
    · rw [hlast he]
      refine ⟨fun heq => ?_, List.not_mem_nil⟩
      exact hq ((hb.grown hm he hroom).2 q f heq.symm).2.1

theorem page_new_ne {f : Fin n} (hv : s.Valid) (hb : s.Backed) (hroom : Room s.pool.device 1)
    (hans : s.pool.new.1 = .ok (some f)) (hq : page? s.pool.device q ≠ none) :
    ((s.step (.call .new)).pool.frames.get f).page ≠ some q := by
  obtain ⟨es, hes, hmakes, hnew⟩ := new_moves hv.sound.tidy
  obtain ⟨p, hp⟩ := hnew f hans
  rw [(hb.moves_created hes hroom hp).2.1]
  rintro ⟨⟩
  refine hes.ne_created hv hb hroom (fun e he hde => ?_) hq f hp
  have hnone := (hmakes e he).elim Event.IsPlain.deallocated? fun ha =>
    Event.deallocated?_of_allocates ha.1
  rw [hnone] at hde
  cases hde

theorem Moves.unsaved (hm : Moves s es t) (hv : s.Valid) (hb : s.Backed)
    (hroom : Room s.pool.device 1) (hdel : ∀ e ∈ es, e.deallocated? ≠ some q)
    (hq : page? s.pool.device q ≠ none) (hu : s.Unsaved q) :
    t.Unsaved q ∨ Writes q s.pool.device t.pool.device := by
  induction hm with
  | nil => exact Or.inl hu
  | @cons s t u e es hm hlast hms ih =>
    obtain ⟨hde, hdel⟩ := List.forall_mem_cons.mp hdel
    rcases hm.unsaved hv hb hq hde hu with hu | ⟨d₁, d₂, x, hl, hw, hl'⟩
    · rcases he : e.allocates with _ | _
      · have ht := hb.move hm fun _ => hroom
        have hs := hm.stored hv hb (fun _ => hroom) hde hq
        refine (ih (hv.move hm) ht ((hm.steady hb.ok he).room 1 hroom) hdel hs hu).imp_right ?_
        rintro ⟨d₁, d₂, x, hl, hw, hl'⟩
        exact ⟨d₁, d₂, x, hm.leads.trans hl, hw, hl'⟩
      · obtain rfl := hlast he
        cases hms
        exact Or.inl hu
    · exact Or.inr ⟨d₁, d₂, x, hl, hw, hl'.trans hms.leads⟩

theorem Unsaved.step (hu : s.Unsaved q) (hv : s.Valid) (hb : s.Backed) (ha : s.Proper a)
    (hdel : ¬s.Deletes q a) (hq : page? s.pool.device q ≠ none) :
    (s.step a).Unsaved q ∨ Writes q s.pool.device (s.step a).pool.device := by
  obtain ⟨es, hes, hmakes⟩ := hv.step_moves ha.1
  exact hes.unsaved hv hb ha.2 (fun e he hp => hdel ((hmakes e he).of_deallocated? hp)) hq hu

theorem not_unsaved_flushAll (hv : s.Valid) (hb : s.Backed)
    (hw : ∀ w ∈ s.flights, w.isOpen = false) (hok : s.pool.flushAll.1 = .ok ())
    (hq : page? s.pool.device q ≠ none) : ¬(s.step (.call .flushAll)).Unsaved q := by
  refine not_unsaved ?_ fun f hf => ?_
  · rw [windowsOn, List.countP_eq_zero]
    intro w hm
    simp [Flight.isOpenOn, hw w hm]
  · have hf : s.pool.frameOf? q = some f := (frameOf?_flushEach ..).symm.trans hf
    have hm : q ∈ s.pool.cachedPages :=
      List.mem_filterMap.mpr ⟨s.pool.frames.get f,
        Vector.mem_toList_iff.mpr (Vector.getElem_mem f.isLt), hv.sound.page_eq hf⟩
    have hflushed := flushed_flushEach hv.sound hb.ok hf hq s.pool.cachedPages
    rcases hflushed.cases with ⟨hd, -, hclean⟩ | ⟨-, hd, -⟩
    · exact hd.trans (hclean ⟨hm, congrArg Except.isOk hok⟩)
    · exact hd

end BufferPool.Session
