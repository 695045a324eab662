import BufferPool.Proofs.Pool.Condemned
import BufferPool.Proofs.Session.Service
import BufferPool.Proofs.Session.Statistics

/-! # Pages deleted while they are pinned

From the deletion of a pinned page to the request that hands its id out again,
the page is in the frame that it had then, with the bytes that its holders
left there, or it is gone. Whatever is done to the pool, the page is not
written and stands in nobody's way.
-/

namespace BufferPool.Session

open Pool MemoryDisk

section Requests

variable {δ : Type} [Device δ] {n : Nat} {s t : Session δ n} {e : Event n} {a : Action n}
  {as : List (Action n)}

/-- What a move asks of the device. -/
inductive Asks (s : Session δ n) : Event n → δ → Prop where
  | nothing {e : Event n} : Asks s e s.pool.device
  | read {e : Event n} {p : PageId} {r : Except DiskError Page} {d : δ}
      (h : Device.read p s.pool.device = (r, d)) : Asks s e d
  | write {e : Event n} {p : PageId} {x : Page} {r : Except DiskError Unit} {d : δ}
      (h : Device.write p x s.pool.device = (r, d)) : Asks s e d
  | deallocate {e : Event n} {p : PageId} {r : Except DiskError Unit} {d : δ}
      (h : Device.deallocate p s.pool.device = (r, d)) : Asks s e d
  | created {p : PageId} {f : Fin n} {b : Pool δ n}
      (h : s.pool.allocateUnused = (.ok p, b)) : Asks s (.created p f) b.device
  | unallocated {f : Fin n} {e : PoolError} {b : Pool δ n}
      (h : s.pool.allocateUnused = (.error e, b)) : Asks s (.unallocated f) b.device

theorem Move.asks (hm : Move s e t) : s.Asks e t.pool.device := by
  cases hm with
  | missed | hit | evicted | released | put | opened => exact .nothing
  | saved _ _ hw | dropped _ _ hw | refused _ _ hw => exact .write hw
  | loaded _ _ hr | unread _ _ hr => exact .read hr
  | @created p f free b _ _ ha => exact show s.Asks _ b.device from .created ha
  | @unallocated f free b e _ ha => exact show s.Asks _ b.device from .unallocated ha
  | undeleted hd | deleted _ hd | condemned _ _ hd | freed _ _ hd => exact .deallocate hd
  | @written i w hi =>
    simp only [writeWindow, writeBack]
    rcases hw : Device.write w.page (s.pool.frames.get w.frame).data s.pool.device
      with ⟨_ | _, d⟩ <;> exact .write hw
  | closed =>
    simp only [closeWindow_eq]
    exact .nothing

theorem Regular.leads (ha : s.Regular a) :
    Device.Leads s.pool.device (s.step a).pool.device :=
  ha.step_induction (P := fun t => Device.Leads s.pool.device t.pool.device)
    (fun _ hm _ h => h.trans hm.leads) (fun _ _ _ _ => id) .refl

theorem leads_run (has : s.Along Regular as) :
    Device.Leads s.pool.device (s.run as).pool.device :=
  run_induction (P := fun t => Device.Leads s.pool.device t.pool.device) has
    (fun ha h => h.trans ha.leads) .refl

variable [OnMemory δ]

theorem Regular.validIds (ha : s.Regular a) (h : s.ValidIds) : (s.step a).ValidIds :=
  ha.step_induction (fun _ hm _ h => h.move hm) (fun _ _ _ _ h => ⟨h.disk, h.cached⟩) h

theorem validIds_run (has : s.Along Regular as) (h : s.ValidIds) : (s.run as).ValidIds :=
  run_induction has (fun ha h => ha.validIds h) h

end Requests

variable {n : Nat} {s t u : Session MemoryDisk n} {e : Event n} {a : Action n}
  {as : List (Action n)} {p : PageId} {f : Fin n}

theorem Move.count_write (hm : Move s e t) (hp : s.pool.device.isAllocated p = false) :
    t.pool.device.history.count (.write p) = s.pool.device.history.count (.write p) := by
  have hasks := hm.asks
  generalize t.pool.device = d at hasks
  cases hasks with
  | nothing => rfl
  | read h => exact count_write_read h p
  | write h => exact MemoryDisk.count_write h hp
  | deallocate h => exact (sameTransfers_deallocate h).count_write p
  | created h | unallocated h => exact (sameTransfers_allocateUnused h).count_write p

theorem Move.absent (hm : Move s e t) (hp : s.pool.device.isAllocated p = false)
    (he : ∀ f, e ≠ .created p f) : t.pool.device.isAllocated p = false := by
  have hasks := hm.asks
  generalize t.pool.device = d at hasks
  cases hasks with
  | nothing => exact hp
  | read h => exact ((sameIds_read h).isAllocated p).trans hp
  | write h => exact ((sameIds_write h).isAllocated p).trans hp
  | deallocate h =>
    rw [isAllocated_update (snapshot_deallocate h)]
    split
    · rfl
    · exact hp
  | created h =>
    refine (snapshot_allocateUnused h).2.1 p ?_ hp
    rintro ⟨⟩
    exact he _ rfl
  | unallocated h => exact (snapshot_allocateUnused h).2.1 p nofun hp

theorem Move.data_eq (hs : s.pool.Tidy) (hm : Move s e t) (hput : ∀ g, e ≠ .put g)
    (hf : s.pool.frameOf? p = some f) (ht : t.pool.frameOf? p = some f) :
    (t.pool.frames.get f).data = (s.pool.frames.get f).data := by
  have same (b : Pool MemoryDisk n) (g : Fin n) {k : Frame → Frame}
      (hk : ∀ x, (k x).data = x.data) :
      ((b.modifyFrame g k).frames.get f).data = (b.frames.get f).data :=
    apply_modifyFrame b g Frame.data hk f
  cases hm with
  | missed | refused | undeleted | deleted | condemned => rfl
  | @hit q g => exact s.apply_hit q g Frame.data (fun _ _ => rfl) f
  | @saved q g | @dropped q g =>
    exact same s.pool g (k := fun x => { x with dirty := false }) fun _ => rfl
  | @released q g dirty =>
    exact same s.pool g (k := fun x =>
      { x with pins := x.pins - 1, dirty := x.dirty || dirty }) fun _ => rfl
  | @opened q g =>
    exact same s.pool g (k := fun x => { x with pins := x.pins + 1, dirty := false }) fun _ => rfl
  | written => rw [writeWindow, frames_writeBack]
  | @closed i w answer =>
    rw [closeWindow_eq]
    exact same s.pool w.frame (k := fun x =>
      { x with pins := x.pins - 1, dirty := x.dirty || !answer.isOk }) fun _ => rfl
  | put => exact absurd rfl (hput _)
  | @evicted q g hq =>
    have hne : q ≠ p := by
      rintro rfl
      exact absurd ((frameOf?_vacate (f := g)).symm.trans ht) (by simp)
    exact congrArg Frame.data ((getElem_vacate (p := q)).trans (if_neg (hs.frame_ne hne hq hf)))
  | @freed q g d hq =>
    have hne : q ≠ p := by
      rintro rfl
      exact absurd ((frameOf?_discard (f := g)).symm.trans ht) (by simp)
    exact congrArg Frame.data ((getElem_discard (p := q)).trans (if_neg (hs.frame_ne hne hq hf)))
  | loaded _ hfree | created _ hfree =>
    exact congrArg Frame.data (getElem_seat.trans (if_neg (hs.head_ne hfree hf)))
  | unread _ hfree | unallocated hfree =>
    exact congrArg Frame.data (getElem_requeue.trans (if_neg (hs.head_ne hfree hf)))

/-- What an action makes of the bytes in a frame, as long as the frame keeps its page. -/
def patched (f : Fin n) (x : Page) : Action n → Page
  | .put g offset new => if g = f then x.write offset new else x
  | _ => x

/-- From `s` to `t` the page had no place on the disk and was not written. If it has a frame in the
end, it has had it all along, and `w` was made of its bytes. -/
structure Contained (p : PageId) (w : Fin n → Page → Page) (s t : Session MemoryDisk n) : Prop where
  absent : t.pool.device.isAllocated p = false
  count_write :
    t.pool.device.history.count (.write p) = s.pool.device.history.count (.write p)
  still : ∀ g, t.pool.frameOf? p = some g → s.pool.frameOf? p = some g ∧
    (t.pool.frames.get g).data = w g (s.pool.frames.get g).data

namespace Contained

variable {w w' : Fin n → Page → Page}

theorem refl (hp : s.pool.device.isAllocated p = false) : Contained p (fun _ x => x) s s :=
  ⟨hp, rfl, fun _ hg => ⟨hg, rfl⟩⟩

theorem trans (h : Contained p w s t) (h' : Contained p w' t u) :
    Contained p (fun g x => w' g (w g x)) s u where
  absent := h'.absent
  count_write := h'.count_write.trans h.count_write
  still g hg := by
    obtain ⟨ht, hx'⟩ := h'.still g hg
    obtain ⟨hs, hx⟩ := h.still g ht
    exact ⟨hs, hx'.trans (congrArg (w' g) hx)⟩

theorem gone (h : Contained p w s t) (hp : s.pool.frameOf? p = none) :
    t.pool.frameOf? p = none := by
  rcases hg : t.pool.frameOf? p with _ | g
  · rfl
  · rw [(h.still g hg).1] at hp
    cases hp

theorem of_move (hs : s.pool.Tidy) (hm : Move s e t) (hp : s.pool.device.isAllocated p = false)
    (he : ∀ f, e ≠ .created p f) (hput : ∀ g, e ≠ .put g) : Contained p (fun _ x => x) s t where
  absent := hm.absent hp he
  count_write := hm.count_write hp
  still g hg := by
    have hcached : s.pool.frameOf? p = some g := by
      rcases hm.cached hg with hc | rfl | rfl
      · exact hc
      · cases hm with
        | loaded _ _ hr =>
          rw [isAllocated_of_read hr] at hp
          cases hp
      · exact absurd rfl (he g)
    exact ⟨hcached, hm.data_eq hs hput hcached hg⟩

end Contained

theorem Regular.contained (ha : s.Regular a) (hp : s.pool.device.isAllocated p = false)
    (hnew : a = .call .new → s.pool.created? ≠ some p) :
    Contained p (fun g x => patched g x a) s (s.step a) := by
  by_cases hput : ∃ f offset new, a = .put f offset new
  · obtain ⟨f, offset, new, rfl⟩ := hput
    refine ⟨hp, rfl, fun g hg => ⟨hg, ?_⟩⟩
    simp only [step, writeFrame, getElem_modifyFrame, patched]
    split
    · rename_i hfg
      rw [hfg]
    · rfl
  have hpatched : (fun (g : Fin n) x => patched g x a) = fun _ x => x := by
    funext g x
    cases a with
    | put f offset new => exact absurd ⟨f, offset, new, rfl⟩ hput
    | _ => rfl
  rw [hpatched]
  refine ha.step_induction (P := Contained p (fun _ x => x) s) ?_ ?_ (.refl hp)
  · intro s' e t hs' hm he h
    refine h.trans (.of_move hs'.tidy hm h.absent ?_ ?_)
    · rintro f rfl
      exact hnew he.of_created.1 he.of_created.2
    · rintro g rfl
      exact hput ⟨g, he.of_put⟩
  · intro q g _ _ h
    exact ⟨h.absent, h.count_write, fun f hf => ⟨hf, s.apply_hit q g Frame.data (fun _ _ => rfl) f⟩⟩

theorem contained_run (has : s.Along Regular as) (hp : s.pool.device.isAllocated p = false)
    (hnew : s.Along (fun s a => a = .call .new → s.pool.created? ≠ some p) as) :
    Contained p (fun g x => as.foldl (patched g) x) s (s.run as) := by
  induction as generalizing s with
  | nil => exact .refl hp
  | cons a as ih =>
    have hstep := has.1.contained hp hnew.1
    exact hstep.trans (ih has.2 hstep.absent hnew.2)

theorem contained_delete (hdel : (s.pool.delete p).1 = .ok false) :
    ∃ f, s.pool.frameOf? p = some f ∧
      Contained p (fun _ x => x) s (s.step (.call (.delete p))) := by
  simp only [step, after, delete] at hdel ⊢
  rcases hd : Device.deallocate p s.pool.device with ⟨r, d⟩
  obtain ⟨rfl, -⟩ := deallocate_books hd
  rcases hf : s.pool.frameOf? p with _ | f
  · simp only [hd, show Pool.frameOf? { s.pool with device := d } p = none from hf] at hdel
    cases hdel
  refine ⟨f, rfl, ?_⟩
  by_cases hpins : (s.pool.frames.get f).pins = 0
  · simp only [hd, show Pool.frameOf? { s.pool with device := d } p = some f from hf,
      if_pos hpins] at hdel
    cases hdel
  · simp only [show Pool.frameOf? { s.pool with device := d } p = some f from hf, if_neg hpins]
    refine ⟨?_, (sameTransfers_deallocate hd).count_write p, fun g hg => ⟨hg, rfl⟩⟩
    exact (isAllocated_update (snapshot_deallocate hd)).trans (if_pos rfl)

/-- A page that was deleted while it was pinned is contained until its id is handed out again. It is
not written, and no write-back of it is counted. As long as it is cached it has the frame that it
had and the bytes that its holders left there, and what the pool does with it succeeds. Once it has
left the pool, it does not come back. -/
theorem deleted_page_contained {c : Config} {d : MemoryDisk} {log : Option Log}
    {b : Pool MemoryDisk c.poolSize} (hb : Pool.ofConfig c d log = .ok b) (hd : d.ValidIds)
    (as bs : List (Action c.poolSize)) {p : PageId}
    (has : (start b).Undisturbed (as ++ .call (.delete p) :: bs)) {s t u : Session _ c.poolSize}
    (hs : s = (start b).run as) (hdel : (s.pool.delete p).1 = .ok false)
    (ht : t = s.step (.call (.delete p))) (hu : u = t.run bs)
    (hnew : t.Along (fun s a => a = .call .new → s.pool.created? ≠ some p) bs) :
    ∃ f, s.pool.frameOf? p = some f ∧
      u.pool.Contains p f (bs.foldl (patched f) (s.pool.frames.get f).data) ∧
      (∃ events, u.pool.device.history = s.pool.device.history ++ events ∧ .write p ∉ events ∧
        u.pool.stats.writeBacks = s.pool.stats.writeBacks + events.countP DiskEvent.isWrite) ∧
      ∀ cs, cs <+: bs → (t.run cs).pool.frameOf? p = none → u.pool.frameOf? p = none := by
  obtain ⟨r, hr, rfl⟩ := exists_create_of_ofConfig hb
  obtain ⟨hsound, hnone⟩ := Replacer.ofPolicy_spec hr
  obtain ⟨hregular, hkempt⟩ := has.along_regular (.create hsound hnone d log) rfl
  obtain ⟨hbefore, hlast, hafter⟩ := along_append.mp hregular
  rw [run_append, run_cons, ← hs, ← ht, ← hu] at hkempt
  rw [← hs] at hlast
  rw [← hs, ← ht] at hafter
  have hids : s.ValidIds := hs ▸ validIds_run hbefore (.create r hd log)
  have hids' : u.ValidIds := hu ▸ validIds_run hafter (ht ▸ hlast.validIds hids)
  obtain ⟨f, hf, hcontained⟩ := contained_delete hdel
  rw [← ht] at hcontained
  have hrun : Contained p (fun g x => bs.foldl (patched g) x) s u :=
    hu ▸ hcontained.trans (contained_run hafter hcontained.absent hnew)
  refine ⟨f, hf, ?_, ?_, fun cs hcs hgone => ?_⟩
  · refine contains_of_absent hkempt.tidy hids'.cached (hids.cached p (isCached_of_frameOf? hf))
      hrun.absent fun g hg => ?_
    obtain ⟨hg, hx⟩ := hrun.still g hg
    obtain rfl := Option.some.inj (hg.symm.trans hf)
    exact ⟨rfl, hx⟩
  · have hleads : Device.Leads s.pool.device u.pool.device :=
      (ht ▸ hlast.leads).trans (hu ▸ leads_run hafter)
    obtain ⟨events, hevents⟩ := journal_of_leads hleads
    refine ⟨events, hevents, ?_, ?_⟩
    · have hcount := hrun.count_write
      rw [show u.pool.device.history = s.pool.device.history ++ events from hevents,
        List.count_append] at hcount
      exact List.count_eq_zero.mp (by omega)
    · have hbooks := (reconciled_run hbefore (.create r d log)).1
      rw [← hs] at hbooks
      have hbooks' := (reconciled_run hafter (ht ▸ (hlast.reconciled hbooks).1)).1
      rw [← hu] at hbooks'
      exact hbooks.writeBacks_eq hbooks' hevents
  · obtain ⟨ds, rfl⟩ := hcs
    obtain ⟨hcs, hds⟩ := along_append.mp hafter
    obtain ⟨hnewcs, hnewds⟩ := along_append.mp hnew
    have habsent := (contained_run hcs hcontained.absent hnewcs).absent
    rw [hu, run_append]
    exact (contained_run hds habsent hnewds).gone hgone

def holdingPage : List (Action 2) := [.call .new, .put 0 0 [7]]

/-- He goes on with it, and its id comes up, while the page is not on the disk any more. -/
def goingOn : List (Action 2) :=
  [.put 0 1 [8], .call .new, .call (.fetch 0), .call (.unpin 0 true), .beginFlush 0, .writeWindow 0,
    .closeWindow 0, .call (.flush 0), .call (.unpin 0 true)]

theorem deleted_page_contained_going_on : ∃ b : Pool MemoryDisk 2,
    Pool.ofConfig ⟨2, .lru⟩ .empty none = .ok b ∧ MemoryDisk.empty.ValidIds ∧
    (start b).Undisturbed (holdingPage ++ .call (.delete 0) :: goingOn) ∧
    ∀ s t u, s = (start b).run holdingPage → t = s.step (.call (.delete 0)) → u = t.run goingOn →
      (s.pool.delete 0).1 = .ok false ∧
      t.Along (fun s a => a = .call .new → s.pool.created? ≠ some 0) goingOn ∧
      u.pool.isDirty? 0 = some true ∧ u.pool.created? = some 0 ∧
      ∃ f, s.pool.frameOf? 0 = some f ∧
        u.pool.Contains 0 f (goingOn.foldl (patched f) (s.pool.frames.get f).data) ∧
        ∃ events, u.pool.device.history = s.pool.device.history ++ events ∧ .write 0 ∉ events ∧
          u.pool.stats.writeBacks = s.pool.stats.writeBacks + events.countP DiskEvent.isWrite := by
  have hb : Pool.ofConfig ⟨2, .lru⟩ MemoryDisk.empty none =
      .ok (.create (.lru { capacity := 2 }) .empty none) := rfl
  have has : (start (.create (.lru { capacity := 2 }) MemoryDisk.empty none)).Undisturbed
      (holdingPage ++ .call (.delete 0) :: goingOn) := Or.inr (along_and.mpr ⟨by decide +kernel,
    along_pinsFit (m := 0) _ (fun _ => Nat.le_refl _) (by decide)⟩)
  refine ⟨_, hb, MemoryDisk.validIds_empty, has, fun s t u hs ht hu => ?_⟩
  have hdel : (s.pool.delete 0).1 = .ok false := by
    rw [hs]
    decide +kernel
  have hnew : t.Along (fun s a => a = .call .new → s.pool.created? ≠ some 0) goingOn := by
    rw [ht, hs]
    decide +kernel
  have hend : u.pool.isDirty? 0 = some true ∧ u.pool.created? = some 0 := by
    rw [hu, ht, hs]
    decide +kernel
  obtain ⟨f, hf, hcontains, hwrites, -⟩ := deleted_page_contained hb MemoryDisk.validIds_empty
    holdingPage goingOn has hs hdel ht hu hnew
  exact ⟨hdel, hnew, hend.1, hend.2, f, hf, hcontains, hwrites⟩

end BufferPool.Session
