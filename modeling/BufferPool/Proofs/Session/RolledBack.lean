import BufferPool.Proofs.Pool.Secured
import BufferPool.Proofs.Session.Condemned

/-! # Pages that do not come in

A page that is to come in can be missing on the device, or the device can fail
to hand it out, after a frame was secured for it. All that this costs is the
page that had to go.
-/

namespace BufferPool.Session

open Pool Storage

variable {δ : Type} [Device δ] {n : Nat} {s t : Session δ n} {e : Event n} {a : Action n}
  {as : List (Action n)}

omit [Device δ] in
theorem acquainted_hit (hs : s.pool.Tidy) {p : PageId} {f : Fin n} (hp : s.pool.frameOf? p = some f)
    (h : s.pool.Acquainted) : (s.hit p f).pool.Acquainted := by
  have hpage := s.apply_hit p f Frame.page fun _ _ => rfl
  apply h.hear ((hpage f).trans (hs.page_eq hp))
  · exact fun g => Replacer.knows_pin
  · exact fun g _ => hpage g

theorem Move.acquainted (hs : s.Kempt) (hm : Move s e t) (h : s.pool.Acquainted) :
    t.pool.Acquainted := by
  have hr := hs.tidy.replacer
  have same (f : Fin n) {k : Frame → Frame} (hk : ∀ x, (k x).page = x.page) (g : Fin n) :
      ((s.pool.modifyFrame f k).frames.get g).page = (s.pool.frames.get g).page :=
    apply_modifyFrame s.pool f Frame.page hk g
  cases hm with
  | missed | refused | undeleted | deleted | condemned => exact h.congr rfl fun _ => rfl
  | hit hp => exact acquainted_hit hs.tidy hp h
  | @saved p f d | @dropped p f d =>
    exact h.congr rfl (same f (k := fun x => { x with dirty := false }) fun _ => rfl)
  | @evicted p f =>
    exact h.remove hr rfl fun g hg =>
      congrArg Frame.page ((getElem_vacate (p := p)).trans (if_neg hg.symm))
  | @freed p f =>
    exact h.remove hr rfl fun g hg =>
      congrArg Frame.page ((getElem_discard (p := p)).trans (if_neg hg.symm))
  | @loaded p f | @created p f =>
    apply h.hear (f := f) (p := p)
    · exact congrArg Frame.page (getElem_seat.trans (if_pos rfl))
    · exact fun g => Replacer.knows_pin
    · exact fun g hg => congrArg Frame.page (getElem_seat.trans (if_neg hg.symm))
  | @unread p f free _ _ _ hf | @unallocated f free _ _ hf =>
    have hpage := hs.tidy.page_eq_none (hf ▸ List.mem_cons_self : f ∈ s.pool.free)
    apply h.congr
    · rfl
    · intro g
      refine (congrArg Frame.page getElem_requeue).trans ?_
      split
      · rename_i hg
        rw [← hg, hpage]
        rfl
      · rfl
  | @released p f dirty hp =>
    exact h.release (k := fun x => { x with pins := x.pins - 1, dirty := x.dirty || dirty })
      (hs.tidy.page_eq hp) (fun _ => rfl) _
  | @put f offset new =>
    exact h.congr rfl
      (same f (k := fun x => { x with data := x.data.write offset new }) fun _ => rfl)
  | @opened p f =>
    exact h.congr rfl
      (same f (k := fun x => { x with pins := x.pins + 1, dirty := false }) fun _ => rfl)
  | @written i w =>
    obtain ⟨-, -, hreplacer⟩ := writeBack_books s.pool w.page (s.pool.frames.get w.frame).data
    exact h.congr hreplacer fun g => congrArg (fun frames => (Vector.get frames g).page)
      (frames_writeBack s.pool w.page (s.pool.frames.get w.frame).data)
  | @closed i w answer hi =>
    have hp := hs.inFrame (List.mem_of_getElem? hi) rfl
    rw [closeWindow_eq]
    exact h.release (k := fun x =>
      { x with pins := x.pins - 1, dirty := x.dirty || !answer.isOk })
      (hs.tidy.page_eq hp) (fun _ => rfl) _

theorem acquainted_run (has : s.Along Regular as) (h : s.pool.Acquainted) :
    (s.run as).pool.Acquainted :=
  run_induction has (fun ha h => ha.step_induction (fun hs hm _ h => hm.acquainted hs h)
    (fun _ _ _ hp h => acquainted_hit ha.kempt.tidy hp h) h) h

theorem Undisturbed.ends [Storage δ] [Pagewise δ] {c : Config} {d : δ} {log : Option Log}
    {b : Pool δ c.poolSize} {as : List (Action c.poolSize)} (has : (start b).Undisturbed as)
    (hb : Pool.ofConfig c d log = .ok b) (hd : Pagewise.InOrder d) :
    ((start b).run as).pool.Tidy ∧ ((start b).run as).pool.Acquainted ∧
      Pagewise.InOrder ((start b).run as).pool.device := by
  obtain ⟨hregular, hkempt⟩ := has.along_regular (.start hb) rfl
  obtain ⟨r, hr, rfl⟩ := exists_create_of_ofConfig hb
  refine ⟨hkempt.tidy, acquainted_run hregular fun f hf => ?_,
    Pagewise.inOrder_of_leads (leads_run hregular) hd⟩
  have hunknown : r.knows f = false := Replacer.knows_ofPolicy hr
  cases hunknown.symm.trans hf

/-- A fetch whose read fails and a creation for which there is no new id end with the frame that was
secured at the end of the free list, and with an error, or without a page if the device does not
know it. No page has come in. If the frame was a free one, the same pages are cached as before, and
otherwise the victim is gone, with its bytes on the device if it was dirty and has a place there and
the device has not just given away its id. Everybody else keeps their frame, what is in it, and
their place in line. -/
theorem failed_load_costs_the_victim [Storage δ] [Pagewise δ] {c : Config} {d : δ}
    {log : Option Log} {b : Pool δ c.poolSize} (hb : Pool.ofConfig c d log = .ok b)
    (hd : Pagewise.InOrder d) (as : List (Action c.poolSize)) (has : (start b).Undisturbed as)
    {s : Session δ c.poolSize} (hs : s = (start b).run as) :
    (∀ p f b₁ e d', p ≠ PageId.invalid → s.pool.frameOf? p = none →
      s.pool.missed.takeFrame = (.ok (some f), b₁) → Device.read p b₁.device = (.error e, d') →
      ∃ b', s.pool.fetch p = (if e.isMissing then .ok none else .error (.reading p e), b') ∧
        s.pool.RolledBack f b' ∧ ∀ v, s.pool.VictimSaved v b'.device) ∧
    ∀ f b₁ e b₂, s.pool.takeFrame = (.ok (some f), b₁) → b₁.allocateUnused = (.error e, b₂) →
      ∃ b', s.pool.new = (.error e, b') ∧ s.pool.RolledBack f b' ∧
        ∀ v, b₁.unusedId? ≠ some v → s.pool.VictimSaved v b'.device := by
  obtain ⟨htidy, hknows, hdevice⟩ := has.ends hb hd
  rw [← hs] at htidy hknows hdevice
  constructor
  · intro p f b₁ e d' hp hq htake hread
    have hsecures := secures_of_takeFrame htidy.missed htake
    refine ⟨{ b₁ with device := d' }.releaseFrame f, ?_,
      .of_missed (hsecures.rolledBack htidy.missed hknows), fun v g hv hg hdirty hpage => ?_⟩
    · simp only [missed] at htake
      simp only [fetch, if_neg hp, hq, htake, hread]
    · have hstored := (hsecures.stored hdevice hv hg hdirty hpage).1
      exact (congrFun (Pagewise.read hread) v).trans hstored
  · intro f b₁ e b₂ htake halloc
    have hsecures := secures_of_takeFrame htidy htake
    refine ⟨b₂.releaseFrame f, ?_, ?_, fun v hid g hv hg hdirty hpage => ?_⟩
    · simp only [new, htake, halloc]
    · rw [eq_of_allocateUnused halloc]
      exact hsecures.rolledBack htidy hknows
    · obtain ⟨hstored, hgone⟩ := hsecures.stored hdevice hv hg hdirty hpage
      exact (page?_allocateUnused halloc hgone hid).trans hstored

def exhausted : FaultyDisk MemoryDisk where
  device := .empty
  allocations := .burst 1 1 fun _ => .io (.other "device unplugged")

def occupied : List (Action 1) := [.call .new, .put ⟨0, Nat.one_pos⟩ 0 [7], .call (.unpin 0 true)]

theorem failed_load_costs_the_victim_occupied : ∃ b : Pool (FaultyDisk MemoryDisk) 1,
    Pool.ofConfig ⟨1, .lru⟩ exhausted none = .ok b ∧ Pagewise.InOrder exhausted ∧
    (start b).Undisturbed occupied ∧ ∀ s, s = (start b).run occupied →
      (∃ b', s.pool.fetch 5 = (.ok none, b') ∧ s.pool.RolledBack 0 b' ∧
        page? b'.device 0 = some (s.pool.frames.get 0).data) ∧
      (∃ b', s.pool.new = (.error (.allocating (.io (.other "device unplugged"))), b') ∧
        s.pool.RolledBack 0 b' ∧ page? b'.device 0 = some (s.pool.frames.get 0).data) ∧
      (s.pool.frames.get 0).data.bytes.head? = some 7 := by
  have hb : Pool.ofConfig ⟨1, .lru⟩ exhausted none =
      .ok (.create (.lru { capacity := 1 }) exhausted none) := rfl
  have hd : Pagewise.InOrder exhausted := ⟨trivial, fun i error p hi => by cases hi⟩
  have has : (start (.create (.lru { capacity := 1 }) exhausted none)).Undisturbed occupied :=
    Or.inl (by simp [occupied])
  refine ⟨_, hb, hd, has, ?_⟩
  rintro s rfl
  obtain ⟨hfetch, hnew⟩ := failed_load_costs_the_victim hb hd occupied has rfl
  generalize hs : (start (.create (.lru { capacity := 1 }) exhausted none)).run occupied = s at *
  have hv : s.pool.IsVictim 0 := hs ▸ ⟨by decide +kernel, 0, by decide +kernel, by decide +kernel⟩
  have hp : s.pool.frameOf? 0 = some 0 := hs ▸ by decide +kernel
  have hdirty : (s.pool.frames.get 0).dirty = true := hs ▸ by decide +kernel
  have hplace : page? s.pool.device 0 ≠ none := hs ▸ by decide +kernel
  refine ⟨?_, ?_, hs ▸ by decide +kernel⟩
  · have htake : s.pool.missed.takeFrame = (.ok (some 0), s.pool.missed.takeFrame.2) :=
      Prod.ext (hs ▸ by decide +kernel) rfl
    have hread : Device.read 5 s.pool.missed.takeFrame.2.device =
        (.error (.notAllocated 5), (Device.read 5 s.pool.missed.takeFrame.2.device).2) :=
      Prod.ext (hs ▸ by decide +kernel) rfl
    obtain ⟨b', hb', hback, hsaved⟩ :=
      hfetch 5 0 _ _ _ (by decide) (hs ▸ by decide +kernel) htake hread
    exact ⟨b', hb', hback, hsaved 0 0 hv hp hdirty hplace⟩
  · have htake : s.pool.takeFrame = (.ok (some 0), s.pool.takeFrame.2) :=
      Prod.ext (hs ▸ by decide +kernel) rfl
    have halloc : s.pool.takeFrame.2.allocateUnused =
        (.error (.allocating (.io (.other "device unplugged"))),
          s.pool.takeFrame.2.allocateUnused.2) :=
      Prod.ext (hs ▸ by decide +kernel) rfl
    have hid : s.pool.takeFrame.2.unusedId? ≠ some 0 := by
      rw [unusedId?_of_allocating halloc]
      exact nofun
    obtain ⟨b', hb', hback, hsaved⟩ := hnew 0 _ _ _ htake halloc
    exact ⟨b', hb', hback, hsaved 0 hid 0 hv hp hdirty hplace⟩

end BufferPool.Session
