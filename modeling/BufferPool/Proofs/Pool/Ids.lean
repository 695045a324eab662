import BufferPool.Proofs.Disk.Ids
import BufferPool.Proofs.Pool.Flush

/-! # Ids in use

The ids of the cached pages were handed out by the disk, whoever deletes pages
or makes requests fail. From that follows what an operation of a pool does to
the allocation of its disk, and what an operation leaves behind that fails.
-/

namespace BufferPool.Pool

open OnMemory MemoryDisk

variable {δ : Type} [Device δ] [OnMemory δ] {n : Nat} {b b' b'' : Pool δ n} {f g : Fin n}
  {p q : PageId} {taken : Option (Fin n)}

/-- The cached pages have ids that were handed out. The page of every frame is in the table, but for
that of a frame that was `taken` from its page. -/
structure Issued (b : Pool δ n) (taken : Option (Fin n)) : Prop where
  ordered : (memory b.device).Ordered
  lt_next : ∀ p, b.isCached p = true → p < (memory b.device).next
  listed : ∀ g p, taken ≠ some g → (b.frames.get g).page = some p → b.frameOf? p = some g

/-- From `b` to `b'` no page came or went, in the pool or on the disk. -/
structure Quiet (b b' : Pool δ n) : Prop where
  sameIds : SameIds (memory b.device) (memory b'.device)
  table : b'.table = b.table
  page : ∀ g : Fin n, (b'.frames.get g).page = (b.frames.get g).page

/-- From `b` to `b'` the frame `f` was taken from the free list, or its page was evicted. -/
structure Takes (b : Pool δ n) (f : Fin n) (b' : Pool δ n) : Prop where
  sameIds : SameIds (memory b.device) (memory b'.device)
  frameOf? : (∀ p, b'.frameOf? p = b.frameOf? p) ∨ b.free = [] ∧
    ∀ p, b'.frameOf? p = if (b.frames.get f).page = some p then none else b.frameOf? p
  page : ∀ g : Fin n, (b'.frames.get g).page = (b.frames.get g).page

theorem sameIds_of_read {d d' : δ} {r : Except DiskError Page} (h : Device.read p d = (r, d')) :
    SameIds (memory d) (memory d') := by
  rcases OnMemory.read h with ⟨_, _, hm⟩ | hm
  · rw [hm]
    exact .refl _
  · exact sameIds_read hm

theorem sameIds_of_write {d d' : δ} {x : Page} {r : Except DiskError Unit}
    (h : Device.write p x d = (r, d')) : SameIds (memory d) (memory d') := by
  rcases OnMemory.write h with ⟨_, _, hm⟩ | hm
  · rw [hm]
    exact .refl _
  · exact sameIds_write hm

theorem lt_next_of_read {d d' : δ} {x : Page} (hd : (memory d).Ordered)
    (h : Device.read p d = (.ok x, d')) : p < (memory d).next := by
  apply hd.lt_next_of_isAllocated
  exact isAllocated_of_read ((OnMemory.read h).resolve_left (by simp))

namespace Quiet

theorem refl (b : Pool δ n) : Quiet b b := ⟨.refl _, rfl, fun _ => rfl⟩

theorem frameOf? (h : Quiet b b') (p : PageId) : b'.frameOf? p = b.frameOf? p := by
  simp only [Pool.frameOf?, h.table]

end Quiet

theorem Settles.quiet (h : Settles b b') : Quiet b b' where
  sameIds := h.keeps (P := fun d => SameIds (memory b.device) (memory d))
    (fun hs hw => hs.trans (sameIds_of_write hw)) (.refl _)
  table := h.table
  page := h.page

omit [OnMemory δ] in
theorem flushNow_error {e : PoolError} (h : (b.flushNow p).1 = .error e) :
    b.isCached p = true ∧ ∃ x cause, e = .writingBack p cause ∧
      (Device.write p x b.device).1 = .error cause ∧ cause.isMissing = false := by
  rcases hp : b.frameOf? p with _ | f
  · simp only [flushNow, hp] at h
    cases h
  rcases hd : (b.frames.get f).dirty with _ | _
  · rw [flushNow_of_clean hp hd] at h
    cases h
  · rw [flushNow_of_dirty hp hd] at h
    simp only [writeBack] at h
    rcases hw : Device.write p (b.frames.get f).data b.device with ⟨cause | _, d⟩ <;> rw [hw] at h
    · rcases hc : cause.isMissing with _ | _
      · simp only [hc] at h
        cases h
        exact ⟨isCached_of_frameOf? hp, _, cause, rfl, congrArg Prod.fst hw, hc⟩
      · simp only [hc] at h
        cases h
    · cases h

theorem quiet_of_takeFrame {answer : Except PoolError (Option (Fin n))}
    (h : b.takeFrame = (answer, b')) (hn : ∀ f, answer ≠ .ok (some f)) : Quiet b b' := by
  cases takeFrame_outcome h with
  | free | evicted => exact absurd rfl (hn _)
  | full => exact .refl b
  | refused _ _ hevict =>
    cases hevict with
    | @refused p _ _ _ hflush =>
      have hquiet := (Settles.flushNow b p).quiet
      rwa [hflush] at hquiet

theorem takes_of_takeFrame (h : b.takeFrame = (.ok (some f), b')) : Takes b f b' := by
  cases takeFrame_outcome h with
  | free => exact ⟨.refl _, Or.inl fun _ => rfl, fun _ => rfl⟩
  | evicted hfree _ hevict =>
    cases hevict with
    | empty => exact ⟨.refl _, Or.inl fun _ => rfl, fun _ => rfl⟩
    | @expelled p _ _ hpage hflush =>
      have hquiet := (Settles.flushNow b p).quiet
      rw [hflush] at hquiet
      refine ⟨hquiet.sameIds, Or.inr ⟨hfree, fun q => ?_⟩, hquiet.page⟩
      simp only [frameOf?_expel, hquiet.frameOf?, hpage, Option.some.injEq]

theorem sameIds_takeFrame (b : Pool δ n) :
    SameIds (memory b.device) (memory b.takeFrame.2.device) := by
  rcases ht : b.takeFrame with ⟨_ | _ | f, b'⟩
  · exact (quiet_of_takeFrame ht nofun).sameIds
  · exact (quiet_of_takeFrame ht nofun).sameIds
  · exact (takes_of_takeFrame ht).sameIds

theorem Takes.frameOf?_eq_some (ht : Takes b f b') (hp : b'.frameOf? p = some g) :
    b.frameOf? p = some g := by
  rcases ht.frameOf? with hsame | ⟨-, hgone⟩
  · rwa [hsame] at hp
  · rw [hgone] at hp
    split at hp
    · cases hp
    · exact hp

namespace Issued

theorem create (r : Replacer (Fin n)) {d : δ} (hd : (memory d).Ordered) (log : Option Log) :
    (Pool.create r d log).Issued none where
  ordered := hd
  lt_next p hp := by
    rw [isCached, frameOf?_create] at hp
    cases hp
  listed g p _ hp := by
    rw [getElem_create] at hp
    cases hp

theorem frameOf?_eq (h : b.Issued none) (hp : (b.frames.get g).page = some p) :
    b.frameOf? p = some g :=
  h.listed g p (by simp) hp

theorem frame_injective (h : b.Issued none) (hf : (b.frames.get f).page = some p)
    (hg : (b.frames.get g).page = some p) : f = g :=
  Option.some.inj ((h.frameOf?_eq hf).symm.trans (h.frameOf?_eq hg))

theorem quiet (h : b.Issued taken) (hq : Quiet b b') : b'.Issued taken where
  ordered := hq.sameIds.ordered h.ordered
  lt_next p hp := by
    rw [isCached, hq.frameOf?] at hp
    rw [hq.sameIds.next]
    exact h.lt_next p hp
  listed g p hg hp := by
    rw [hq.page] at hp
    rw [hq.frameOf?]
    exact h.listed g p hg hp

theorem takes (h : b.Issued none) (ht : Takes b f b') : b'.Issued (some f) where
  ordered := ht.sameIds.ordered h.ordered
  lt_next p hp := by
    obtain ⟨g, hg⟩ := Option.isSome_iff_exists.mp hp
    rw [ht.sameIds.next]
    exact h.lt_next p (isCached_of_frameOf? (ht.frameOf?_eq_some hg))
  listed g p hg hp := by
    rw [ht.page] at hp
    have hlisted := h.frameOf?_eq hp
    rcases ht.frameOf? with hsame | ⟨-, hgone⟩
    · rw [hsame, hlisted]
    · rw [hgone, if_neg, hlisted]
      exact fun hf => hg (congrArg some (h.frame_injective hf hp))

theorem eq_of_takes (h : b.Issued none) (ht : Takes b f b') (hn : b'.frameOf? p = none)
    (hp : (b.frames.get g).page = some p) : g = f ∧ b.free = [] := by
  have hlisted := h.frameOf?_eq hp
  rcases ht.frameOf? with hsame | ⟨hfree, hgone⟩
  · rw [hsame, hlisted] at hn
    cases hn
  · rw [hgone] at hn
    split at hn
    · rename_i hf
      exact ⟨h.frame_injective hp hf, hfree⟩
    · rw [hlisted] at hn
      cases hn

theorem install (h : b.Issued (some f)) (hn : b.frameOf? p = none)
    (hp : p < (memory b.device).next) (data : Page) : (b.install f p data).Issued none where
  ordered := h.ordered
  lt_next q hq := by
    rw [isCached, frameOf?_install] at hq
    split at hq
    · rename_i he
      exact he ▸ hp
    · exact h.lt_next q hq
  listed g q _ hq := by
    rw [getElem_install] at hq
    rw [frameOf?_install]
    split at hq
    · rename_i hg
      rw [if_pos (Option.some.inj hq), hg]
    · rename_i hg
      have hlisted := h.listed g q (fun he => hg (Option.some.inj he)) hq
      rw [if_neg, hlisted]
      rintro rfl
      rw [hn] at hlisted
      cases hlisted

theorem releaseFrame (h : b.Issued (some f)) : (b.releaseFrame f).Issued none where
  ordered := h.ordered
  lt_next := h.lt_next
  listed g q _ hq := by
    rw [getElem_releaseFrame] at hq
    split at hq
    · cases hq
    · rename_i hg
      exact h.listed g q (fun he => hg (Option.some.inj he)) hq

theorem discard (h : b.Issued none) (hp : b.frameOf? p = some f) :
    (b.discard f p).Issued none where
  ordered := h.ordered
  lt_next q hq := by
    rw [isCached, frameOf?_discard] at hq
    split at hq
    · cases hq
    · exact h.lt_next q hq
  listed g q _ hq := by
    rw [getElem_discard] at hq
    split at hq
    · cases hq
    · rename_i hg
      have hlisted := h.frameOf?_eq hq
      rw [frameOf?_discard, if_neg, hlisted]
      rintro rfl
      rw [hp] at hlisted
      exact hg (Option.some.inj hlisted)

theorem device (h : b.Issued taken) {d : δ} (ordered : (memory d).Ordered)
    (lt_next : ∀ p, p < (memory b.device).next → p < (memory d).next) :
    ({ b with device := d } : Pool δ n).Issued taken where
  ordered := ordered
  lt_next p hp := lt_next p (h.lt_next p hp)
  listed := h.listed

end Issued

/-- An allocation leaves the id on the disk that it has found. If it fails to give back the ids
that it has skipped, which are all in use, then the rest of these stay there too. -/
theorem handsOut_of_allocateUnused (h : b.Issued taken) {answer : Except PoolError PageId}
    (hroom : (memory b.device).next ≠ PageId.invalid ∨ ∃ p, answer = .ok p)
    (ha : b.allocateUnused = (answer, b')) :
    b' = { b with device := b'.device } ∧ ∃ (kept : List PageId) (found : Except DiskError PageId),
      HandsOut (memory b.device) (kept ++ found.toOption.toList) (memory b'.device) ∧
      (∀ p ∈ kept, b.isCached p = true) ∧
      (kept = [] ∧ answer = found.mapError .allocating ∨
        ∃ p rest e, kept = p :: rest ∧ answer = .error (.releasing p e)) := by
  refine ⟨eq_of_allocateUnused ha, ?_⟩
  cases allocateUnused_outcome ha with
  | found search back =>
    obtain ⟨kept, hhands, hkept, ⟨hnil, -⟩ | ⟨_, _, _, -, hr⟩⟩ :=
      search.handsOut_back back h.ordered (Or.inr ⟨_, rfl⟩) h.lt_next
    · exact ⟨kept, _, hhands, hkept, Or.inl ⟨hnil, rfl⟩⟩
    · cases hr
  | refused search back =>
    obtain ⟨kept, hhands, hkept, ⟨hnil, -⟩ | ⟨_, _, _, -, hr⟩⟩ :=
      search.handsOut_back back h.ordered (Or.inl (hroom.resolve_right nofun)) h.lt_next
    · exact ⟨kept, _, hhands, hkept, Or.inl ⟨hnil, rfl⟩⟩
    · cases hr
  | unreturned search back =>
    obtain ⟨kept, hhands, hkept, ⟨-, hr⟩ | ⟨p, rest, e, hcons, hr⟩⟩ :=
      search.handsOut_back back h.ordered (Or.inl (hroom.resolve_right nofun)) h.lt_next
    · cases hr
    · cases hr
      exact ⟨kept, _, hhands, hkept, Or.inr ⟨p, rest, e, hcons, rfl⟩⟩

/-- What becomes of a request for a new page, and the ids that are handed out for it. The id of a
page that was created is in no frame but the one just taken. -/
inductive Creates (b : Pool δ n) :
    Except PoolError (Option (Fin n)) → Pool δ n → List PageId → Prop where

  | created {b' : Pool δ n} {f : Fin n} {p : PageId} (page : (b'.frames.get f).page = some p)
      (unused : ∀ g, (b.frames.get g).page = some p → g = f ∧ b.free = []) :
      Creates b (.ok (some f)) b' [p]

  | unreleased {b' : Pool δ n} {p : PageId} {e : DiskError} {ids : List PageId} (hp : p ∈ ids)
      (cached : b.isCached p = true) : Creates b (.error (.releasing p e)) b' ids

  | nothing {b' : Pool δ n} {answer : Except PoolError (Option (Fin n))}
      (unanswered : ∀ f, answer ≠ .ok (some f))
      (released : ∀ p e, answer ≠ .error (.releasing p e)) : Creates b answer b' []

theorem Issued.new (h : b.Issued none)
    (hroom : (memory b.device).next ≠ PageId.invalid ∨ b.new.1.isOk = true) :
    b.new.2.Issued none ∧ ∃ ids, HandsOut (memory b.device) ids (memory b.new.2.device) ∧
      Creates b b.new.1 b.new.2 ids := by
  rcases hnew : b.new with ⟨answer, b'⟩
  rw [hnew] at hroom
  cases new_outcome hnew with
  | refused ht =>
    have hquiet := quiet_of_takeFrame ht nofun
    obtain ⟨p, -, -, hflush⟩ := exists_flushNow_of_takeFrame ht
    obtain ⟨-, -, cause, rfl, -⟩ := flushNow_error (congrArg Prod.fst hflush)
    exact ⟨h.quiet hquiet, [], hquiet.sameIds.handsOut h.ordered, .nothing nofun nofun⟩
  | full ht =>
    have hquiet := quiet_of_takeFrame ht nofun
    exact ⟨h.quiet hquiet, [], hquiet.sameIds.handsOut h.ordered, .nothing nofun nofun⟩
  | @created f p b₁ b₂ ht ha =>
    have htakes := takes_of_takeFrame ht
    have h₁ := h.takes htakes
    obtain ⟨hb₂, kept, found, hhands, -, hend⟩ := handsOut_of_allocateUnused h₁ (Or.inr ⟨p, rfl⟩) ha
    obtain ⟨rfl, hfound⟩ | ⟨_, _, _, -, hcases⟩ := hend
    · rcases found with e | q <;> cases hfound
      have hn : b₁.frameOf? p = none := frameOf?_of_allocateUnused ha
      have hp : p < (memory b₂.device).next := by
        apply hhands.ordered.lt_next_of_isAllocated
        rw [hhands.isAllocated_iff]
        simp [Except.toOption]
      have hn₂ : b₂.frameOf? p = none := by
        rw [hb₂]
        exact hn
      have h₂ : b₂.Issued (some f) := by
        rw [hb₂]
        exact h₁.device hhands.ordered hhands.lt_next
      refine ⟨(h₂.install hn₂ hp Page.zero).quiet ⟨.refl _, rfl, fun _ => rfl⟩, _,
        (htakes.sameIds.handsOut h.ordered).trans hhands, ?_⟩
      apply Creates.created
      · exact congrArg Frame.page (getElem_install.trans (if_pos rfl))
      · exact fun g hg => h.eq_of_takes htakes hn hg
    · cases hcases
  | @unallocated f e b₁ b₂ ht ha =>
    have htakes := takes_of_takeFrame ht
    have h₁ := h.takes htakes
    have hnext : (memory b₁.device).next ≠ PageId.invalid :=
      htakes.sameIds.next ▸ hroom.resolve_right Bool.false_ne_true
    obtain ⟨hb₂, kept, found, hhands, hkept, hend⟩ :=
      handsOut_of_allocateUnused h₁ (Or.inl hnext) ha
    have hall := (htakes.sameIds.handsOut h.ordered).trans hhands
    have h₂ : b₂.Issued (some f) := by
      rw [hb₂]
      exact h₁.device hhands.ordered hhands.lt_next
    refine ⟨h₂.releaseFrame, _, hall, ?_⟩
    obtain ⟨rfl, hfound⟩ | ⟨p, rest, cause, rfl, hcause⟩ := hend
    · rcases found with e | q <;> cases hfound
      exact .nothing nofun nofun
    · cases hcause
      obtain ⟨g, hg⟩ := Option.isSome_iff_exists.mp (hkept p List.mem_cons_self)
      exact .unreleased (by simp) (isCached_of_frameOf? (htakes.frameOf?_eq_some hg))

theorem Issued.read (h : b.Issued none) (ht : b.missed.takeFrame = (.ok (some f), b'))
    {r : Except DiskError Page} {d : δ} (hr : Device.read p b'.device = (r, d)) :
    ({ b' with device := d } : Pool δ n).Issued (some f) ∧
      SameIds (memory b.device) (memory d) := by
  have htakes := takes_of_takeFrame ht
  have hmissed : b.missed.Issued none := h.quiet ⟨.refl _, rfl, fun _ => rfl⟩
  have h' := hmissed.takes htakes
  have hread := sameIds_of_read hr
  refine ⟨h'.device (hread.ordered h'.ordered) fun q hq => ?_, htakes.sameIds.trans hread⟩
  rwa [hread.next]

theorem Issued.fetch (h : b.Issued none) (p : PageId) : (b.fetch p).2.Issued none ∧
    SameIds (memory b.device) (memory (b.fetch p).2.device) := by
  have hmissed : b.missed.Issued none := h.quiet ⟨.refl _, rfl, fun _ => rfl⟩
  rcases hf : b.fetch p with ⟨answer, b'⟩
  cases fetch_outcome hf with
  | invalid => exact ⟨h, .refl _⟩
  | hit =>
    refine ⟨h.quiet (Settles.quiet ?_), .refl _⟩
    exact .of_frames (k := fun x => { x with pins := x.pins + 1 }) rfl rfl rfl fun _ => rfl
  | refused _ _ ht | full _ _ ht =>
    have hquiet := quiet_of_takeFrame ht nofun
    exact ⟨hmissed.quiet hquiet, hquiet.sameIds⟩
  | @loaded f b₁ data d _ hp ht hr =>
    obtain ⟨hread, hsame⟩ := h.read ht hr
    have hn : b₁.frameOf? p = none := by
      rw [← Option.not_isSome_iff_eq_none, Option.isSome_iff_exists]
      rintro ⟨g, hg⟩
      exact nomatch hp.symm.trans ((takes_of_takeFrame ht).frameOf?_eq_some hg)
    have hlt := lt_next_of_read ((hmissed.takes (takes_of_takeFrame ht)).ordered) hr
    rw [← (sameIds_of_read hr).next] at hlt
    exact ⟨hread.install hn hlt data, hsame⟩
  | missing _ _ ht hr | unread _ _ ht hr =>
    obtain ⟨hread, hsame⟩ := h.read ht hr
    exact ⟨hread.releaseFrame, hsame⟩

theorem Issued.delete (h : b.Issued none) (p : PageId) : (b.delete p).2.Issued none ∧
    ((∃ e, (Device.deallocate p b.device).1 = .error e ∧
        SameIds (memory b.device) (memory (b.delete p).2.device)) ∨
      Releases (memory b.device) [p] (memory (b.delete p).2.device)) := by
  rcases hdelete : b.delete p with ⟨answer, b'⟩
  have hreleased {d : δ} (hd : Device.deallocate p b.device = (.ok (), d)) :
      ({ b with device := d } : Pool δ n).Issued none ∧
        Releases (memory b.device) [p] (memory d) := by
    obtain ⟨-, hreleases⟩ :=
      releases_of_deallocate h.ordered ((OnMemory.deallocate hd).resolve_left (by simp))
    exact ⟨h.device hreleases.ordered fun q hq => by rwa [hreleases.next], hreleases⟩
  cases delete_outcome hdelete with
  | @refused e d hd =>
    have hsame : SameIds (memory b.device) (memory d) := by
      rcases OnMemory.deallocate hd with ⟨_, -, hm⟩ | hm
      · rw [hm]
        exact .refl _
      · cases (releases_of_deallocate h.ordered hm).1
    refine ⟨h.device (hsame.ordered h.ordered) fun q hq => ?_,
      Or.inl ⟨e, congrArg Prod.fst hd, hsame⟩⟩
    rwa [hsame.next]
  | uncached hd =>
    obtain ⟨h₁, hreleases⟩ := hreleased hd
    exact ⟨h₁.quiet ⟨.refl _, rfl, fun _ => rfl⟩, Or.inr hreleases⟩
  | freed hd hp =>
    obtain ⟨h₁, hreleases⟩ := hreleased hd
    exact ⟨(h₁.discard hp).quiet ⟨.refl _, rfl, fun _ => rfl⟩, Or.inr hreleases⟩
  | pinned hd =>
    obtain ⟨h₁, hreleases⟩ := hreleased hd
    exact ⟨h₁, Or.inr hreleases⟩

end BufferPool.Pool
