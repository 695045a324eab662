import BufferPool.Proofs.Pool.Answers
import BufferPool.Proofs.Session.Program
import BufferPool.Proofs.Session.Unsaved

/-! # The policy cannot be told

Which pages are cached depends on the replacement policy, and so do the frames
and what is on the disk. The books of the clients do not, and with the number of
frames they determine what a pool on a memory disk answers.
-/

namespace BufferPool

open Pool Storage
open MemoryDisk (SameIds)

namespace Session

section Filed

variable {δ : Type} {n : Nat} [Device δ] [Lawful δ] {s t : Session δ n} {e : Event n}
  {a : Action n}

def Filed (s : Session δ n) : Prop :=
  ∀ p f, s.pool.frameOf? p = some f → page? s.pool.device p ≠ none

namespace Filed

theorem move (h : s.Filed) (hv : s.Valid) (hb : s.Backed) (hm : Move s e t)
    (hroom : e.allocates = true → Room s.pool.device 1) (hdel : e.deallocated? = none) :
    t.Filed := by
  intro p f hp
  rcases hm.cached hp with hp | rfl | rfl
  · exact hm.stored hv hb hroom (by rw [hdel]; nofun) (h p f hp)
  · cases hm with
    | @loaded _ _ _ data _ _ _ hr =>
      obtain ⟨-, hpage, hx⟩ := Lawful.read hb.ok hr
      have hstored := (congrFun hpage p).trans (hx data rfl)
      exact Option.ne_none_iff_exists'.mpr ⟨data, hstored⟩
  · obtain ⟨x, -, hx⟩ := ((hb.grown hm rfl (hroom rfl)).2 p f rfl).2.2
    simp [hx]

theorem moves {es : List (Event n)} (h : s.Filed) (hv : s.Valid) (hb : s.Backed)
    (hm : Moves s es t) (hroom : Room s.pool.device 1) (hdel : ∀ e ∈ es, e.deallocated? = none) :
    t.Filed := by
  induction hm with
  | nil => exact h
  | @cons s t u e es hm hlast hms ih =>
    have ht := h.move hv hb hm (fun _ => hroom) (hdel e List.mem_cons_self)
    rcases he : e.allocates with _ | _
    · exact ih ht (hv.move hm) (hb.move hm fun _ => hroom) ((hm.steady hb.ok he).room 1 hroom)
        fun e he => hdel e (List.mem_cons_of_mem _ he)
    · obtain rfl := hlast he
      cases hms
      exact ht

theorem step (h : s.Filed) (hv : s.Valid) (hb : s.Backed) (ha : s.Proper a)
    (hdel : ∀ p, a ≠ .call (.delete p)) : (s.step a).Filed := by
  obtain ⟨es, hes, hmakes⟩ := hv.step_moves ha.1
  refine h.moves hv hb hes ha.2 fun e he => ?_
  rw [Option.eq_none_iff_forall_ne_some]
  intro p hp
  exact hdel p ((hmakes e he).of_deallocated? hp).1

end Filed

end Filed

theorem pins_step_new {δ : Type} [Device δ] {n : Nat} {s : Session δ n} {f : Fin n} {p : PageId}
    (hans : s.pool.new.1 = .ok (some f)) (hpage : (s.pool.new.2.frames.get f).page = some p) :
    (s.step (.call .new)).pins = Function.update s.pins p .first := by
  simp only [Session.step, account]
  rcases hnew : s.pool.new with ⟨answer, b⟩
  rw [hnew] at hans hpage
  simp only at hans hpage
  subst hans
  simp only [hpage]

variable {n : Nat} {s : Session MemoryDisk n} {k : Books} {p : PageId} {f : Fin n}

/-- The books of the clients are true of the session. -/
structure Shows (s : Session MemoryDisk n) (k : Books) : Prop where
  valid : s.Valid
  backed : s.Backed
  filed : s.Filed
  flights : s.flights = []
  next : s.pool.device.next = k.next
  freeIds : s.pool.device.freeIds = k.freeIds
  pins : ∀ p, (s.pins p).handed = (s.pins p).returned + k.pins.count p
  cached : ∀ p ∈ k.pins, s.pool.isCached p = true
  stored : ∀ p, s.pool.device.isAllocated p = (k.contents p).isSome
  kept : ∀ p x, k.contents p = some x → s.Kept p {x} True (k.unmarked p = true)

namespace Shows

theorem create {r : Replacer (Fin n)} (hr : r.Sound) (he : ∀ f, r.isEvictable f = false)
    (log : Option Log) : (start (.create r .empty log)).Shows {} where
  valid := .create hr he MemoryDisk.empty log
  backed := .create r MemoryDisk.ordered_empty log
  filed p f hp := by
    rw [start, frameOf?_create] at hp
    cases hp
  flights := rfl
  next := rfl
  freeIds := rfl
  pins _ := rfl
  cached := nofun
  stored p := by simp [start, Pool.create, MemoryDisk.isAllocated, MemoryDisk.empty]
  kept := nofun

theorem windowsOn (h : s.Shows k) (p : PageId) : s.windowsOn p = 0 := by
  rw [Session.windowsOn, h.flights, List.countP_nil]

theorem toNat_pins (h : s.Shows k) (hp : s.pool.frameOf? p = some f) :
    (s.pool.frames.get f).pins.toNat = k.pins.count p := by
  have heq := h.valid.toNat_pins hp
  have hpins := h.pins p
  have hwindows := h.windowsOn p
  unfold Pins.held at heq
  omega

theorem pins_eq_zero_iff (h : s.Shows k) (hp : s.pool.frameOf? p = some f) :
    (s.pool.frames.get f).pins = 0 ↔ p ∉ k.pins := by
  rw [← UInt32.toNat_inj, h.toNat_pins hp, UInt32.toNat_zero, List.count_eq_zero]

theorem exists_frame (h : s.Shows k) (hp : p ∈ k.pins) : ∃ f, s.pool.frameOf? p = some f :=
  Option.isSome_iff_exists.mp (h.cached p hp)

theorem count_lt (h : s.Shows k) (p : PageId) : k.pins.count p < UInt32.size := by
  by_cases hp : p ∈ k.pins
  · obtain ⟨f, hf⟩ := h.exists_frame hp
    rw [← h.toNat_pins hf]
    exact UInt32.toNat_lt _
  · rw [List.count_eq_zero_of_not_mem hp]
    decide

theorem full_iff (h : s.Shows k) : s.pool.Full ↔ k.IsFull n := by
  rw [h.valid.sound.full_iff, pinnedCount_eq_length (List.nodup_dedup k.pins), Books.IsFull]
  intro p
  rw [List.mem_dedup]
  constructor
  · intro hp
    obtain ⟨f, hf⟩ := h.exists_frame hp
    exact ⟨f, hf, fun hz => (h.pins_eq_zero_iff hf).mp hz hp⟩
  · rintro ⟨f, hf, hpins⟩
    by_contra hp
    exact hpins ((h.pins_eq_zero_iff hf).mpr hp)

theorem ordered (h : s.Shows k) : s.pool.device.Ordered := h.backed.ok

theorem issued (h : s.Shows k) : s.pool.Issued none where
  ordered := h.backed.ok
  lt_next p hp := by
    obtain ⟨f, hf⟩ := Option.isSome_iff_exists.mp hp
    exact h.backed.known p f hf
  listed f p _ hp := (h.valid.sound.frameOf?_iff p f).mpr hp

theorem frameOf?_eq_none (h : s.Shows k) (hp : k.contents p = none) :
    s.pool.frameOf? p = none := by
  rcases hf : s.pool.frameOf? p with _ | f
  · rfl
  · have hstored : s.pool.device.isAllocated p = false := by rw [h.stored, hp]; rfl
    exact absurd (MemoryDisk.isAllocated_eq_false_iff.mp hstored) (h.filed p f hf)

theorem not_mem_pins (h : s.Shows k) (hp : s.pool.frameOf? p = none) : p ∉ k.pins := by
  intro hm
  obtain ⟨f, hf⟩ := h.exists_frame hm
  rw [hp] at hf
  cases hf

theorem exists_contents (h : s.Shows k) (hp : p ∈ k.pins) : ∃ x, k.contents p = some x := by
  rcases hx : k.contents p with _ | x
  · exact absurd hp (h.not_mem_pins (h.frameOf?_eq_none hx))
  · exact ⟨x, rfl⟩

theorem room (h : s.Shows k) (hk : k.next ≠ PageId.invalid) : Room s.pool.device 1 := by
  rw [← h.next] at hk
  have hlt := s.pool.device.next.toNat_lt
  have hne : s.pool.device.next.toNat ≠ 4294967295 := fun he => hk (UInt32.toNat_inj.mp he)
  change s.pool.device.next.toNat + 1 ≤ 4294967295
  omega

theorem proper {a : Action n} {ps : List PageId} (h : s.Shows k) (hk : k.next ≠ PageId.invalid)
    (flights : (s.step a).flights = [])
    (pins : ∀ p, ((s.step a).pins p).handed = ((s.step a).pins p).returned + ps.count p)
    (hfit : ∀ p, ps.count p < UInt32.size) : s.Proper a := by
  refine ⟨⟨?_, fun p => ?_⟩, h.room hk⟩
  · cases a with
    | call c =>
      cases c with
      | unpin p dirty => exact Or.inl (h.windowsOn p)
      | _ => trivial
    | _ => trivial
  · have := pins p
    have := hfit p
    rw [Session.windowsOn, flights, List.countP_nil, Pins.held]
    omega

theorem handOut {t : Session MemoryDisk n} {b : Pins} (h : s.Shows k)
    (hpins : t.pins = Function.update s.pins p b)
    (hb : b.handed = b.returned + (k.pins.count p + 1)) (q : PageId) :
    (t.pins q).handed = (t.pins q).returned + (p :: k.pins).count q := by
  rw [hpins]
  by_cases hq : q = p
  · subst hq
    rwa [Function.update_self, List.count_cons_self]
  · rw [Function.update_of_ne hq, List.count_cons_of_ne (Ne.symm hq)]
    exact h.pins q

theorem count_cons_lt (h : s.Shows k) (hfit : k.pins.count p + 1 < UInt32.size) (q : PageId) :
    (p :: k.pins).count q < UInt32.size := by
  by_cases hq : q = p
  · subst hq
    rwa [List.count_cons_self]
  · rw [List.count_cons_of_ne (Ne.symm hq)]
    exact h.count_lt q

theorem held_lt (h : s.Shows k) (hp : p ∈ k.pins) : (s.pins p).returned < (s.pins p).handed := by
  have hpos := List.count_pos_iff.mpr hp
  have := h.pins p
  omega

theorem held_step {a : Action n} (h : s.Shows k) (ha : s.Proper a)
    (hunpin : ∀ dirty, a ≠ .call (.unpin p dirty)) (hp : p ∈ k.pins) :
    (s.step a).pool.isCached p = true := by
  obtain ⟨f, hf⟩ := h.exists_frame hp
  exact isCached_of_frameOf? (h.valid.held_step ha.1 hf (h.held_lt hp) hunpin)

theorem kept_call {c : Call} (h : s.Shows k) (ha : s.Proper (.call c))
    (hdel : c ≠ .delete p) (hunpin : ∀ dirty, c ≠ .unpin p dirty) {x : Page}
    (hx : k.contents p = some x) :
    (s.step (.call c)).Kept p {x} True (k.unmarked p = true) := by
  refine (h.kept p x hx).step h.valid h.backed ha ?_ (by simp) fun _ dirty he => ?_
  · rintro ⟨he, -⟩
    exact hdel (Action.call.inj he)
  · exact hunpin dirty (Action.call.inj he)

theorem call {c : Call} (ps : List PageId) (h : s.Shows k) (hk : k.next ≠ PageId.invalid)
    (hdel : ∀ p, c ≠ .delete p) (hunpin : ∀ p dirty, c ≠ .unpin p dirty)
    (hsame : SameIds s.pool.device (s.pool.after c).device)
    (pins : ∀ p, ((s.step (.call c)).pins p).handed =
      ((s.step (.call c)).pins p).returned + ps.count p)
    (hfit : ∀ p, ps.count p < UInt32.size)
    (hnew : ∀ p ∈ ps, p ∈ k.pins ∨ (s.pool.after c).isCached p = true) :
    (s.step (.call c)).Shows { k with pins := ps } := by
  have ha : s.Proper (.call c) := h.proper hk h.flights pins hfit
  refine ⟨h.valid.step ha.1, h.backed.step h.valid ha, ?_, h.flights, hsame.next.trans h.next,
    hsame.freeIds.trans h.freeIds, pins, fun p hp => ?_, fun p => ?_, fun p x hx => ?_⟩
  · exact h.filed.step h.valid h.backed ha fun p he => hdel p (Action.call.inj he)
  · refine (hnew p hp).elim (h.held_step ha fun dirty he => ?_) id
    exact hunpin p dirty (Action.call.inj he)
  · exact (hsame.isAllocated p).trans (h.stored p)
  · exact h.kept_call ha (hdel p) (hunpin p) hx

theorem flush (h : s.Shows k) (hk : k.next ≠ PageId.invalid) (p : PageId) :
    (s.step (.call (.flush p))).Shows k := by
  have hquiet := (Settles.flushNow s.pool p).quiet
  rw [← flush_eq_flushNow] at hquiet
  exact h.call k.pins hk (by simp) (by simp) hquiet.sameIds h.pins h.count_lt
    fun p hp => Or.inl hp

theorem flushAll (h : s.Shows k) (hk : k.next ≠ PageId.invalid) :
    (s.step (.call .flushAll)).Shows k := by
  have hquiet := (Settles.flushEach s.pool s.pool.cachedPages).quiet
  exact h.call k.pins hk (by simp) (by simp) hquiet.sameIds h.pins h.count_lt
    fun p hp => Or.inl hp

section Fetch

theorem ne_invalid (h : s.Shows k) {x : Page} (hx : k.contents p = some x) :
    p ≠ PageId.invalid := by
  have hstored : s.pool.device.isAllocated p = true := by rw [h.stored, hx]; rfl
  exact MemoryDisk.ne_invalid_of_lt (h.ordered.lt_next_of_isAllocated hstored)

theorem fetch_cases (h : s.Shows k) (p : PageId) :
    (∃ f x, (s.pool.fetch p).1 = .ok (some f) ∧ k.contents p = some x ∧
      ¬(k.IsFull n ∧ p ∉ k.pins)) ∨
    (s.pool.fetch p).1 = .ok none ∧ (k.IsFull n ∧ p ∉ k.pins ∨ k.contents p = none) := by
  have hs := h.valid.sound
  rcases hx : k.contents p with _ | x
  · have hstored : s.pool.device.isAllocated p = false := by rw [h.stored, hx]; rfl
    have hids := fun q hq => MemoryDisk.ne_invalid_of_lt (h.issued.lt_next q hq)
    exact Or.inr ⟨fetch_of_not_isAllocated hids hstored (h.frameOf?_eq_none hx), Or.inr rfl⟩
  have hv := h.ne_invalid hx
  by_cases hfull : k.IsFull n ∧ p ∉ k.pins
  · refine Or.inr ⟨?_, Or.inl hfull⟩
    have hall := h.full_iff.mpr hfull.1
    have hp : s.pool.frameOf? p = none := by
      rw [Option.eq_none_iff_forall_ne_some]
      intro f hf
      obtain ⟨q, hq, hpins⟩ := hall f
      obtain rfl := hs.frameOf?_injective hf hq
      exact hpins ((h.pins_eq_zero_iff hf).mpr hfull.2)
    rw [fetch_of_full hs hall hv hp]
  · refine Or.inl ?_
    suffices hok : ∃ f, (s.pool.fetch p).1 = .ok (some f) by
      obtain ⟨f, hf⟩ := hok
      exact ⟨f, x, hf, rfl, hfull⟩
    by_cases hp : p ∈ k.pins
    · obtain ⟨f, hf⟩ := h.exists_frame hp
      exact ⟨f, fetch_of_cached hv hf⟩
    · refine fetch_of_isAllocated hs h.issued ?_ ?_
      · rw [h.full_iff]
        exact fun hall => hfull ⟨hall, hp⟩
      · rw [h.stored, hx]
        rfl

theorem fetch_some (h : s.Shows k) (hk : k.next ≠ PageId.invalid)
    (hfit : k.pins.count p + 1 < UInt32.size) (hf : (s.pool.fetch p).1 = .ok (some f)) :
    (s.step (.call (.fetch p))).Shows { k with pins := p :: k.pins } := by
  have hpins : (s.step (.call (.fetch p))).pins = Function.update s.pins p
      (if s.pool.isCached p then (s.pins p).handOut else .first) := by
    simp only [Session.step, account, hf]
  refine h.call (p :: k.pins) hk (by simp) (by simp) (h.issued.fetch p).2 (h.handOut hpins ?_)
    (h.count_cons_lt hfit) fun q hq => ?_
  · rcases hc : s.pool.isCached p with _ | _
    · rw [List.count_eq_zero_of_not_mem (h.not_mem_pins (Pool.isCached_eq_false_iff.mp hc))]
      rfl
    · have heq := h.pins p
      simp only [if_true, Pins.handOut]
      omega
  · rcases List.mem_cons.mp hq with rfl | hq
    · exact Or.inr (isCached_of_frameOf? (frameOf?_fetch hf))
    · exact Or.inl hq

theorem fetch_none (h : s.Shows k) (hk : k.next ≠ PageId.invalid)
    (hf : (s.pool.fetch p).1 = .ok none) : (s.step (.call (.fetch p))).Shows k := by
  refine h.call k.pins hk (by simp) (by simp) (h.issued.fetch p).2 (fun q => ?_)
    h.count_lt fun q hq => Or.inl hq
  simp only [Session.step, account, hf]
  exact h.pins q

end Fetch

theorem fetch (h : s.Shows k) (hk : k.next ≠ PageId.invalid)
    (hfit : k.pins.count p + 1 < UInt32.size) :
    s.pool.answer (.fetch p) = k.answer n (.call (.fetch p)) ∧
      (s.step (.call (.fetch p))).Shows
        (k.note (.call (.fetch p)) (k.answer n (.call (.fetch p)))) := by
  rcases h.fetch_cases p with ⟨f, x, hf, hx, hserved⟩ | ⟨hf, hrefused⟩
  · have ht := h.fetch_some hk hfit hf
    have hdata : ((s.pool.fetch p).2.frames.get f).data = x :=
      (ht.kept p x hx).mem f (frameOf?_fetch hf)
    have ha : k.answer n (.call (.fetch p)) = .fetched (.ok (some x)) := by
      simp only [Books.answer, if_neg hserved, hx]
    rw [ha]
    refine ⟨?_, ht⟩
    simp only [Pool.answer, hf, ← hdata]
    rfl
  · have ha : k.answer n (.call (.fetch p)) = .fetched (.ok none) := by
      simp only [Books.answer]
      split
      · rfl
      · rename_i hserved
        rw [hrefused.resolve_left hserved]
    rw [ha]
    refine ⟨?_, h.fetch_none hk hf⟩
    simp only [Pool.answer, hf]
    rfl

theorem created (h : s.Shows k) (hk : k.next ≠ PageId.invalid) (hfull : ¬k.IsFull n)
    (hp : k.freeIds.headD k.next = p) : s.pool.answer .new = .created (.ok (some p)) ∧
      (s.step (.call .new)).Shows (k.note (.call .new) (.created (.ok (some p)))) := by
  have hid : s.pool.device.nextId = p := by
    rw [MemoryDisk.nextId, h.freeIds, h.next, hp]
  have hempty : k.contents p = none := by
    rw [← Option.not_isSome_iff_eq_none, ← h.stored, ← hid, h.ordered.isAllocated_nextId]
    exact Bool.false_ne_true
  have hnone := h.frameOf?_eq_none hempty
  obtain ⟨f, hans, hpage, hnext, hfree, hallocated⟩ := new_of_unused h.valid.sound h.issued
    (fun hall => hfull (h.full_iff.mp hall)) (h.next ▸ hk) (hid ▸ hnone)
  rw [hid] at hpage hallocated
  rw [h.next, h.freeIds] at hnext
  rw [h.freeIds] at hfree
  have hcount : k.pins.count p = 0 := List.count_eq_zero_of_not_mem (h.not_mem_pins hnone)
  have hpins := h.handOut (pins_step_new hans hpage) (by rw [hcount]; rfl)
  have ha : s.Proper (.call .new) := h.proper hk h.flights hpins
    (h.count_cons_lt (by rw [hcount]; decide))
  obtain ⟨q, hframe, hdata, ⟨x, rfl, hx⟩, -⟩ := h.backed.step_new h.valid ha hans
  obtain rfl : q = p := Option.some.inj ((congrArg Frame.page hdata).symm.trans hpage)
  refine ⟨?_, h.valid.step ha.1, h.backed.step h.valid ha, ?_, h.flights, hnext, hfree, hpins,
    ?_, ?_, ?_⟩
  · simp only [Pool.answer, hans, Except.map, Option.bind_some, hpage]
  · exact h.filed.step h.valid h.backed ha (by simp)
  · intro r hr
    rcases List.mem_cons.mp hr with rfl | hr
    · exact isCached_of_frameOf? hframe
    · exact h.held_step ha (by simp) hr
  · intro r
    refine (hallocated r).trans ?_
    simp only [Books.note, Function.update_apply]
    split
    · rfl
    · exact h.stored r
  · intro r x hr
    simp only [Books.note] at hr ⊢
    by_cases hrq : r = q
    · subst hrq
      rw [Function.update_self, Option.some.injEq] at hr
      subst hr
      refine ⟨fun g hg => ?_, ⟨_, hx, Or.inl rfl⟩, by simp⟩
      obtain rfl := Option.some.inj (hframe.symm.trans hg)
      rw [hdata]
      rfl
    · rw [Function.update_of_ne hrq] at hr ⊢
      exact h.kept_call ha (by simp) (by simp) hr

theorem new (h : s.Shows k) (hk : k.next ≠ PageId.invalid) :
    s.pool.answer .new = k.answer n (.call .new) ∧
      (s.step (.call .new)).Shows (k.note (.call .new) (k.answer n (.call .new))) := by
  by_cases hfull : k.IsFull n
  · have hnew := new_of_full h.valid.sound (h.full_iff.mpr hfull)
    have hstep : s.step (.call .new) = s := by simp only [Session.step, after, account, hnew]
    have ha : k.answer n (.call .new) = .created (.ok none) := by
      simp only [Books.answer, if_pos hfull]
    rw [ha, hstep]
    refine ⟨?_, h⟩
    simp only [Pool.answer, hnew]
    rfl
  · have ha : k.answer n (.call .new) = .created (.ok (some (k.freeIds.headD k.next))) := by
      simp only [Books.answer, if_neg hfull]
    rw [ha]
    exact h.created hk hfull rfl

theorem unpin (h : s.Shows k) (hk : k.next ≠ PageId.invalid) {dirty : Bool} (hp : p ∈ k.pins)
    (hmark : k.unmarked p = true → dirty = true ∨ p ∈ k.pins.erase p) :
    s.pool.answer (.unpin p dirty) = .released true ∧
      (s.step (.call (.unpin p dirty))).Shows
        (k.note (.call (.unpin p dirty)) (.released true)) := by
  obtain ⟨f, hf⟩ := h.exists_frame hp
  have hpins : (s.pool.frames.get f).pins ≠ 0 := fun hz => (h.pins_eq_zero_iff hf).mp hz hp
  have hcount := List.count_pos_iff.mpr hp
  have hpins' : ∀ q, ((s.step (.call (.unpin p dirty))).pins q).handed =
      ((s.step (.call (.unpin p dirty))).pins q).returned + (k.pins.erase p).count q := by
    intro q
    have heq := h.pins q
    simp only [Session.step, account, unpin_eq hf hpins, if_true]
    by_cases hq : q = p
    · subst hq
      simp only [Function.update_self, Pins.takeBack, List.count_erase_self]
      omega
    · rw [Function.update_of_ne hq, List.count_erase_of_ne hq]
      exact heq
  have hfit : ∀ q, (k.pins.erase p).count q < UInt32.size := fun q =>
    (List.erase_sublist.count_le q).trans_lt (h.count_lt q)
  have ha : s.Proper (.call (.unpin p dirty)) := h.proper hk h.flights hpins' hfit
  have hsame : SameIds s.pool.device (s.pool.unpin p dirty).2.device :=
    (Settles.unpin s.pool p dirty).quiet.sameIds
  refine ⟨?_, h.valid.step ha.1, h.backed.step h.valid ha, ?_, h.flights, ?_, ?_, hpins', ?_, ?_,
    ?_⟩
  · simp only [Pool.answer, unpin_eq hf hpins]
  · exact h.filed.step h.valid h.backed ha (by simp)
  · exact hsame.next.trans h.next
  · exact hsame.freeIds.trans h.freeIds
  · intro q hq
    obtain ⟨g, hg⟩ := h.exists_frame (List.mem_of_mem_erase hq)
    exact isCached_of_frameOf? ((frameOf?_unpin ..).trans hg)
  · exact fun q => (hsame.isAllocated q).trans (h.stored q)
  · intro q x hx
    simp only [Books.note]
    by_cases hq : q = p
    · subst hq
      rw [Function.update_self]
      refine (h.kept q x hx).unpin hf hpins (fun ho => ?_) fun ho => ?_
      · rcases dirty with _ | _
        · exact Or.inr (by simp [ho])
        · exact Or.inl rfl
      · rw [Bool.and_eq_true, Bool.not_eq_true'] at ho
        have hmem := (hmark ho.1).resolve_left (by simp [ho.2])
        have hpos := List.count_pos_iff.mpr hmem
        rw [List.count_erase_self] at hpos
        have := h.pins q
        omega
    · rw [Function.update_of_ne hq]
      exact h.kept_call ha (by simp) (fun dirty' he => hq (Call.unpin.inj he).1.symm) hx

theorem delete (h : s.Shows k) (hk : k.next ≠ PageId.invalid) (hp : p ∉ k.pins) :
    s.pool.answer (.delete p) = .deleted (.ok true) ∧
      (s.step (.call (.delete p))).Shows (k.note (.call (.delete p)) (.deleted (.ok true))) := by
  obtain ⟨hok, hdevice, hframe⟩ := delete_of_unpinned (b := s.pool) (p := p) fun f hf =>
    (h.pins_eq_zero_iff hf).mpr hp
  have ha : s.Proper (.call (.delete p)) := h.proper hk h.flights h.pins h.count_lt
  have hd : MemoryDisk.deallocate p s.pool.device = (_, _) := (Prod.mk.eta).symm
  obtain ⟨hok', hnext, hfree⟩ := MemoryDisk.deallocate_books hd
  have hpage : page? (s.step (.call (.delete p))).pool.device =
      Function.update (page? s.pool.device) p none := by
    refine (congrArg page? hdevice).trans ?_
    exact (Lawful.deallocate_ok h.backed.ok (Prod.ext hok' rfl)).2
  have hallocated : ∀ q, (s.step (.call (.delete p))).pool.device.isAllocated q =
      if q = p then false else s.pool.device.isAllocated q := fun q =>
    MemoryDisk.isAllocated_update hpage
  refine ⟨?_, h.valid.step ha.1, h.backed.step h.valid ha, ?_, h.flights, ?_, ?_, h.pins, ?_, ?_,
    ?_⟩
  · simp only [Pool.answer, hok]
  · intro q f hq
    have hq' := (hframe q).symm.trans hq
    split at hq'
    · cases hq'
    · rename_i hpq
      rw [hpage, Function.update_of_ne (Ne.symm hpq)]
      exact h.filed q f hq'
  · exact (congrArg MemoryDisk.next hdevice).trans (hnext.trans h.next)
  · refine (congrArg MemoryDisk.freeIds hdevice).trans ?_
    rw [hfree, h.stored, h.freeIds]
    rfl
  · intro q hq
    obtain ⟨g, hg⟩ := h.exists_frame hq
    have hpq : p ≠ q := fun he => hp (he ▸ hq)
    exact isCached_of_frameOf? ((hframe q).trans ((if_neg hpq).trans hg))
  · intro q
    rw [hallocated]
    simp only [Books.note, Function.update_apply]
    split
    · rfl
    · exact h.stored q
  · intro q x hq
    simp only [Books.note] at hq ⊢
    by_cases hqp : q = p
    · subst hqp
      rw [Function.update_self] at hq
      cases hq
    · rw [Function.update_of_ne hqp] at hq
      exact h.kept_call ha (fun he => hqp (Call.delete.inj he).symm) (by simp) hq

theorem put (h : s.Shows k) (hk : k.next ≠ PageId.invalid) {offset : Nat} {new : Bytes}
    (hp : p ∈ k.pins) (hf : s.pool.frameOf? p = some f) :
    (s.step (.put f offset new)).Shows (k.note (.put p offset new) .done) := by
  have ha : s.Proper (.put f offset new) := h.proper hk h.flights h.pins h.count_lt
  refine ⟨h.valid.step ha.1, h.backed.step h.valid ha, ?_, h.flights, h.next, h.freeIds, h.pins,
    h.cached, fun q => ?_, fun q x hx => ?_⟩
  · exact h.filed.step h.valid h.backed ha (by simp)
  · simp only [Books.note, Function.update_apply]
    split
    · rename_i hq
      subst hq
      rw [Option.isSome_map]
      exact h.stored q
    · exact h.stored q
  · simp only [Books.note] at hx ⊢
    by_cases hq : q = p
    · subst hq
      obtain ⟨y, hy⟩ := h.exists_contents hp
      have hdata : (s.pool.frames.get f).data = y := (h.kept q y hy).mem f hf
      rw [Function.update_self, hy, Option.map_some, Option.some.injEq] at hx
      obtain ⟨z, hz, -⟩ := (h.kept q y hy).stored
      rw [Function.update_self, ← hx, ← hdata]
      exact Kept.overwrite (by simp [hz]) hf (h.held_lt hp) rfl
    · rw [Function.update_of_ne hq] at hx ⊢
      apply (h.kept q x hx).put
      intro g hg
      have hne := h.valid.sound.frame_ne (Ne.symm hq) hf hg
      rw [writeFrame, getElem_modifyFrame, if_neg hne]
      exact (h.kept q x hx).mem g hg

theorem serve (h : s.Shows k) (hk : k.next ≠ PageId.invalid) {c : Command} (hc : k.Allows c) :
    (s.serve c).1 = k.answer n c ∧ (s.serve c).2.Shows (k.note c (k.answer n c)) := by
  cases c with
  | call c =>
    cases c with
    | new => exact h.new hk
    | fetch p => exact h.fetch hk hc
    | unpin p dirty =>
      have ha : k.answer n (.call (.unpin p dirty)) = .released true := by
        simp only [Books.answer, List.contains_iff_mem.mpr hc.1]
      rw [ha]
      exact h.unpin hk hc.1 hc.2
    | flush p => exact ⟨rfl, h.flush hk p⟩
    | flushAll => exact ⟨rfl, h.flushAll hk⟩
    | delete p => exact h.delete hk hc
  | put p offset new =>
    obtain ⟨f, hf⟩ := h.exists_frame hc
    simp only [Session.serve, hf]
    exact ⟨rfl, h.put hk hc hf⟩

end Shows

end Session

namespace Program

open Session

variable {n : Nat}

/-- Whatever the policies, two pools answer alike as long as the same books are true of both. -/
theorem answers_eq (t : Program) {s s' : Session MemoryDisk n} {k : Books} (h : s.Shows k)
    (h' : s'.Shows k) (ht : t.Heeds s k) : t.answers s = t.answers s' := by
  induction t generalizing s s' k with
  | done => rfl
  | ask c next ih =>
    obtain ⟨hk, hc, ht⟩ := ht
    obtain ⟨ha, hs⟩ := h.serve hk hc
    obtain ⟨ha', hs'⟩ := h'.serve hk hc
    rw [ha] at ht
    simp only [answers, ha, ha']
    rw [ih _ hs hs' ht]

/-- Clients cannot tell the replacement policy of a pool on a memory disk. -/
theorem policy_invisible {capacity capacity' : Nat} {policy policy' : Policy}
    {r r' : Replacer (Fin n)} (hr : Replacer.ofPolicy capacity policy = .ok r)
    (hr' : Replacer.ofPolicy capacity' policy' = .ok r') (log log' : Option Log) (t : Program)
    (ht : t.Heeds (start (.create r MemoryDisk.empty log)) {}) :
    t.answers (start (.create r MemoryDisk.empty log)) =
      t.answers (start (.create r' MemoryDisk.empty log')) := by
  obtain ⟨hsound, hnone⟩ := Replacer.ofPolicy_spec hr
  obtain ⟨hsound', hnone'⟩ := Replacer.ofPolicy_spec hr'
  exact t.answers_eq (.create hsound hnone log) (.create hsound' hnone' log') ht

def revisiting : Program :=
  .ask (.call .new) fun
    | .created (.ok (some p)) =>
      .ask (.put p 0 [7]) fun _ => .ask (.call (.unpin p true)) fun _ =>
      .ask (.call (.fetch p)) fun _ => .ask (.call (.unpin p false)) fun _ =>
      .ask (.call .new) fun
        | .created (.ok (some q)) =>
          .ask (.call (.unpin q false)) fun _ => .ask (.call .new) fun _ =>
          .ask (.call (.fetch p)) fun _ => .ask (.call .new) fun _ => .done
        | _ => .done
    | _ => .done

/-- The third page takes the place of the first by one policy, and of the second by the other. All
commands are answered, and all answers are the same. -/
theorem policy_invisible_revisiting :
    let r : Replacer (Fin 2) := .lru { capacity := 2 }
    let r' : Replacer (Fin 2) := .lruK { k := 2, k_pos := Nat.two_pos }
    let s := start (.create r MemoryDisk.empty none)
    revisiting.Heeds s {} ∧ (revisiting.answers s).length = 10 ∧
      revisiting.answers s = revisiting.answers (start (.create r' MemoryDisk.empty none)) := by
  intro r r' s
  have hr : Replacer.ofPolicy 2 .lru = .ok r := rfl
  have hr' : Replacer.ofPolicy 2 (.lruK 2) = .ok r' := rfl
  have ht : revisiting.Heeds s {} := by decide +kernel
  exact ⟨ht, by decide +kernel, policy_invisible hr hr' none none revisiting ht⟩

end Program

end BufferPool
