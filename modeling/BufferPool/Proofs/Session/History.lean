import BufferPool.Proofs.Session.Account
import BufferPool.Proofs.Session.Kept

/-! # Histories

What a run of fair users does to the bytes of one page. The device holds what
was in the frame of the page at some moment of the run, unless it is owed
bytes; a page that is not deleted stays stored.
-/

namespace BufferPool.Session

open Pool Storage

variable {δ : Type} {n : Nat} [Device δ] [Lawful δ] {s t : Session δ n} {a : Action n}
  {as : List (Action n)} {p : PageId}

/-- The users are fair, and neither the pins of a page nor the ids of the device run out. -/
def Proper (s : Session δ n) (a : Action n) : Prop := s.Orderly a ∧ Room s.pool.device 1

def Deletes (s : Session δ n) (p : PageId) (a : Action n) : Prop :=
  a = .call (.delete p) ∧ (s.pool.delete p).1.isOk = true

omit [Lawful δ] in
theorem along_not_deletes (h : .call (.delete p) ∉ as) :
    s.Along (fun s a => ¬s.Deletes p a) as := by
  induction as generalizing s with
  | nil => trivial
  | cons a as ih =>
    rw [List.mem_cons, not_or] at h
    exact ⟨fun hd => h.1 hd.1.symm, ih h.2⟩

def data? (s : Session δ n) (p : PageId) : Option Page :=
  (s.pool.frameOf? p).map fun f => (s.pool.frames.get f).data

/-- What the frame of a page holds in the course of a run. -/
def seen (s : Session δ n) (p : PageId) (as : List (Action n)) : Set Page :=
  {x | ∃ bs, bs <+: as ∧ (s.run bs).data? p = some x}

omit [Device δ] [Lawful δ] in
theorem data?_eq_some_iff {x : Page} : s.data? p = some x ↔
    ∃ f, s.pool.frameOf? p = some f ∧ (s.pool.frames.get f).data = x := by
  simp only [data?, Option.map_eq_some_iff]

section Step

theorem Backed.step (hv : s.Valid) (hb : s.Backed) (ha : s.Proper a) : (s.step a).Backed := by
  obtain ⟨es, hes, -⟩ := hv.step_moves ha.1
  exact (hb.moves hes ha.2).1

theorem Backed.room_step (hv : s.Valid) (hb : s.Backed) (ha : s.Proper a) {m : Nat}
    (hroom : Room s.pool.device (m + 1)) : Room (s.step a).pool.device m := by
  obtain ⟨es, hes, -⟩ := hv.step_moves ha.1
  exact (hb.moves hes ha.2).2 m hroom

variable {C : Set Page} {late owed : Prop}

theorem Kept.step (hv : s.Valid) (hb : s.Backed) (h : s.Kept p C late owed) (ha : s.Proper a)
    (hdel : ¬s.Deletes p a)
    (hseen : ∀ f offset new, a = .put f offset new → ∀ x, (s.step a).data? p = some x → x ∈ C)
    (hrel : owed → ∀ dirty, a ≠ .call (.unpin p dirty)) : (s.step a).Kept p C late owed := by
  by_cases hput : ∃ f offset new, a = .put f offset new
  · obtain ⟨f, offset, new, rfl⟩ := hput
    exact h.put fun g hg => hseen f offset new rfl _ (data?_eq_some_iff.mpr ⟨g, hg, rfl⟩)
  · obtain ⟨es, hes, hmakes⟩ := hv.step_moves ha.1
    refine h.moves hv hb hes ha.2 ?_ ?_ ?_
    · rintro e he f rfl
      exact hput ⟨f, (hmakes _ he).of_put⟩
    · exact fun e he hp => hdel ((hmakes e he).of_deallocated? hp)
    · rintro ho e he f dirty rfl
      exact hrel ho dirty (hmakes _ he).of_released

theorem Kept.unpin {owed' : Prop} {f : Fin n} {dirty : Bool} (h : s.Kept p C True owed)
    (hp : s.pool.frameOf? p = some f) (hpins : (s.pool.frames.get f).pins ≠ 0)
    (howed : owed → dirty = true ∨ owed')
    (hheld : owed' → (s.pins p).returned + 1 < (s.pins p).handed) :
    (s.step (.call (.unpin p dirty))).Kept p C True owed' := by
  have frame := fun {α} (k : Frame → α) => apply_modifyFrame s.pool f k
    (h := fun x => { x with pins := x.pins - 1, dirty := x.dirty || dirty })
  have hself := getElem_modifyFrame s.pool f
    (fun x => { x with pins := x.pins - 1, dirty := x.dirty || dirty }) f
  simp only [Session.step, after, account, unpin_eq hp hpins, if_true]
  refine ⟨fun g hg => ?_, ?_, fun ho => ⟨⟨f, hp⟩, ?_⟩⟩
  · rw [frame Frame.data (fun _ => rfl)]
    exact h.mem g hg
  · obtain ⟨x, hx, hC⟩ := h.stored
    refine ⟨x, hx, ?_⟩
    rcases hC with hC | ⟨-, ⟨g, hg, hd⟩ | hw⟩ | ho
    · exact Or.inl hC
    · obtain rfl := Option.some.inj (hp.symm.trans hg)
      refine Or.inr (Or.inl ⟨trivial, Or.inl ⟨f, hp, ?_⟩⟩)
      rw [hself, if_pos rfl]
      simp only [hd, Bool.true_or]
    · exact Or.inr (Or.inl ⟨trivial, Or.inr hw⟩)
    · rcases howed ho with rfl | ho'
      · refine Or.inr (Or.inl ⟨trivial, Or.inl ⟨f, hp, ?_⟩⟩)
        rw [hself, if_pos rfl]
        simp only [Bool.or_true]
      · exact Or.inr (Or.inr ho')
  · simp only [Function.update_self, Pins.takeBack]
    exact hheld ho

theorem Kept.overwrite {f : Fin n} {offset : Nat} {new : Bytes}
    (hs : page? s.pool.device p ≠ none) (hp : s.pool.frameOf? p = some f)
    (hheld : (s.pins p).returned < (s.pins p).handed) (howed : owed) :
    (s.step (.put f offset new)).Kept p {(s.pool.frames.get f).data.write offset new} True owed
    where
  mem g hg := by
    obtain rfl := Option.some.inj (hp.symm.trans hg)
    simp only [Session.step, writeFrame, getElem_modifyFrame, if_true]
    exact Set.mem_singleton _
  stored := by
    obtain ⟨y, hy⟩ := Option.ne_none_iff_exists'.mp hs
    exact ⟨y, hy, Or.inr (Or.inr howed)⟩
  pinned _ := ⟨⟨f, hp⟩, hheld⟩

theorem Kept.imp {owed' : Prop} (h : s.Kept p C late owed) (ho : owed ↔ owed') :
    s.Kept p C late owed' := by
  rwa [← propext ho]

theorem Backed.step_new {f : Fin n} (hv : s.Valid) (hb : s.Backed) (ha : s.Proper (.call .new))
    (hans : s.pool.new.1 = .ok (some f)) : ∃ p,
      (s.step (.call .new)).pool.frameOf? p = some f ∧
      (s.step (.call .new)).pool.frames.get f = ⟨some p, 1, false, Page.zero⟩ ∧
      (∃ x, Fresh δ x ∧ page? (s.step (.call .new)).pool.device p = some x) ∧
      ∀ g, s.pool.frameOf? p = some g → ¬ (s.pins p).returned < (s.pins p).handed := by
  obtain ⟨es, hes, hmakes, hnew⟩ := new_moves hv.sound.tidy
  obtain ⟨p, hp⟩ := hnew f hans
  obtain ⟨hf, hx, hfresh⟩ := hb.moves_created hes ha.2 hp
  refine ⟨p, hf, hx, hfresh, fun g hg hheld => ?_⟩
  have hrel : ∀ e ∈ es, ∀ g dirty, e ≠ .released p g dirty := by
    rintro e he g dirty rfl
    exact (hmakes _ he).elim id fun ha => nomatch ha.1
  exact (hv.held_moves hes hg hheld hrel).2.2 _ hp f rfl

end Step

section Run

theorem Backed.create {d : δ} (r : Replacer (Fin n)) (hok : Ok d) (log : Option Log) :
    (start (.create r d log)).Backed where
  ok := hok
  known p f hp := by
    rw [Session.start, frameOf?_create] at hp
    cases hp

theorem Backed.start {c : Config} {d : δ} {log : Option Log} {b : Pool δ c.poolSize}
    (hb : Pool.ofConfig c d log = .ok b) (hok : Ok d) : (start b).Backed := by
  obtain ⟨r, -, rfl⟩ := exists_create_of_ofConfig hb
  exact .create r hok log

theorem Backed.run (hb : s.Backed) (hv : s.Valid) (has : s.Along Proper as) :
    (s.run as).Backed := by
  induction as generalizing s with
  | nil => exact hb
  | cons a as ih => exact ih (hb.step hv has.1) (hv.step has.1.1) has.2

theorem Valid.run_proper (hv : s.Valid) (has : s.Along Proper as) : (s.run as).Valid :=
  hv.run (has.imp fun _ _ h => h.1)

theorem along_proper {m : Nat} (hv : s.Valid) (hb : s.Backed) (hfair : s.Along Fair as)
    (hm : ∀ p, (s.pins p).held + s.windowsOn p ≤ m) (hlt : m + as.length < UInt32.size)
    (hroom : Room s.pool.device as.length) : s.Along Proper as := by
  induction as generalizing s m with
  | nil => trivial
  | cons a as ih =>
    rw [List.length_cons] at hlt hroom
    have hstep := fun p => (held_add_windowsOn_step s a p).trans (Nat.succ_le_succ (hm p))
    have ha : s.Proper a :=
      ⟨⟨hfair.1, fun p => (hstep p).trans_lt (by omega)⟩, room_of_le (by omega) hroom⟩
    exact ⟨ha, ih (hv.step ha.1) (hb.step hv ha) hfair.2 hstep (by omega)
      (hb.room_step hv ha hroom)⟩

omit [Lawful δ] in
theorem mem_seen_nil {x : Page} : x ∈ s.seen p [] ↔ s.data? p = some x := by
  simp [seen]

omit [Lawful δ] in
theorem mem_seen_cons {x : Page} :
    x ∈ s.seen p (a :: as) ↔ s.data? p = some x ∨ x ∈ (s.step a).seen p as := by
  constructor
  · rintro ⟨_ | ⟨_, bs⟩, hbs, hx⟩
    · exact Or.inl hx
    · obtain ⟨rfl, htail⟩ := List.cons_prefix_cons.mp hbs
      exact Or.inr ⟨bs, htail, hx⟩
  · rintro (hx | ⟨bs, hbs, hx⟩)
    · exact ⟨[], List.nil_prefix, hx⟩
    · exact ⟨a :: bs, List.cons_prefix_cons.mpr ⟨rfl, hbs⟩, hx⟩

omit [Lawful δ] in
theorem seen_step_subset : (s.step a).seen p as ⊆ s.seen p (a :: as) :=
  fun _ hx => mem_seen_cons.mpr (Or.inr hx)

omit [Lawful δ] in
theorem seen_run_subset {bs : List (Action n)} : (s.run as).seen p bs ⊆ s.seen p (as ++ bs) := by
  rintro x ⟨cs, hcs, hx⟩
  refine ⟨as ++ cs, (List.prefix_append_right_inj as).mpr hcs, ?_⟩
  rwa [run_append]

omit [Lawful δ] in
theorem seen_mono {bs : List (Action n)} (h : as <+: bs) :
    s.seen p as ⊆ s.seen p bs :=
  fun _ ⟨cs, hcs, hx⟩ => ⟨cs, hcs.trans h, hx⟩

variable {C : Set Page} {late : Prop}

theorem Kept.run (hv : s.Valid) (hb : s.Backed) (h : s.Kept p C late False)
    (has : s.Along Proper as) (hdel : s.Along (fun s a => ¬s.Deletes p a) as)
    (hseen : s.seen p as ⊆ C) : (s.run as).Kept p C late False := by
  induction as generalizing s with
  | nil => exact h
  | cons a as ih =>
    have hnext : ∀ x, (s.step a).data? p = some x → x ∈ C := fun x hx =>
      hseen (seen_step_subset ⟨[], List.nil_prefix, hx⟩)
    exact ih (hv.step has.1.1) (hb.step hv has.1)
      (h.step hv hb has.1 hdel.1 (fun _ _ _ _ => hnext) nofun) has.2
      hdel.2 (seen_step_subset.trans hseen)

theorem Kept.of_dirty {f : Fin n} (hp : s.pool.frameOf? p = some f)
    (hd : (s.pool.frames.get f).dirty = true) (hs : page? s.pool.device p ≠ none) :
    s.Kept p (s.seen p as) True False := by
  refine ⟨fun g hg => ?_, ?_, nofun⟩
  · exact ⟨[], List.nil_prefix, data?_eq_some_iff.mpr ⟨g, hg, rfl⟩⟩
  · obtain ⟨x, hx⟩ := Option.ne_none_iff_exists'.mp hs
    exact ⟨x, hx, Or.inr (Or.inl ⟨trivial, Or.inl ⟨f, hp, hd⟩⟩)⟩

theorem Kept.of_stored (hs : page? s.pool.device p ≠ none) : s.Kept p Set.univ False False := by
  obtain ⟨x, hx⟩ := Option.ne_none_iff_exists'.mp hs
  exact ⟨fun _ _ => trivial, ⟨x, hx, Or.inl trivial⟩, nofun⟩

theorem stored_run (hv : s.Valid) (hb : s.Backed) (hs : page? s.pool.device p ≠ none)
    (has : s.Along Proper as) (hdel : s.Along (fun s a => ¬s.Deletes p a) as) :
    page? (s.run as).pool.device p ≠ none := by
  obtain ⟨y, hy, -⟩ := ((Kept.of_stored hs).run hv hb has hdel (Set.subset_univ _)).stored
  exact Option.ne_none_iff_exists'.mpr ⟨y, hy⟩

end Run

/-- Fair users can bring the session about, on a device whose books were in order. -/
def Reachable {c : Config} (s : Session δ c.poolSize) : Prop :=
  ∃ (d : δ) (log : Option Log) (b : Pool δ c.poolSize) (as : List (Action c.poolSize)),
    Ok d ∧ Pool.ofConfig c d log = .ok b ∧ (start b).Along Proper as ∧ s = (start b).run as

namespace Reachable

variable {c : Config} {s : Session δ c.poolSize}

theorem valid (h : s.Reachable) : s.Valid := by
  obtain ⟨d, log, b, as, -, hb, has, rfl⟩ := h
  exact (Valid.start hb).run_proper has

theorem backed (h : s.Reachable) : s.Backed := by
  obtain ⟨d, log, b, as, hok, hb, has, rfl⟩ := h
  exact (Backed.start hb hok).run (.start hb) has

theorem of_fair {d : δ} {log : Option Log} {b : Pool δ c.poolSize}
    (as bs : List (Action c.poolSize)) (hok : Ok d) (hb : Pool.ofConfig c d log = .ok b)
    (hfair : (start b).Along Fair (as ++ bs))
    (hlt : (as ++ bs).length < UInt32.size) (hroom : Room d (as ++ bs).length) :
    ((start b).run as).Reachable ∧ ((start b).run as).Along Proper bs := by
  have hdevice : b.device = d := by
    obtain ⟨r, -, rfl⟩ := exists_create_of_ofConfig hb
    rfl
  rw [← hdevice] at hroom
  obtain ⟨has, hbs⟩ := along_append.mp (along_proper (m := 0) (.start hb) (.start hb hok) hfair
    (fun _ => Nat.le_refl 0) (by omega) hroom)
  exact ⟨⟨d, log, b, as, hok, hb, has, rfl⟩, hbs⟩

end Reachable

end BufferPool.Session
