import BufferPool.Disk.Memory
import BufferPool.Proofs.Guard.Clients
import BufferPool.Proofs.Pool.Full
import BufferPool.Proofs.Pool.Order
import BufferPool.Proofs.Session.Account

/-! # Guards hold their pages

A guard knows a frame and gives its pin back by the id of a page. Nothing that
happens while it lives can separate the two: the pins of a page are its guards
and the flushes in their windows, and no pinned page loses its frame.
-/

namespace BufferPool.Clients

open Pool

variable {δ : Type} [Device δ] {n : Nat}

section Guards

variable {s : Clients δ n} {p : PageId} {g : Guard n}

omit [Device δ] in
theorem guardsOn_pos_iff : 0 < s.guardsOn p ↔ ∃ g, some g ∈ s.guards ∧ g.page = p := by
  simp only [guardsOn, List.countP_pos_iff]
  constructor
  · rintro ⟨_ | g, hg, hp⟩
    · cases hp
    · exact ⟨g, hg, by simpa using hp⟩
  · rintro ⟨g, hg, rfl⟩
    exact ⟨some g, hg, by simp⟩

omit [Device δ] in
theorem guardsOn_append (session : Session δ n) (contents : PageId → Option Page) (p : PageId) :
    guardsOn ⟨session, s.guards ++ [some g], contents⟩ p =
      s.guardsOn p + (g.page == p).toNat := by
  simp only [guardsOn, List.countP_append, List.countP_singleton, Option.any_some]
  by_cases hp : g.page = p <;> simp [hp]

variable {i : Nat}

omit [Device δ] in
theorem guardsOn_set (session : Session δ n) (contents : PageId → Option Page)
    (hi : s.guards[i]? = some (some g)) (g? : Option (Guard n)) (p : PageId) :
    guardsOn ⟨session, s.guards.set i g?, contents⟩ p + (g.page == p).toNat =
      s.guardsOn p + (g?.any fun g => g.page == p).toNat :=
  Session.countP_set_add hi g? _

end Guards

omit [Device δ] in
theorem IsQuiet.fair {a : Action n} (ha : IsQuiet a) (s : Session δ n) : s.Fair a := by
  cases a with
  | call c => cases c <;> trivial
  | _ => trivial

/-- Guarded pages sit in the frames that the guards know, and every guard is a pin. -/
structure Holds (s : Clients δ n) : Prop where
  valid : s.session.Valid
  inFrame : ∀ g, some g ∈ s.guards → s.session.pool.frameOf? g.page = some g.frame
  handed : ∀ p, (s.session.pins p).handed = (s.session.pins p).returned + s.guardsOn p

namespace Holds

variable {s : Clients δ n} {t : Session δ n} {p : PageId} {f : Fin n} {g : Guard n} {a : Action n}
  {i : Nat} {contents : PageId → Option Page}

omit [Device δ] in
theorem held (h : s.Holds) (hg : some g ∈ s.guards) :
    (s.session.pins g.page).returned < (s.session.pins g.page).handed := by
  have := guardsOn_pos_iff.mpr ⟨g, hg, rfl⟩
  have := h.handed g.page
  omega

omit [Device δ] in
theorem pins_ne_zero (h : s.Holds) (hg : some g ∈ s.guards) :
    (s.session.pool.frames.get g.frame).pins ≠ 0 := by
  intro hz
  have := (h.valid.unused (h.inFrame g hg) hz).2
  have := h.held hg
  omega

omit [Device δ] in
theorem guardsOn_eq_zero (h : s.Holds)
    (hp : ∀ f, s.session.pool.frameOf? p = some f →
      ¬(s.session.pins p).returned < (s.session.pins p).handed) : s.guardsOn p = 0 := by
  by_contra hne
  obtain ⟨g, hg, rfl⟩ := guardsOn_pos_iff.mp (Nat.pos_of_ne_zero hne)
  exact hp g.frame (h.inFrame g hg) (h.held hg)

omit [Device δ] in
theorem toNat_pins (h : s.Holds) (hp : s.session.pool.frameOf? p = some f) :
    (s.session.pool.frames.get f).pins.toNat = s.guardsOn p + s.session.windowsOn p := by
  have heq := h.valid.toNat_pins hp
  have hhanded := h.handed p
  unfold Pins.held at heq
  omega

theorem inFrame_step (h : s.Holds) (ha : s.session.Orderly a)
    (hunpin : ∀ p dirty, a ≠ .call (.unpin p dirty)) (hg : some g ∈ s.guards) :
    (s.session.step a).pool.frameOf? g.page = some g.frame :=
  h.valid.held_step ha (h.inFrame g hg) (h.held hg) (hunpin g.page)

theorem act (h : s.Holds) (ha : s.session.Orderly a)
    (hunpin : ∀ p dirty, a ≠ .call (.unpin p dirty))
    (hpins : (s.session.step a).pins = s.session.pins) :
    Holds ⟨s.session.step a, s.guards, contents⟩ where
  valid := h.valid.step ha
  inFrame _ := h.inFrame_step ha hunpin
  handed p := by
    have heq := h.handed p
    rw [← hpins] at heq
    exact heq

theorem handOut (h : s.Holds) (ha : s.session.Orderly a)
    (hunpin : ∀ p dirty, a ≠ .call (.unpin p dirty))
    (hframe : (s.session.step a).pool.frameOf? g.page = some g.frame) {b : Pins}
    (hpins : (s.session.step a).pins = Function.update s.session.pins g.page b)
    (hb : b.handed = b.returned + s.guardsOn g.page + 1) :
    Holds ⟨s.session.step a, s.guards ++ [some g], contents⟩ where
  valid := h.valid.step ha
  inFrame g' hg' := by
    rcases List.mem_append.mp hg' with hg' | hg'
    · exact h.inFrame_step ha hunpin hg'
    · obtain rfl := Option.some.inj (List.mem_singleton.mp hg')
      exact hframe
  handed p := by
    rw [guardsOn_append]
    simp only [hpins]
    by_cases hp : p = g.page
    · subst hp
      simp only [Function.update_self, beq_self_eq_true, Bool.toNat_true]
      omega
    · rw [Function.update_of_ne hp, beq_false_of_ne (Ne.symm hp)]
      exact h.handed p

theorem fetch_some (h : s.Holds) (access : Access)
    (ha : s.session.Orderly (.call (.fetch p))) (hf : (s.session.pool.fetch p).1 = .ok (some f)) :
    Holds ⟨s.session.step (.call (.fetch p)), s.guards ++ [some ⟨p, f, access⟩], contents⟩ := by
  refine h.handOut (g := ⟨p, f, access⟩) ha (by simp) (Session.frameOf?_fetch hf)
    (b := if s.session.pool.isCached p then (s.session.pins p).handOut else .first) ?_ ?_
  · simp only [Session.step, account, hf]
  · have heq := h.handed p
    rcases hc : s.session.pool.isCached p with _ | _
    · have hnone := Pool.isCached_eq_false_iff.mp hc
      have hz := h.guardsOn_eq_zero fun g hg => absurd (hnone.symm.trans hg) (by simp)
      simp only [Bool.false_eq_true, if_false, Pins.first]
      omega
    · simp only [if_true, Pins.handOut]
      omega

theorem pins_fetch_none (hf : ∀ f, (s.session.pool.fetch p).1 ≠ .ok (some f)) :
    (s.session.step (.call (.fetch p))).pins = s.session.pins := by
  rcases hr : (s.session.pool.fetch p).1 with e | _ | f
  · simp only [Session.step, account, hr]
  · simp only [Session.step, account, hr]
  · exact absurd hr (hf f)

theorem fetch (h : s.Holds) (access : Access) (ha : s.session.Orderly (.call (.fetch p))) :
    Holds (s.take (.fetch p) (s.session.pool.fetchGuarded p access).1
      (s.session.pool.fetchGuarded p access).2) := by
  rw [take_fetch]
  rcases hf : (s.session.pool.fetch p).1 with e | _ | f
  · exact h.act ha (by simp) (pins_fetch_none fun f => by simp [hf])
  · exact h.act ha (by simp) (pins_fetch_none fun f => by simp [hf])
  · exact h.fetch_some access ha hf

theorem guardsOn_created (h : s.Holds) (hp : s.session.pool.created? = some p) :
    s.guardsOn p = 0 := by
  apply h.guardsOn_eq_zero
  intro f hf hheld
  obtain ⟨-, g, hv, hg⟩ := dropped_of_new (by simp [hf]) (Or.inr hp)
  obtain rfl := Option.some.inj (hf.symm.trans ((h.valid.sound.frameOf?_iff p g).mpr hg))
  have := (h.valid.unused hf (h.valid.sound.of_peek hv).2).2
  omega

theorem created (h : s.Holds) (ha : s.session.Orderly (.call .new))
    (hnew : s.session.pool.new.1 = .ok (some f))
    (hpage : ((s.session.step (.call .new)).pool.frames.get f).page = some p)
    (hpins : (s.session.step (.call .new)).pins = Function.update s.session.pins p .first) :
    Holds ⟨s.session.step (.call .new), s.guards ++ [some ⟨p, f, .write false⟩], contents⟩ := by
  have hz : s.guardsOn p = 0 := h.guardsOn_created (by
    simp only [created?, hnew]
    exact hpage)
  refine h.handOut (g := ⟨p, f, .write false⟩) ha (by simp) ?_ hpins ?_
  · exact ((h.valid.step ha).sound.frameOf?_iff p f).mpr hpage
  · simp only [Pins.first]
    omega

omit [Device δ] in
theorem replace (h : s.Holds) (hi : s.guards[i]? = some (some g)) {g' : Guard n}
    (hpage : g'.page = g.page) (hframe : g'.frame = g.frame) (ht : t.Valid)
    (frameOf? : ∀ p, t.pool.frameOf? p = s.session.pool.frameOf? p)
    (pins : t.pins = s.session.pins) : Holds ⟨t, s.guards.set i (some g'), contents⟩ where
  valid := ht
  inFrame g'' hg := by
    rw [frameOf?]
    rcases List.mem_or_eq_of_mem_set hg with hg | hg
    · exact h.inFrame g'' hg
    · obtain rfl := Option.some.inj hg
      rw [hpage, hframe]
      exact h.inFrame g (List.mem_of_getElem? hi)
  handed p := by
    have hcount := guardsOn_set t contents hi (some g') p
    simp only [Option.any_some, hpage] at hcount
    have heq := h.handed p
    rw [← Nat.add_right_cancel hcount, ← pins] at heq
    exact heq

theorem pins_drop (h : s.Holds) (hg : some g ∈ s.guards) :
    (s.session.step (.call (.unpin g.page g.dirty))).pins =
      Function.update s.session.pins g.page (s.session.pins g.page).takeBack := by
  simp only [Session.step, account, unpin_eq (h.inFrame g hg) (h.pins_ne_zero hg), if_true]

theorem drop (h : s.Holds) (hi : s.guards[i]? = some (some g))
    (ha : s.session.Orderly (.call (.unpin g.page g.dirty))) :
    Holds ⟨s.session.step (.call (.unpin g.page g.dirty)), s.guards.set i none, contents⟩ where
  valid := h.valid.step ha
  inFrame g' hg' := by
    refine (frameOf?_unpin _ _ _ _).trans (h.inFrame g' ?_)
    exact (List.mem_or_eq_of_mem_set hg').resolve_right (by simp)
  handed p := by
    have heq := h.handed p
    have hcount := guardsOn_set (s.session.step (.call (.unpin g.page g.dirty))) contents hi none p
    simp only [Option.any_none, Bool.toNat_false, Nat.add_zero] at hcount
    simp only [h.pins_drop (List.mem_of_getElem? hi)]
    by_cases hp : p = g.page
    · subst hp
      simp only [beq_self_eq_true, Bool.toNat_true] at hcount
      simp only [Function.update_self, Pins.takeBack]
      omega
    · rw [Function.update_of_ne hp]
      rw [beq_false_of_ne (Ne.symm hp)] at hcount
      exact heq.trans (congrArg _ hcount.symm)

theorem quiet (h : s.Holds) (ha : IsQuiet a) (hfit : (s.act a).session.PinsFit) :
    Holds (s.act a) := by
  refine h.act ⟨ha.fair _, hfit⟩ ?_ (ha.pins _)
  rintro p dirty rfl
  exact ha

/-- A deed is an action on the session, and a fair one, or does nothing to it. It deletes a page
only if it says so. -/
theorem session_step (h : s.Holds) (d : Deed) : (s.step d).session = s.session ∨
    ∃ a, s.session.Fair a ∧ (∀ p, a = .call (.delete p) → d = .delete p) ∧
      (s.step d).session = s.session.step a := by
  cases d with
  | read p => exact Or.inr ⟨.call (.fetch p), trivial, by simp, rfl⟩
  | write p => exact Or.inr ⟨.call (.fetch p), trivial, by simp, rfl⟩
  | create =>
    refine Or.inr ⟨.call .new, trivial, by simp, ?_⟩
    rcases s.step_create with ⟨p, f, -, -, -, -, heq⟩ | ⟨-, -, heq⟩
    · rw [heq]
      rfl
    · rw [heq]
      rfl
  | put i offset new =>
    rcases hi : s.guards[i]? with _ | _ | g
    · exact Or.inl (by simp only [Clients.step, hi])
    · exact Or.inl (by simp only [Clients.step, hi])
    · rcases hw : g.write? offset new s.session.pool with _ | ⟨g', b⟩
      · exact Or.inl (by simp only [Clients.step, hi, hw])
      · obtain ⟨-, -, -, rfl⟩ := of_write? hw
        exact Or.inr ⟨.put g.frame offset new, trivial, by simp,
          by simp only [Clients.step, hi, hw]; rfl⟩
  | drop i =>
    rcases hi : s.guards[i]? with _ | _ | g
    · exact Or.inl (by simp only [Clients.step, hi])
    · exact Or.inl (by simp only [Clients.step, hi])
    · exact Or.inr ⟨.call (.unpin g.page g.dirty), Or.inr (h.held (List.mem_of_getElem? hi)),
        by simp, by simp only [Clients.step, hi]; rfl⟩
  | flush p => exact Or.inr ⟨.call (.flush p), trivial, by simp, rfl⟩
  | flushAll => exact Or.inr ⟨.call .flushAll, trivial, by simp, rfl⟩
  | delete p => exact Or.inr ⟨.call (.delete p), trivial, by simp, rfl⟩
  | beginFlush p => exact Or.inr ⟨.beginFlush p, trivial, by simp, rfl⟩
  | writeWindow i => exact Or.inr ⟨.writeWindow i, trivial, by simp, rfl⟩
  | closeWindow i => exact Or.inr ⟨.closeWindow i, trivial, by simp, rfl⟩

theorem step {d : Deed} (h : s.Holds) (hfit : (s.step d).session.PinsFit) : Holds (s.step d) := by
  cases d with
  | read p => exact h.fetch _ ⟨trivial, hfit⟩
  | write p => exact h.fetch _ ⟨trivial, hfit⟩
  | create =>
    rcases s.step_create with ⟨p, f, hnew, hpage, hpins, -, heq⟩ | ⟨hpins, -, heq⟩
    all_goals rw [heq] at hfit ⊢
    · exact h.created ⟨trivial, hfit⟩ hnew hpage hpins
    · exact h.act ⟨trivial, hfit⟩ (by simp) hpins
  | put i offset new =>
    rcases hi : s.guards[i]? with _ | _ | g
    · simpa only [Clients.step, hi] using h
    · simpa only [Clients.step, hi] using h
    · rcases hw : g.write? offset new s.session.pool with _ | ⟨g', b⟩
      · simpa only [Clients.step, hi, hw] using h
      · simp only [Clients.step, hi, hw] at hfit ⊢
        obtain ⟨hpage, hframe, -, rfl⟩ := of_write? hw
        have ha : s.session.Orderly (.put g.frame offset new) := ⟨trivial, hfit⟩
        exact h.replace hi hpage hframe (h.valid.step ha) (fun _ => rfl) rfl
  | drop i =>
    rcases hi : s.guards[i]? with _ | _ | g
    · simpa only [Clients.step, hi] using h
    · simpa only [Clients.step, hi] using h
    · simp only [Clients.step, hi] at hfit ⊢
      exact h.drop hi ⟨Or.inr (h.held (List.mem_of_getElem? hi)), hfit⟩
  | flush | flushAll | beginFlush | writeWindow | closeWindow => exact h.quiet trivial hfit
  | delete p => exact h.act (a := .call (.delete p)) ⟨trivial, hfit⟩ (by simp) rfl

omit [Device δ] in
theorem create {r : Replacer (Fin n)} (hsound : r.Sound) (hnone : ∀ f, r.isEvictable f = false)
    (d : δ) (log : Option Log) : Holds (start (.create r d log)) where
  valid := .create hsound hnone d log
  inFrame := nofun
  handed _ := rfl

theorem held_step {m : Nat} (h : s.Holds) (d : Deed)
    (hm : ∀ p, (s.session.pins p).held + s.session.windowsOn p ≤ m) (p : PageId) :
    ((s.step d).session.pins p).held + (s.step d).session.windowsOn p ≤ m + 1 := by
  rcases h.session_step d with heq | ⟨a, -, -, heq⟩ <;> rw [heq]
  · exact Nat.le_succ_of_le (hm p)
  · exact (Session.held_add_windowsOn_step s.session a p).trans (Nat.succ_le_succ (hm p))

end Holds

/-- What clients do with guards that they can also mark by hand. -/
inductive Handling where
  | deed (d : Deed)
  | mark (i : Nat)
  deriving DecidableEq, Repr

def Handling.Touches (i : Nat) : Handling → Prop
  | deed (.put j _ _) | mark j => j = i
  | deed _ => False

def handle (s : Clients δ n) : Handling → Clients δ n
  | .deed d => s.step d
  | .mark i =>
    match s.guards[i]? with
    | some (some g) =>
      match g.markDirty? with
      | some g => { s with guards := s.guards.set i (some g) }
      | none => s
    | _ => s

def handleAll (s : Clients δ n) (us : List Handling) : Clients δ n := us.foldl handle s

/-- In the course of the run the guard was written through or marked, and it is a write guard. -/
def Touched (s : Clients δ n) (us : List Handling) (i : Nat) : Prop :=
  ∃ bs u cs g, us = bs ++ u :: cs ∧ u.Touches i ∧
    (s.handleAll bs).guards[i]? = some (some g) ∧ g.isWrite = true

section Handling

variable {s : Clients δ n} {u : Handling} {us : List Handling} {i : Nat} {g g' : Guard n}

omit [Device δ] in
theorem of_markDirty? (hm : g.markDirty? = some g') :
    g'.page = g.page ∧ g'.frame = g.frame ∧ g'.dirty = true := by
  obtain ⟨p, f, _ | dirty⟩ := g
  · cases hm
  · cases hm
    exact ⟨rfl, rfl, rfl⟩

theorem handle_mark (s : Clients δ n) (i : Nat) : s.handle (.mark i) = s ∨
    ∃ g g', s.guards[i]? = some (some g) ∧ g.markDirty? = some g' ∧
      s.handle (.mark i) = { s with guards := s.guards.set i (some g') } := by
  simp only [handle]
  rcases hi : s.guards[i]? with _ | _ | g
  · exact Or.inl rfl
  · exact Or.inl rfl
  · rcases hm : g.markDirty? with _ | g'
    · exact Or.inl (by simp only [hm])
    · exact Or.inr ⟨g, g', rfl, hm, by simp only [hm]⟩

theorem guards_handle (s : Clients δ n) (u : Handling) : (s.handle u).guards = s.guards ∨
    (∃ g, (s.handle u).guards = s.guards ++ [some g]) ∨
    ∃ i g g?, s.guards[i]? = some (some g) ∧ (∀ g', g? = some g' → g'.dirty = true) ∧
      (s.handle u).guards = s.guards.set i g? := by
  have fetch : ∀ p access, (s.take (.fetch p) (s.session.pool.fetchGuarded p access).1
      (s.session.pool.fetchGuarded p access).2).guards = s.guards ∨
      ∃ g, (s.take (.fetch p) (s.session.pool.fetchGuarded p access).1
        (s.session.pool.fetchGuarded p access).2).guards = s.guards ++ [some g] := by
    intro p access
    rw [take_fetch]
    rcases (s.session.pool.fetch p).1 with e | _ | f
    · exact Or.inl rfl
    · exact Or.inl rfl
    · exact Or.inr ⟨_, rfl⟩
  cases u with
  | deed d =>
    cases d with
    | read p => exact (fetch p _).imp_right Or.inl
    | write p => exact (fetch p _).imp_right Or.inl
    | create =>
      rcases s.step_create with ⟨p, f, -, -, -, -, heq⟩ | ⟨-, -, heq⟩
      · exact Or.inr (Or.inl ⟨_, congrArg Clients.guards heq⟩)
      · exact Or.inl ((congrArg Clients.guards heq).trans rfl)
    | put i offset new =>
      simp only [handle, step]
      rcases hi : s.guards[i]? with _ | _ | g
      · exact Or.inl rfl
      · exact Or.inl rfl
      · rcases hw : g.write? offset new s.session.pool with _ | ⟨g', b⟩
        · exact Or.inl (by simp only [hw])
        · refine Or.inr (Or.inr ⟨i, g, some g', hi, ?_, by simp only [hw]⟩)
          rintro _ ⟨⟩
          exact (of_write? hw).2.2.1
    | drop i =>
      simp only [handle, step]
      rcases hi : s.guards[i]? with _ | _ | g
      · exact Or.inl rfl
      · exact Or.inl rfl
      · exact Or.inr (Or.inr ⟨i, g, none, hi, by simp, rfl⟩)
    | _ => exact Or.inl rfl
  | mark i =>
    rcases handle_mark s i with heq | ⟨g, g', hi, hm, heq⟩ <;> rw [heq]
    · exact Or.inl rfl
    · refine Or.inr (Or.inr ⟨i, g, some g', hi, ?_, rfl⟩)
      rintro _ ⟨⟩
      exact (of_markDirty? hm).2.2

def DirtyAt (s : Clients δ n) (i : Nat) : Prop :=
  ∃ g?, s.guards[i]? = some g? ∧ ∀ g, g? = some g → g.dirty = true

theorem DirtyAt.handle (h : s.DirtyAt i) (u : Handling) : (s.handle u).DirtyAt i := by
  obtain ⟨g?, hg, hd⟩ := h
  have hlt := (List.getElem?_eq_some_iff.mp hg).1
  rcases guards_handle s u with heq | ⟨g, heq⟩ | ⟨j, g, g?', hj, hd', heq⟩
  · exact ⟨g?, heq ▸ hg, hd⟩
  · exact ⟨g?, heq ▸ (List.getElem?_append_left hlt).trans hg, hd⟩
  · by_cases hij : j = i
    · subst hij
      exact ⟨g?', heq ▸ List.getElem?_set_self hlt, hd'⟩
    · exact ⟨g?, heq ▸ (List.getElem?_set_ne hij).trans hg, hd⟩

theorem DirtyAt.handleAll (h : s.DirtyAt i) (us : List Handling) : (s.handleAll us).DirtyAt i := by
  induction us generalizing s with
  | nil => exact h
  | cons u us ih => exact ih (h.handle u)

theorem dirtyAt_of_touches (hu : u.Touches i) (hi : s.guards[i]? = some (some g))
    (hg : g.isWrite = true) : (s.handle u).DirtyAt i := by
  have hlt := (List.getElem?_eq_some_iff.mp hi).1
  obtain ⟨p, f, _ | dirty⟩ := g
  · cases hg
  cases u with
  | deed d =>
    cases d with
    | put j offset new =>
      obtain rfl : j = i := hu
      refine ⟨some ⟨p, f, .write true⟩, ?_, ?_⟩
      · simp only [handle, step, hi]
        exact List.getElem?_set_self hlt
      · rintro _ ⟨⟩
        rfl
    | _ => exact hu.elim
  | mark j =>
    obtain rfl : j = i := hu
    refine ⟨some ⟨p, f, .write true⟩, ?_, ?_⟩
    · simp only [handle, hi]
      exact List.getElem?_set_self hlt
    · rintro _ ⟨⟩
      rfl

theorem handleAll_append (s : Clients δ n) (us vs : List Handling) :
    s.handleAll (us ++ vs) = (s.handleAll us).handleAll vs :=
  List.foldl_append

theorem dirty_of_touched (h : s.Touched us i) (hi : (s.handleAll us).guards[i]? = some (some g)) :
    g.dirty = true := by
  obtain ⟨bs, u, cs, g', rfl, hu, hg', hw⟩ := h
  obtain ⟨g?, hg, hd⟩ := (dirtyAt_of_touches hu hg' hw).handleAll cs
  rw [handleAll_append] at hi
  exact hd g (Option.some.inj (hg.symm.trans hi))

theorem Holds.handle (h : s.Holds) (hfit : (s.handle u).session.PinsFit) : (s.handle u).Holds := by
  cases u with
  | deed d => exact h.step hfit
  | mark i =>
    rcases handle_mark s i with heq | ⟨g, g', hi, hm, heq⟩ <;> rw [heq]
    · exact h
    · obtain ⟨hpage, hframe, -⟩ := of_markDirty? hm
      exact h.replace hi hpage hframe h.valid (fun _ => rfl) rfl

theorem Holds.handleAll (h : s.Holds) (hfit : ∀ bs, bs <+: us → (s.handleAll bs).session.PinsFit) :
    (s.handleAll us).Holds := by
  induction us generalizing s with
  | nil => exact h
  | cons u us ih =>
    apply ih (h.handle (hfit [u] (List.prefix_append [u] us)))
    intro bs hbs
    exact hfit (u :: bs) (List.cons_prefix_cons.mpr ⟨rfl, hbs⟩)

theorem Holds.pinsFit {m : Nat} (h : s.Holds)
    (hm : ∀ p, (s.session.pins p).held + s.session.windowsOn p ≤ m)
    (hlt : m + us.length < UInt32.size) : (s.handleAll us).session.PinsFit := by
  induction us generalizing s m with
  | nil => exact fun p => (hm p).trans_lt hlt
  | cons u us ih =>
    rw [List.length_cons] at hlt
    have hstep : ∀ p, ((s.handle u).session.pins p).held + (s.handle u).session.windowsOn p ≤
        m + 1 := by
      cases u with
      | deed d => exact h.held_step d hm
      | mark i =>
        rcases handle_mark s i with heq | ⟨g, g', -, -, heq⟩ <;> rw [heq]
        all_goals exact fun p => Nat.le_succ_of_le (hm p)
    have hfit : (s.handle u).session.PinsFit := fun p => (hstep p).trans_lt (by omega)
    exact ih (h.handle hfit) hstep (by omega)

theorem flights_handle (hs : s.session.flights = []) (hu : ∀ p, u ≠ .deed (.beginFlush p)) :
    (s.handle u).session.flights = [] := by
  cases u with
  | deed d =>
    cases d with
    | create =>
      rcases s.step_create with ⟨p, f, -, -, -, -, heq⟩ | ⟨-, -, heq⟩ <;>
        exact (congrArg (·.session.flights) heq).trans hs
    | put i offset new =>
      simp only [Clients.handle, Clients.step]
      split
      · split <;> exact hs
      · exact hs
    | drop i =>
      simp only [Clients.handle, Clients.step]
      split <;> exact hs
    | beginFlush p => exact absurd rfl (hu p)
    | writeWindow i | closeWindow i =>
      simp only [Clients.handle, Clients.step, act, Session.step, hs, List.getElem?_nil]
    | _ => exact hs
  | mark i =>
    rcases handle_mark s i with heq | ⟨g, g', -, -, heq⟩ <;> rw [heq] <;> exact hs

theorem flights_handleAll (hs : s.session.flights = [])
    (hus : ∀ p, Handling.deed (.beginFlush p) ∉ us) : (s.handleAll us).session.flights = [] := by
  induction us generalizing s with
  | nil => exact hs
  | cons u us ih =>
    apply ih (flights_handle hs fun p hu => hus p (hu ▸ List.mem_cons_self))
    exact fun p hp => hus p (List.mem_cons_of_mem u hp)

end Handling

/-- As long as a guard lives, its page sits in its frame and cannot be evicted, and dropping the
guard finds the page pinned. The pins of a cached page are its guards, and in concurrent use the
flushes in their windows. A write guard that was written through or marked leaves its page dirty.
Without guards, every frame is free or evictable. -/
theorem guards_hold {capacity : Nat} {policy : Policy} {r : Replacer (Fin n)}
    (hr : Replacer.ofPolicy capacity policy = .ok r) (d : δ) (log : Option Log)
    (us : List Handling) (s₀ s : Clients δ n) (hs₀ : s₀ = start (.create r d log))
    (hs : s = s₀.handleAll us)
    (hfit : ∀ bs, bs <+: us → (s₀.handleAll bs).session.PinsFit) :
    (∀ g, some g ∈ s.guards → s.session.pool.frameOf? g.page = some g.frame ∧
      (s.session.pool.frames.get g.frame).page = some g.page ∧
      s.session.pool.replacer.isEvictable g.frame = false ∧
      (s.session.pool.unpin g.page g.dirty).1 = true) ∧
    (∀ p f, s.session.pool.frameOf? p = some f →
      (s.session.pool.frames.get f).pins.toNat = s.guardsOn p + s.session.windowsOn p) ∧
    ((∀ p, .deed (.beginFlush p) ∉ us) → ∀ p, s.session.windowsOn p = 0) ∧
    (∀ i g, s₀.Touched us i → s.guards[i]? = some (some g) →
      (s.handle (.deed (.drop i))).session.pool.isDirty? g.page = some true) ∧
    ((∀ g, some g ∉ s.guards) → (∀ p, s.session.windowsOn p = 0) →
      s.session.pool.freeCount + s.session.pool.evictableCount = n) := by
  obtain ⟨hempty, hnone⟩ := Replacer.ofPolicy_spec hr
  have hholds₀ : s₀.Holds := hs₀ ▸ .create hempty hnone d log
  have hholds : s.Holds := hs ▸ hholds₀.handleAll hfit
  have hsound := hholds.valid.sound
  refine ⟨fun g hg => ?_, fun p f => hholds.toNat_pins, fun hus p => ?_, fun i g ht hi => ?_,
    fun hleft hw => ?_⟩
  · have hp := hholds.inFrame g hg
    have hpins := hholds.pins_ne_zero hg
    refine ⟨hp, hsound.page_eq hp, ?_, by rw [unpin_eq hp hpins]⟩
    rw [← Bool.not_eq_true, hsound.isEvictable_iff_pins hp]
    exact hpins
  · have hflights : s.session.flights = [] :=
      hs ▸ flights_handleAll (hs₀ ▸ rfl) hus
    rw [Session.windowsOn, hflights, List.countP_nil]
  · have hg := List.mem_of_getElem? hi
    have hp := hholds.inFrame g hg
    have hd := dirty_of_touched ht (hs ▸ hi)
    have hpool : (s.handle (.deed (.drop i))).session.pool = g.drop s.session.pool := by
      simp only [handle, step, hi]
    have hframe : (g.drop s.session.pool).frameOf? g.page = some g.frame :=
      (frameOf?_unpin _ _ _ _).trans hp
    rw [hpool, isDirty?_eq hframe, Guard.drop, unpin_eq hp (hholds.pins_ne_zero hg)]
    simp [hd]
  · have hzero : s.session.pool.pinnedCount = 0 := by
      apply pinnedCount_eq_zero
      intro p f hp
      have heq := hholds.toNat_pins hp
      have hguards : s.guardsOn p = 0 := by
        by_contra hne
        obtain ⟨g, hg, -⟩ := guardsOn_pos_iff.mp (Nat.pos_of_ne_zero hne)
        exact hleft g hg
      rw [hguards, hw] at heq
      exact UInt32.toNat_inj.mp heq
    have hcounts := hsound.counts
    rwa [hzero, Nat.add_zero] at hcounts

def undermining : List Handling :=
  [.deed .create, .deed (.put 0 0 [7]), .deed (.write 0), .mark 1, .deed (.flush 0),
    .deed (.drop 0), .deed (.delete 0), .deed .create, .deed (.drop 2), .deed .create,
    .deed (.read 0)]

theorem guards_hold_undermining :
    let r : Replacer (Fin 2) := .lruK { k := 2, k_pos := Nat.two_pos }
    let d : FaultyDisk MemoryDisk :=
      { device := .empty, writes := .burst 0 1 fun _ => .invalidPageId }
    let s₀ := start (.create r d none)
    let s := s₀.handleAll undermining
    (∀ bs, bs <+: undermining → (s₀.handleAll bs).session.PinsFit) ∧ s₀.Touched undermining 1 ∧
      s.guardsOn 0 = 2 ∧ s.session.pool.device.device.isAllocated 0 = false ∧
      s.session.pool.frameOf? 0 = some 0 ∧ (s.session.pool.frames.get 0).pins.toNat = 2 ∧
      s.session.pool.replacer.isEvictable 0 = false ∧
      (s.handle (.deed (.drop 1))).session.pool.isDirty? 0 = some true := by
  intro r d s₀ s
  have hr : Replacer.ofPolicy 2 (.lruK 2) = .ok r := rfl
  obtain ⟨hempty, hnone⟩ := Replacer.ofPolicy_spec hr
  have hfit : ∀ bs, bs <+: undermining → (s₀.handleAll bs).session.PinsFit := by
    intro bs hbs
    have hlen : bs.length ≤ 11 := hbs.length_le
    exact (Holds.create hempty hnone d none).pinsFit (m := 0) (fun _ => Nat.le_refl 0)
      (lt_of_le_of_lt (by omega) (by decide : 11 < UInt32.size))
  have htouched : s₀.Touched undermining 1 :=
    ⟨undermining.take 3, .mark 1, undermining.drop 4, ⟨0, 0, .write false⟩, rfl, rfl,
      by decide +kernel, rfl⟩
  have hguard : s.guards[1]? = some (some ⟨0, 0, .write true⟩) := by decide +kernel
  have htwo : s.guardsOn 0 = 2 := by decide +kernel
  obtain ⟨hlive, hpins, hwindows, hdirty, -⟩ :=
    guards_hold hr d none undermining s₀ s rfl rfl hfit
  obtain ⟨hp, -, hev, -⟩ := hlive ⟨0, 0, .write true⟩ (List.mem_of_getElem? hguard)
  have hdropped := hdirty 1 ⟨0, 0, .write true⟩ htouched hguard
  refine ⟨hfit, htouched, htwo, by decide +kernel, hp, ?_, hev, hdropped⟩
  have heq := hpins 0 0 hp
  rwa [htwo, hwindows (by simp [undermining]) 0] at heq

end BufferPool.Clients
