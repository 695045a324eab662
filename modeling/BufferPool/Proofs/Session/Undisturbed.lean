import BufferPool.Proofs.Session.Logged
import BufferPool.Proofs.Session.Valid

/-! # Runs that nobody disturbs

Flushes that nobody interrupts leave the pool tidy, whoever gives back which
pins, and however many there are. Users who act in the window of a flush must
be fair for that. Either way an action is a chain of moves, except for the pin
that a count has no room for.
-/

namespace BufferPool.Session

open Pool

variable {δ : Type} {n : Nat} {s t : Session δ n} {p : PageId} {f : Fin n}

/-- The books balance, or no flush has opened a window and the pool is tidy. -/
def Kempt (s : Session δ n) : Prop := s.Valid ∨ s.flights = [] ∧ s.pool.Tidy

theorem Kempt.tidy (h : s.Kempt) : s.pool.Tidy := h.elim (fun hv => hv.sound.tidy) And.right

theorem Kempt.inFrame (h : s.Kempt) {w : Flight n} (hw : w ∈ s.flights) (ho : w.isOpen = true) :
    s.pool.frameOf? w.window.page = some w.window.frame := by
  rcases h with hv | ⟨hnone, -⟩
  · exact hv.inFrame w hw ho
  · rw [hnone] at hw
    cases hw

/-- A page that is pinned once more, whether or not the count has room for the pin. -/
def hit (s : Session δ n) (p : PageId) (f : Fin n) : Session δ n :=
  { s with
    pool := { (s.pool.modifyStats fun x =>
      { x with fetches := x.fetches + 1, hits := x.hits + 1 }).modifyFrame f fun x =>
        { x with pins := x.pins + 1 } with replacer := s.pool.replacer.pin f }
    pins := Function.update s.pins p (s.pins p).handOut }

theorem apply_hit {α : Type} (s : Session δ n) (p : PageId) (f : Fin n) (k : Frame → α)
    (hk : ∀ x m, k { x with pins := m } = k x) (g : Fin n) :
    k ((s.hit p f).pool.frames.get g) = k (s.pool.frames.get g) :=
  apply_modifyFrame (s.pool.modifyStats _) f k (h := fun x => { x with pins := x.pins + 1 })
    (fun x => hk x _) g

theorem tidy_hit (h : s.pool.Tidy) (hp : s.pool.frameOf? p = some f) :
    (s.hit p f).pool.Tidy :=
  ((h.pin hp).modify f (k := fun x => { x with pins := x.pins + 1 }) fun _ => rfl).congr
    rfl rfl rfl fun _ => rfl

variable [Device δ] {e : Event n} {es : List (Event n)} {a : Action n} {as : List (Action n)}

theorem tidy_move (h : s.pool.Tidy) (hs : s.flights = []) (hm : Move s e t) : t.pool.Tidy := by
  cases hm with
  | missed | refused | undeleted | deleted | condemned => exact h.congr rfl rfl rfl fun _ => rfl
  | hit hp => exact tidy_hit h hp
  | @saved p f d | @dropped p f d =>
    have hd : Tidy { s.pool with device := d } := h.congr rfl rfl rfl fun _ => rfl
    exact (hd.modify f (k := fun x => { x with dirty := false }) fun _ => rfl).congr rfl rfl rfl
      fun _ => rfl
  | evicted hp => exact (h.vacate hp).congr rfl rfl rfl fun _ => rfl
  | @loaded p f free data d hp hf =>
    have hd : Tidy { s.pool with device := d } := h.congr rfl rfl rfl fun _ => rfl
    exact hd.seat hf hp data
  | @unread p f free e d hp hf =>
    have hd : Tidy { s.pool with device := d } := h.congr rfl rfl rfl fun _ => rfl
    exact hd.requeue hf
  | @created p f free b hp hf =>
    have hd : Tidy { s.pool with device := b.device } := h.congr rfl rfl rfl fun _ => rfl
    exact (hd.seat hf hp Page.zero).congr rfl rfl rfl fun _ => rfl
  | @unallocated f free b e hf =>
    have hd : Tidy { s.pool with device := b.device } := h.congr rfl rfl rfl fun _ => rfl
    exact hd.requeue hf
  | @released p f dirty hp =>
    exact ((h.release hp ((s.pool.frames.get f).pins = 1)).modify f (k := fun x =>
      { x with pins := x.pins - 1, dirty := x.dirty || dirty }) fun _ => rfl).congr rfl rfl rfl
        fun _ => rfl
  | @freed p f d hp =>
    have hd : Tidy { s.pool with device := d } := h.congr rfl rfl rfl fun _ => rfl
    exact (hd.discard hp).congr rfl rfl rfl fun _ => rfl
  | @put f offset new =>
    exact h.modify f (k := fun x => { x with data := x.data.write offset new }) fun _ => rfl
  | @opened p f =>
    exact h.modify f (k := fun x => { x with pins := x.pins + 1, dirty := false }) fun _ => rfl
  | written hi | closed hi =>
    rw [hs] at hi
    cases hi

theorem flights_eq_nil_of_moves (hm : Moves s es t) (ht : t.flights = []) : s.flights = [] := by
  induction hm with
  | nil => exact ht
  | cons hm _ _ ih =>
    have ht := ih ht
    cases hm with
    | opened => exact absurd ht (List.append_ne_nil_of_right_ne_nil _ (List.cons_ne_nil _ _))
    | written hi | closed hi => simpa using ht
    | _ => exact ht

theorem Kempt.moves {P : Session δ n → Prop} {Q : Event n → Prop} (hm : Moves s es t)
    (h : s.Kempt) (ht : s.Valid ∨ t.flights = []) (hQ : ∀ e ∈ es, Q e)
    (hstep : ∀ {s e t}, s.Kempt → Move s e t → Q e → P s → P t) (hP : P s) : P t ∧ t.Kempt := by
  induction hm with
  | nil => exact ⟨hP, h⟩
  | @cons s t u e es hm _ hms ih =>
    obtain ⟨he, hQ⟩ := List.forall_mem_cons.mp hQ
    have hP := hstep h hm he hP
    rcases ht with hv | ht
    · exact ih (Or.inl (hv.move hm)) (Or.inl (hv.move hm)) hQ hP
    · have hnil := flights_eq_nil_of_moves hms ht
      have hs := flights_eq_nil_of_moves (.single hm) hnil
      exact ih (Or.inr ⟨hnil, tidy_move h.tidy hs hm⟩) (Or.inr ht) hQ hP

/-- The session is kempt, and the action is a chain of moves, or it pins a page once more. -/
structure Regular (s : Session δ n) (a : Action n) : Prop where
  kempt : s.Kempt
  moves : (∃ es, Moves s es (s.step a) ∧ (∀ e ∈ es, s.Makes a e) ∧
      (s.Valid ∨ (s.step a).flights = [])) ∨
    ∃ p f, a = .call (.fetch p) ∧ s.pool.frameOf? p = some f ∧ s.step a = s.hit p f

/-- What every move that the action can consist of keeps, the action keeps. -/
theorem Regular.step_induction (h : s.Regular a) {P : Session δ n → Prop}
    (hmove : ∀ {s' e t}, s'.Kempt → Move s' e t → s.Makes a e → P s' → P t)
    (hhit : ∀ p f, a = .call (.fetch p) → s.pool.frameOf? p = some f → P s → P (s.hit p f))
    (hP : P s) : P (s.step a) := by
  rcases h.moves with ⟨es, hes, hmakes, ht⟩ | ⟨p, f, ha, hp, hstep⟩
  · exact (h.kempt.moves hes ht hmakes hmove hP).1
  · rw [hstep]
    exact hhit p f ha hp hP

theorem run_induction {P : Session δ n → Prop} (has : s.Along Regular as)
    (hstep : ∀ {s a}, s.Regular a → P s → P (s.step a)) (hP : P s) : P (s.run as) := by
  induction as generalizing s with
  | nil => exact hP
  | cons a as ih => exact ih has.2 (hstep has.1 hP)

theorem Valid.regular (h : s.Valid) (ha : s.Orderly a) : s.Regular a := by
  obtain ⟨es, hes, hmakes⟩ := h.step_moves ha
  exact ⟨Or.inl h, Or.inl ⟨es, hes, hmakes, Or.inl h⟩⟩

/-- Without windows, an action is a chain of moves or pins a page once more. -/
theorem regular_of_tidy (h : s.pool.Tidy) (hs : s.flights = []) (ha : ∀ p, a ≠ .beginFlush p) :
    s.Regular a ∧ (s.step a).flights = [] ∧ (s.step a).pool.Tidy := by
  have hkempt : s.Kempt := Or.inr ⟨hs, h⟩
  have hflights : (s.step a).flights = [] := by
    cases a with
    | call | put => exact hs
    | beginFlush p => exact absurd rfl (ha p)
    | writeWindow i | closeWindow i => simp only [step, hs, List.getElem?_nil]
  by_cases hover : ∃ p f, a = .call (.fetch p) ∧ p ≠ PageId.invalid ∧ s.pool.frameOf? p = some f
  · obtain ⟨p, f, rfl, hv, hp⟩ := hover
    have hc : s.pool.isCached p = true := isCached_of_frameOf? hp
    have hstep : s.step (.call (.fetch p)) = s.hit p f := by
      simp only [step, after, account, fetch, if_neg hv, hp, hc, if_true]
      rfl
    rw [hstep]
    exact ⟨⟨hkempt, Or.inr ⟨p, f, rfl, hp, hstep⟩⟩, hs, tidy_hit h hp⟩
  have hfair : s.Fair a := by
    cases a with
    | call c =>
      cases c with
      | unpin p dirty =>
        refine Or.inl ?_
        rw [windowsOn, hs, List.countP_nil]
      | _ => trivial
    | _ => trivial
  have hroom : s.PinRoom a := by
    cases a with
    | call c =>
      cases c with
      | fetch p => exact fun f hv hp => absurd ⟨p, f, rfl, hv, hp⟩ hover
      | _ => trivial
    | beginFlush p => exact absurd rfl (ha p)
    | _ => trivial
  obtain ⟨es, hes, hmakes⟩ := step_moves h hfair hroom
  have ht := (hkempt.moves (P := fun _ => True) hes (Or.inr hflights) hmakes
    (fun _ _ _ => id) trivial).2
  exact ⟨⟨hkempt, Or.inl ⟨es, hes, hmakes, Or.inr hflights⟩⟩, hflights, ht.tidy⟩

/-- No flush is interrupted, or else the users are fair and the pins fit. -/
def Undisturbed (s : Session δ n) (as : List (Action n)) : Prop :=
  (∀ p, .beginFlush p ∉ as) ∨ s.Along Orderly as

theorem along_regular_of_tidy (h : s.pool.Tidy) (hs : s.flights = [])
    (has : ∀ p, .beginFlush p ∉ as) : s.Along Regular as ∧ (s.run as).Kempt := by
  induction as generalizing s with
  | nil => exact ⟨trivial, Or.inr ⟨hs, h⟩⟩
  | cons a as ih =>
    obtain ⟨ha, hs, h⟩ := regular_of_tidy h hs fun p hp => has p (hp ▸ List.mem_cons_self)
    obtain ⟨has, hend⟩ := ih h hs fun p hp => has p (List.mem_cons_of_mem a hp)
    exact ⟨⟨ha, has⟩, hend⟩

theorem Valid.along_regular (h : s.Valid) (has : s.Along Orderly as) :
    s.Along Regular as ∧ (s.run as).Kempt := by
  induction as generalizing s with
  | nil => exact ⟨trivial, Or.inl h⟩
  | cons a as ih =>
    obtain ⟨hrest, hend⟩ := ih (h.step has.1) has.2
    exact ⟨⟨h.regular has.1, hrest⟩, hend⟩

theorem Undisturbed.along_regular (h : s.Undisturbed as) (hv : s.Valid) (hs : s.flights = []) :
    s.Along Regular as ∧ (s.run as).Kempt :=
  h.elim (along_regular_of_tidy hv.sound.tidy hs) hv.along_regular

theorem Undisturbed.along_regular_logged {c : Config} {d : δ} {log : Option Log}
    {b : Pool δ c.poolSize} {as : List (Action c.poolSize)} (hb : Pool.ofConfig c d log = .ok b)
    (h : (start b).Undisturbed as) :
    (start b).logged.Along Regular as ∧ ((start b).logged.run as).Kempt := by
  obtain ⟨r, hr, rfl⟩ := exists_create_of_ofConfig hb
  obtain ⟨hs, he⟩ := Replacer.ofPolicy_spec hr
  have hv : (start (Pool.create r d log)).logged.Valid :=
    Valid.create hs he (⟨d, []⟩ : Logged δ) log
  exact Undisturbed.along_regular (h.imp_right along_orderly_logged.mpr) hv rfl

end BufferPool.Session
