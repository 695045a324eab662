import BufferPool.Disk.Faulty
import BufferPool.Disk.Memory
import BufferPool.Proofs.Pool.Order
import BufferPool.Proofs.Session.Account

/-! # Eviction in the order of the last pins

Actions take pages out of the order of eviction, and a page whose last pin is
given back joins it at the end. So the page that is evicted is the one whose
pin count fell to zero before those of all other pages that could be evicted.
-/

namespace BufferPool

namespace Session

open Pool

variable {δ : Type} [Device δ] {n : Nat} {s t : Session δ n} {a : Action n}
  {as : List (Action n)} {p : PageId}

def closed (s : Session δ n) : Nat := s.flights.countP fun w => !w.isOpen

theorem isLru_move {e : Event n} (hm : Move s e t) (hl : s.pool.replacer.IsLru) :
    t.pool.replacer.IsLru := by
  cases hm with
  | hit | loaded | created => exact hl.pin _
  | evicted | freed => exact hl.remove _
  | released =>
    dsimp only
    split
    · exact hl.unpin _
    · exact hl
  | @written i w =>
    dsimp only [writeWindow]
    rwa [(writeBack_books s.pool w.page _).2.2]
  | closed =>
    dsimp only
    rw [closeWindow_eq]
    dsimp only
    split
    · exact hl.unpin _
    · exact hl
  | _ => exact hl

structure ValidLru (s : Session δ n) : Prop extends Valid s where
  isLru : s.pool.replacer.IsLru

namespace ValidLru

omit [Device δ] in
theorem create {capacity : Nat} (d : δ) (log : Option Log) :
    (start (.create (.lru { capacity }) d log) : Session δ n).ValidLru where
  toValid := by
    have hpolicy : Replacer.ofPolicy capacity .lru = .ok (.lru { capacity } : Replacer (Fin n)) :=
      rfl
    obtain ⟨hsound, hnone⟩ := Replacer.ofPolicy_spec hpolicy
    exact .create hsound hnone d log
  isLru := ⟨_, rfl⟩

theorem move {e : Event n} (h : s.ValidLru) (hm : Move s e t) : t.ValidLru where
  toValid := h.toValid.move hm
  isLru := isLru_move hm h.isLru

theorem moves {es : List (Event n)} (h : s.ValidLru) (hm : Moves s es t) : t.ValidLru := by
  induction hm with
  | nil => exact h
  | cons hm _ _ ih => exact ih (h.move hm)

theorem step (h : s.ValidLru) (ha : s.Orderly a) : (s.step a).ValidLru := by
  obtain ⟨es, hes, -⟩ := h.step_moves ha
  exact h.moves hes

theorem run (h : s.ValidLru) (has : s.Along Orderly as) : (s.run as).ValidLru := by
  induction as generalizing s with
  | nil => exact h
  | cons a as ih => exact ih (h.step has.1) has.2

omit [Device δ] in
theorem mem_order_iff (h : s.ValidLru) : p ∈ s.pool.order ↔ s.pool.pinCount? p = some 0 :=
  Pool.mem_order_iff h.sound h.isLru

end ValidLru

theorem order_move {e : Event n} (h : s.ValidLru) (hm : Move s e t)
    (hrel : ∀ p f dirty, e ≠ .released p f dirty) :
    List.Sublist t.pool.order s.pool.order ∧ t.closed = s.closed ∨ s.closed < t.closed := by
  have hs := h.sound
  cases hm with
  | missed | refused | undeleted | deleted | condemned => exact Or.inl ⟨.refl _, rfl⟩
  | @hit p f =>
    refine Or.inl ⟨order_sublist_of_page_eq (Replacer.queue_pin_sublist _ f) ?_, rfl⟩
    exact apply_modifyFrame (h := fun x => { x with pins := x.pins + 1 }) _ f Frame.page
      fun _ => rfl
  | @saved p f | @dropped p f | @put f =>
    refine Or.inl ⟨order_sublist_of_page_eq (.refl _) ?_, rfl⟩
    exact apply_modifyFrame _ f Frame.page fun _ => rfl
  | @evicted p f =>
    refine Or.inl ⟨order_sublist (Replacer.queue_remove_sublist _ f) fun g hg => ?_, rfl⟩
    have hne := hs.replacer.ne_of_mem_queue_remove hg
    exact congrArg Frame.page ((getElem_vacate (p := p)).trans (if_neg hne.symm))
  | @freed p f =>
    refine Or.inl ⟨order_sublist (Replacer.queue_remove_sublist _ f) fun g hg => ?_, rfl⟩
    have hne := hs.replacer.ne_of_mem_queue_remove hg
    exact congrArg Frame.page ((getElem_discard (p := p)).trans (if_neg hne.symm))
  | @loaded p f | @created p f =>
    refine Or.inl ⟨order_sublist (Replacer.queue_pin_sublist _ f) fun g hg => ?_, rfl⟩
    have hne := hs.replacer.ne_of_mem_queue_pin hg
    exact congrArg Frame.page (getElem_seat.trans (if_neg hne.symm))
  | @unread _ f _ _ _ _ hf | @unallocated f _ _ _ hf =>
    refine Or.inl ⟨order_sublist (.refl _) fun g hg => ?_, rfl⟩
    have hne : f ≠ g := by
      rintro rfl
      obtain ⟨p, hp⟩ := ((mem_queue_iff hs h.isLru).mp hg).1
      exact hs.not_mem_free hp (hf ▸ List.mem_cons_self)
    exact congrArg Frame.page (getElem_requeue.trans (if_neg hne))
  | released => exact absurd rfl (hrel _ _ _)
  | @opened p f =>
    refine Or.inl ⟨order_sublist_of_page_eq (.refl _) ?_, ?_⟩
    · exact apply_modifyFrame _ f Frame.page fun _ => rfl
    · simp [closed, Flight.isOpen]
  | @written i w hi =>
    have hx : (s.pool.writeWindow w).2.frames = s.pool.frames := frames_writeBack ..
    have hr : (s.pool.writeWindow w).2.replacer = s.pool.replacer := (writeBack_books ..).2.2
    refine Or.inl ⟨?_, ?_⟩
    · simp only [order, hx, hr]
      exact .refl _
    · exact Nat.add_right_cancel (countP_set_add hi _ fun w => !w.isOpen)
  | @closed i w answer hi =>
    right
    have hcount := countP_set_add hi ⟨w, .closed answer⟩ fun w => !w.isOpen
    exact Nat.lt_of_lt_of_eq (Nat.lt_succ_self _) hcount.symm

theorem order_moves {es : List (Event n)} (h : s.ValidLru) (hm : Moves s es t)
    (hrel : ∀ e ∈ es, ∀ p f dirty, e ≠ .released p f dirty) :
    List.Sublist t.pool.order s.pool.order ∧ t.closed = s.closed ∨ s.closed < t.closed := by
  induction hm with
  | nil => exact Or.inl ⟨.refl _, rfl⟩
  | cons hm _ _ ih =>
    obtain ⟨he, hes⟩ := List.forall_mem_cons.mp hrel
    have hfirst := order_move h hm he
    have hrest := ih (h.move hm) hes
    rcases hfirst with ⟨hsub, heq⟩ | hlt
    · rcases hrest with ⟨hsub', heq'⟩ | hlt'
      · exact Or.inl ⟨hsub'.trans hsub, heq'.trans heq⟩
      · exact Or.inr (heq ▸ hlt')
    · right
      rcases hrest with ⟨-, heq'⟩ | hlt'
      · exact heq' ▸ hlt
      · exact hlt.trans hlt'

theorem closed_step (ha : ∀ i, a ≠ .closeWindow i) : (s.step a).closed = s.closed := by
  cases a with
  | call | put => rfl
  | beginFlush p =>
    simp only [step]
    split
    · rfl
    · simp [closed, Flight.isOpen]
  | writeWindow i =>
    simp only [step]
    split
    · rename_i hi
      exact Nat.add_right_cancel (countP_set_add hi _ fun w => !w.isOpen)
    · rfl
  | closeWindow i => exact absurd rfl (ha i)

def Unpins (s : Session δ n) : Action n → PageId → Prop
  | .call (.unpin q _), p => q = p
  | .closeWindow i, p => ∃ w answer, s.flights[i]? = some ⟨w, .written answer⟩ ∧ w.page = p
  | _, _ => False

theorem order_step_sublist (h : s.ValidLru) (ha : s.Orderly a)
    (hunpin : ∀ p dirty, a ≠ .call (.unpin p dirty)) (hclose : ∀ i, a ≠ .closeWindow i) :
    List.Sublist (s.step a).pool.order s.pool.order := by
  obtain ⟨es, hes, hmakes⟩ := h.step_moves ha
  have hrel : ∀ e ∈ es, ∀ p f dirty, e ≠ .released p f dirty := by
    rintro e he p f dirty rfl
    exact hunpin p dirty (hmakes _ he).of_released
  rcases order_moves h hes hrel with ⟨hsub, -⟩ | hlt
  · exact hsub
  · rw [closed_step hclose] at hlt
    exact absurd hlt (Nat.lt_irrefl _)

theorem order_step_cases (h : s.ValidLru) (ha : s.Orderly a) :
    List.Sublist (s.step a).pool.order s.pool.order ∨
      ∃ p f, s.pool.frameOf? p = some f ∧ (s.pool.frames.get f).pins ≠ 0 ∧ s.Unpins a p ∧
        (s.step a).pool.order = s.pool.order ++ [p] := by
  by_cases hclose : ∃ i, a = .closeWindow i
  · obtain ⟨i, rfl⟩ := hclose
    simp only [step, Unpins]
    rcases hi : s.flights[i]? with _ | ⟨w, _ | answer | answer⟩
    · exact Or.inl (.refl _)
    · exact Or.inl (.refl _)
    · have hw := List.mem_of_getElem? hi
      have hp := h.inFrame _ hw rfl
      have hpins : (s.pool.frames.get w.frame).pins ≠ 0 := h.pins_ne_zero hw rfl
      have horder := order_closeWindow h.sound h.isLru hp hpins answer
      split at horder
      · exact Or.inr ⟨w.page, w.frame, hp, hpins, ⟨w, answer, rfl, rfl⟩, horder⟩
      · exact Or.inl (horder ▸ .refl _)
    · exact Or.inl (.refl _)
  by_cases hunpin : ∃ p dirty, a = .call (.unpin p dirty)
  · obtain ⟨p, dirty, rfl⟩ := hunpin
    by_cases hrejected : ∀ f, s.pool.frameOf? p = some f → (s.pool.frames.get f).pins = 0
    · left
      rw [step, Pool.after, unpin_eq_false_iff.mpr hrejected]
    · push Not at hrejected
      obtain ⟨f, hp, hpins⟩ := hrejected
      have horder := order_unpin h.sound h.isLru hp hpins dirty
      split at horder
      · exact Or.inr ⟨p, f, hp, hpins, rfl, horder⟩
      · exact Or.inl (horder ▸ .refl _)
  · left
    apply order_step_sublist h ha
    · exact fun p dirty he => hunpin ⟨p, dirty, he⟩
    · exact fun i he => hclose ⟨i, he⟩

/-- The pin count of a cached page falls to zero. -/
def Falls (s : Session δ n) (a : Action n) (p : PageId) : Prop :=
  s.pool.isCached p = true ∧ s.pool.pinCount? p ≠ some 0 ∧ (s.step a).pool.pinCount? p = some 0

theorem not_falls_of_mem_order (h : s.ValidLru) (hp : p ∈ s.pool.order) : ¬s.Falls a p := by
  rintro ⟨-, hcount, -⟩
  exact hcount (h.mem_order_iff.mp hp)

theorem filter_eq_of_sublist {α : Type} {l l' : List α} {k : α → Bool} (h : List.Sublist l' l)
    (hn : l.Nodup) (hk : ∀ a, k a = true ↔ a ∈ l') : l.filter k = l' := by
  have hall : l'.filter k = l' := List.filter_eq_self.mpr fun a => (hk a).mpr
  have hsub := h.filter k
  rw [hall] at hsub
  apply (hsub.eq_of_length_le _).symm
  exact ((hn.filter k).subperm fun a ha => (hk a).mp (List.of_mem_filter ha)).length_le

theorem order_step (h : s.ValidLru) (ha : s.Orderly a) :
    ∃ fallen : Option PageId, (s.step a).pool.order =
      (s.pool.order.filter fun p => (s.step a).pool.pinCount? p = some 0) ++ fallen.toList ∧
      (∀ p, fallen = some p ↔ s.Falls a p) ∧ ∀ p, fallen = some p → s.Unpins a p := by
  have h' := h.step ha
  rcases order_step_cases h ha with hsub | ⟨p, f, hp, hpins, hunpins, horder⟩
  · refine ⟨none, ?_, fun p => ?_, nofun⟩
    · rw [Option.toList_none, List.append_nil]
      apply (filter_eq_of_sublist hsub (nodup_order h.sound) _).symm
      intro p
      rw [decide_eq_true_eq, h'.mem_order_iff]
    · apply iff_of_false nofun
      intro hfalls
      exact not_falls_of_mem_order h (hsub.subset (h'.mem_order_iff.mpr hfalls.2.2)) hfalls
  · have hcount : s.pool.pinCount? p = some (s.pool.frames.get f).pins := by
      simp [pinCount?, hp]
    refine ⟨some p, ?_, fun q => ?_, ?_⟩
    · rw [List.filter_eq_self.mpr, horder]
      · rfl
      · intro q hq
        rw [decide_eq_true_eq, ← h'.mem_order_iff, horder]
        exact List.mem_append_left _ hq
    · constructor
      · rintro ⟨⟩
        refine ⟨isCached_of_frameOf? hp, ?_, ?_⟩
        · rw [hcount]
          exact fun heq => hpins (Option.some.inj heq)
        · rw [← h'.mem_order_iff, horder]
          exact List.mem_append_right _ List.mem_cons_self
      · intro hfalls
        have hq := h'.mem_order_iff.mpr hfalls.2.2
        rw [horder, List.mem_append, List.mem_singleton] at hq
        rcases hq with hq | rfl
        · exact absurd hfalls (not_falls_of_mem_order h hq)
        · rfl
    · rintro q ⟨⟩
      exact hunpins

/-- The pin count of the page falls to zero with the `i`-th action of the run. -/
def FallsAt (s : Session δ n) (as : List (Action n)) (p : PageId) (i : Nat) : Prop :=
  ∃ a, as[i]? = some a ∧ (s.run (as.take i)).Falls a p

/-- The pin count of the page falls to zero with the `i`-th action of the run, and not later. -/
def LastFallsAt (s : Session δ n) (as : List (Action n)) (p : PageId) (i : Nat) : Prop :=
  IsGreatest {i | s.FallsAt as p i} i

def FellBefore (s : Session δ n) (as : List (Action n)) (p q : PageId) : Prop :=
  ∃ i j, s.LastFallsAt as p i ∧ s.LastFallsAt as q j ∧ i < j

theorem FallsAt.lt_length {i : Nat} (h : s.FallsAt as p i) : i < as.length := by
  obtain ⟨a, ha, -⟩ := h
  exact (List.getElem?_eq_some_iff.mp ha).1

theorem fallsAt_concat {i : Nat} : s.FallsAt (as ++ [a]) p i ↔
    s.FallsAt as p i ∨ i = as.length ∧ (s.run as).Falls a p := by
  rcases lt_trichotomy i as.length with hlt | rfl | hgt
  · simp only [FallsAt, List.getElem?_append_left hlt, List.take_append_of_le_length hlt.le,
      hlt.ne, false_and, or_false]
  · have hnot : ¬s.FallsAt as p as.length := fun h => Nat.lt_irrefl _ h.lt_length
    rw [or_iff_right hnot]
    simp [FallsAt]
  · apply iff_of_false
    · intro h
      have hlt := h.lt_length
      rw [List.length_append, List.length_singleton] at hlt
      omega
    · rintro (h | ⟨rfl, -⟩)
      · exact hgt.not_gt h.lt_length
      · exact hgt.false

theorem lastFallsAt_concat_self (h : (s.run as).Falls a p) :
    s.LastFallsAt (as ++ [a]) p as.length := by
  refine ⟨fallsAt_concat.mpr (Or.inr ⟨rfl, h⟩), fun i hi => ?_⟩
  rcases fallsAt_concat.mp hi with hi | ⟨rfl, -⟩
  · exact hi.lt_length.le
  · exact Nat.le_refl _

theorem lastFallsAt_concat {i : Nat} (h : ¬(s.run as).Falls a p) :
    s.LastFallsAt (as ++ [a]) p i ↔ s.LastFallsAt as p i := by
  simp only [LastFallsAt, fallsAt_concat, h, and_false, or_false]

/-- The pages wait in the order in which their pin counts last fell to zero. -/
theorem order_run (h : s.ValidLru) (hempty : s.pool.order = []) (has : s.Along Orderly as) :
    (∀ p ∈ (s.run as).pool.order, ∃ i, s.LastFallsAt as p i) ∧
      (s.run as).pool.order.Pairwise (s.FellBefore as) := by
  -- By induction on the last action. Only a page whose pin count falls with it gets a new last
  -- fall, and that page was not in the order before.
  induction as using List.reverseRecOn with
  | nil =>
    rw [run_nil, hempty]
    exact ⟨nofun, .nil⟩
  | append_singleton as a ih =>
    obtain ⟨hrun, ha, -⟩ := along_append.mp has
    obtain ⟨hlast, hpairwise⟩ := ih hrun
    have h' := h.run hrun
    obtain ⟨fallen, horder, hfallen, -⟩ := order_step h' ha
    have hjoin : ∀ p ∈ fallen.toList, s.LastFallsAt (as ++ [a]) p as.length := by
      intro p hp
      exact lastFallsAt_concat_self ((hfallen p).mp (Option.mem_toList.mp hp))
    have hkeep : ∀ p ∈ (s.run as).pool.order, ∀ i,
        s.LastFallsAt (as ++ [a]) p i ↔ s.LastFallsAt as p i :=
      fun p hp i => lastFallsAt_concat (not_falls_of_mem_order h' hp)
    rw [run_append, run_cons, run_nil, horder]
    constructor
    · intro p hp
      rcases List.mem_append.mp hp with hp | hp
      · have hp := List.mem_of_mem_filter hp
        obtain ⟨i, hi⟩ := hlast p hp
        exact ⟨i, (hkeep p hp i).mpr hi⟩
      · exact ⟨as.length, hjoin p hp⟩
    · rw [List.pairwise_append]
      refine ⟨?_, ?_, ?_⟩
      · apply (hpairwise.filter _).imp_of_mem
        rintro p q hp hq ⟨i, j, hi, hj, hij⟩
        have hp := List.mem_of_mem_filter hp
        have hq := List.mem_of_mem_filter hq
        exact ⟨i, j, (hkeep p hp i).mpr hi, (hkeep q hq j).mpr hj, hij⟩
      · cases fallen <;> simp
      · intro p hp q hq
        have hp := List.mem_of_mem_filter hp
        obtain ⟨i, hi⟩ := hlast p hp
        exact ⟨i, as.length, (hkeep p hp i).mpr hi, hjoin q hq, FallsAt.lt_length hi.1⟩

/-- A call of `new` or `fetch` takes the frame of the page `p`, whose id may be that of the new
page. -/
def Evicts (s : Session δ n) (a : Action n) (p : PageId) : Prop :=
  s.pool.isCached p = true ∧ (a = .call .new ∨ ∃ q, a = .call (.fetch q)) ∧
    ((s.step a).pool.isCached p = false ∨ a = .call .new ∧ s.pool.created? = some p)

theorem victim_of_evicts (h : s.Evicts a p) : s.pool.IsVictim p ∧
    ∀ q, a = .call (.fetch q) → s.pool.isCached q = false := by
  obtain ⟨hp, hcall, hgone⟩ := h
  rw [isCached, Option.isSome_iff_ne_none] at hp
  rw [isCached_eq_false_iff] at hgone
  rcases hcall with rfl | ⟨q, rfl⟩
  · exact ⟨dropped_of_new hp (hgone.imp_right And.right), by simp⟩
  · obtain ⟨hq, hvictim⟩ := dropped_of_fetch hp (hgone.resolve_right (by simp))
    refine ⟨hvictim, ?_⟩
    rintro _ ⟨⟩
    exact isCached_eq_false_iff.mpr hq

theorem head?_order_of_evicts (hl : s.pool.replacer.IsLru) (h : s.Evicts a p) :
    s.pool.order.head? = some p ∧ s.pool.free = [] ∧
      ∀ q, a = .call (.fetch q) → s.pool.isCached q = false := by
  obtain ⟨hvictim, hmiss⟩ := victim_of_evicts h
  exact ⟨hvictim.head?_order hl, hvictim.1, hmiss⟩

theorem not_mem_order_of_fetch {f : Fin n} (h : s.ValidLru) (ha : s.Orderly (.call (.fetch p)))
    (hok : (s.pool.fetch p).1 = .ok (some f)) : p ∉ (s.step (.call (.fetch p))).pool.order := by
  have h' := h.step ha
  have hp : (s.step (.call (.fetch p))).pool.frameOf? p = some f := frameOf?_fetch hok
  rw [h'.mem_order_iff, pinCount?, hp, Option.map_some, Option.some.injEq]
  intro hpins
  have hunused := (h'.unused hp hpins).2
  have hle := h.returned_le p
  simp only [step, account, hok, Function.update_self] at hunused
  split at hunused
  · simp only [Pins.handOut] at hunused
    omega
  · cases hunused

/-- Of the pages that nobody has pinned, `p` is the one whose pin count fell to zero first. -/
def LeastRecent (s : Session δ n) (as : List (Action n)) (p : PageId) : Prop :=
  (s.run as).pool.pinCount? p = some 0 ∧ (∃ i, s.LastFallsAt as p i) ∧
    ∀ q, q ≠ p → (s.run as).pool.pinCount? q = some 0 → s.FellBefore as p q

/-- Whatever its users and its device do, a pool evicts the least recently unpinned page, and only
for a page that is not cached, when no frame is free. The pages that nobody has pinned wait in the
order in which their pin counts fell to zero. An action may take pages out of that order, and only
the page whose pin count falls to zero with it comes in, at the end. -/
theorem evicts_least_recent {capacity : Nat} (d : δ) (log : Option Log) (as : List (Action n))
    (a : Action n) (s₀ s : Session δ n) (hs₀ : s₀ = start (.create (.lru { capacity }) d log))
    (hs : s = s₀.run as) (has : s₀.Along Orderly (as ++ [a])) :
    (∀ p, s.Evicts a p → s.pool.free = [] ∧ s₀.LeastRecent as p ∧
      ∀ q, a = .call (.fetch q) → s.pool.isCached q = false) ∧
    (∀ p, p ∈ s.pool.order ↔ s.pool.pinCount? p = some 0) ∧
    s.pool.order.Pairwise (s₀.FellBefore as) ∧
    (∃ fallen : Option PageId, (s.step a).pool.order =
      (s.pool.order.filter fun p => (s.step a).pool.pinCount? p = some 0) ++ fallen.toList ∧
      (∀ p, fallen = some p ↔ s.Falls a p) ∧ ∀ p, fallen = some p → s.Unpins a p) ∧
    ∀ p f, a = .call (.fetch p) → (s.pool.fetch p).1 = .ok (some f) →
      p ∉ (s.step a).pool.order := by
  obtain ⟨hrun, ha, -⟩ := along_append.mp has
  have hvalid₀ : s₀.ValidLru := hs₀ ▸ .create d log
  have hvalid := hvalid₀.run hrun
  obtain ⟨hlast, hpairwise⟩ := order_run hvalid₀ (by rw [hs₀]; rfl) hrun
  subst hs
  refine ⟨fun p hp => ?_, fun p => hvalid.mem_order_iff, hpairwise, order_step hvalid ha, ?_⟩
  · obtain ⟨hhead, hfree, hmiss⟩ := head?_order_of_evicts hvalid.isLru hp
    have hin := List.mem_of_mem_head? hhead
    refine ⟨hfree, ⟨hvalid.mem_order_iff.mp hin, hlast p hin, fun q hne hq => ?_⟩, hmiss⟩
    obtain ⟨rest, hrest⟩ := List.head?_eq_some_iff.mp hhead
    have hq := hvalid.mem_order_iff.mpr hq
    rw [hrest] at hpairwise hq
    exact List.rel_of_pairwise_cons hpairwise ((List.mem_cons.mp hq).resolve_left hne)
  · rintro p f rfl hok
    exact not_mem_order_of_fetch hvalid ha hok

/-- The next victim cannot be written back. It is then fetched, and given back in the window of a
flush, which has the last pin. -/
def reusing : List (Action 2) :=
  [.call .new, .call .new, .call (.unpin 0 true), .call (.unpin 1 false), .call .new,
    .call (.fetch 0), .beginFlush 0, .call (.unpin 0 false), .writeWindow 0, .closeWindow 0]

theorem evicts_least_recent_reusing :
    let d : FaultyDisk MemoryDisk :=
      { device := .empty, writes := .burst 0 1 fun _ => .io (.other "device unplugged") }
    let s₀ : Session _ 2 := start (.create (.lru { capacity := 2 }) d none)
    s₀.Along Orderly (reusing ++ [.call .new]) ∧ (s₀.run reusing).Evicts (.call .new) 1 ∧
      (s₀.run reusing).pool.order = [1, 0] ∧ s₀.FellBefore reusing 1 0 := by
  intro d s₀
  have has : s₀.Along Orderly (reusing ++ [.call .new]) :=
    along_and.mpr ⟨by decide +kernel, along_pinsFit (m := 0) _ (fun _ => Nat.le_refl _) (by decide)⟩
  have hevicts : (s₀.run reusing).Evicts (.call .new) 1 :=
    ⟨by decide +kernel, Or.inl rfl, Or.inl (by decide +kernel)⟩
  have hzero : (s₀.run reusing).pool.pinCount? 0 = some 0 := by decide +kernel
  obtain ⟨-, ⟨-, -, hfirst⟩, -⟩ :=
    (evicts_least_recent d none reusing (.call .new) s₀ _ rfl rfl has).1 1 hevicts
  exact ⟨has, hevicts, by decide +kernel, hfirst 0 (by decide) hzero⟩

end Session

end BufferPool
