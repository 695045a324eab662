import BufferPool.Disk.Memory
import BufferPool.Proofs.Disk.Memory
import BufferPool.Proofs.Guard.Holding

/-! # The pool is a transparent cache

Whatever is evicted, flushed, deleted, refused by the disk and handed out again
in between, a guard of a page that was created and not deleted shows what was
last written to the page.
-/

namespace BufferPool.Clients

open Pool Storage

variable {δ : Type} [Device δ] {n : Nat}

section Guards

variable {s : Clients δ n} {p : PageId} {g : Guard n}

omit [Device δ] in
theorem owed_append (session : Session δ n) (contents : PageId → Option Page)
    (hg : g.dirty = false) (p : PageId) :
    Owed ⟨session, s.guards ++ [some g], contents⟩ p ↔ s.Owed p := by
  constructor
  · rintro ⟨g', hm, hp, hd⟩
    rcases List.mem_append.mp hm with hm | hm
    · exact ⟨g', hm, hp, hd⟩
    · obtain rfl := Option.some.inj (List.mem_singleton.mp hm)
      rw [hg] at hd
      cases hd
  · rintro ⟨g', hm, hp, hd⟩
    exact ⟨g', List.mem_append_left _ hm, hp, hd⟩

variable {i : Nat}

omit [Device δ] in
theorem owed_set_iff {g? : Option (Guard n)} (session : Session δ n)
    (contents : PageId → Option Page) (hi : s.guards[i]? = some (some g)) (hp : g.page ≠ p)
    (hg : ∀ g', g? = some g' → g'.page = g.page) :
    Owed ⟨session, s.guards.set i g?, contents⟩ p ↔ s.Owed p := by
  constructor
  · rintro ⟨g', hm, hp', hd⟩
    rcases List.mem_or_eq_of_mem_set hm with hm | rfl
    · exact ⟨g', hm, hp', hd⟩
    · exact absurd ((hg g' rfl).symm.trans hp') hp
  · rintro ⟨g', hm, rfl, hd⟩
    refine ⟨g', Session.mem_set_of_ne hi hm ?_ _, rfl, hd⟩
    rintro ⟨⟩
    exact hp rfl

end Guards

variable [Lawful δ]

/-- The books of the clients balance: guarded pages sit in the frames that the guards know, every
guard is a pin, and no contents are lost. -/
structure Clear (s : Clients δ n) : Prop where
  valid : s.session.Valid
  backed : s.session.Backed
  inFrame : ∀ g, some g ∈ s.guards → s.session.pool.frameOf? g.page = some g.frame
  handed : ∀ p, (s.session.pins p).handed = (s.session.pins p).returned + s.guardsOn p
  kept : ∀ p x, s.contents p = some x → s.session.Kept p {x} True (s.Owed p)

namespace Clear

variable {s : Clients δ n} {p : PageId} {g : Guard n} {a : Action n}

theorem holds (h : s.Clear) : s.Holds := ⟨h.valid, h.inFrame, h.handed⟩

theorem of_holds (h : s.Holds) (hb : s.session.Backed)
    (hkept : ∀ p x, s.contents p = some x → s.session.Kept p {x} True (s.Owed p)) : s.Clear :=
  ⟨h.valid, hb, h.inFrame, h.handed, hkept⟩

theorem kept_step (h : s.Clear) (ha : s.session.Proper a)
    (hput : ∀ f offset new, a ≠ .put f offset new)
    (hunpin : ∀ dirty, a ≠ .call (.unpin p dirty)) (hdel : ¬s.session.Deletes p a) {x : Page}
    (hx : s.contents p = some x) : (s.session.step a).Kept p {x} True (s.Owed p) :=
  (h.kept p x hx).step h.valid h.backed ha hdel
    (fun f offset new he => absurd he (hput f offset new)) fun _ => hunpin

omit [Lawful δ] in
theorem not_deletes {c : Call} (hc : c ≠ .delete p) : ¬s.session.Deletes p (.call c) := by
  rintro ⟨he, -⟩
  exact hc (Action.call.inj he)

theorem kept_call (h : s.Clear) {c : Call} (ha : s.session.Proper (.call c))
    (hunpin : ∀ dirty, c ≠ .unpin p dirty) (hdel : c ≠ .delete p) {x : Page}
    (hx : s.contents p = some x) :
    (s.session.step (.call c)).Kept p {x} True (s.Owed p) := by
  refine h.kept_step ha (by simp) (fun dirty he => ?_) (not_deletes hdel) hx
  exact hunpin dirty (Action.call.inj he)

theorem act (h : s.Clear) (ha : s.session.Proper a)
    (hput : ∀ f offset new, a ≠ .put f offset new)
    (hunpin : ∀ p dirty, a ≠ .call (.unpin p dirty))
    (hpins : (s.session.step a).pins = s.session.pins) (contents : PageId → Option Page)
    (hcontents : ∀ p x, contents p = some x → s.contents p = some x ∧ ¬s.session.Deletes p a) :
    Clear ⟨s.session.step a, s.guards, contents⟩ := by
  refine of_holds (h.holds.act ha.1 hunpin hpins) (h.backed.step h.valid ha) fun p x hx => ?_
  obtain ⟨hx, hdel⟩ := hcontents p x hx
  exact h.kept_step ha hput (hunpin p) hdel hx

theorem handOut (h : s.Clear) (ha : s.session.Proper a) (hg : g.dirty = false)
    {contents : PageId → Option Page}
    (hholds : Holds ⟨s.session.step a, s.guards ++ [some g], contents⟩)
    (hcontents : ∀ p x, contents p = some x → (s.session.step a).Kept p {x} True (s.Owed p)) :
    Clear ⟨s.session.step a, s.guards ++ [some g], contents⟩ :=
  of_holds hholds (h.backed.step h.valid ha) fun p x hx =>
    (hcontents p x hx).imp (owed_append _ _ hg p).symm

theorem fetch_some (h : s.Clear) {access : Access} {f : Fin n} (haccess : access.dirty = false)
    (ha : s.session.Proper (.call (.fetch p))) (hf : (s.session.pool.fetch p).1 = .ok (some f)) :
    Clear ⟨s.session.step (.call (.fetch p)), s.guards ++ [some ⟨p, f, access⟩], s.contents⟩ :=
  h.handOut (g := ⟨p, f, access⟩) ha haccess (h.holds.fetch_some access ha.1 hf) fun _ _ hx =>
    h.kept_call ha (by simp) (by simp) hx

theorem fetch_none (h : s.Clear) (ha : s.session.Proper (.call (.fetch p)))
    (hf : ∀ f, (s.session.pool.fetch p).1 ≠ .ok (some f)) :
    Clear (s.act (.call (.fetch p))) :=
  h.act ha (by simp) (by simp) (Holds.pins_fetch_none hf) s.contents
    fun q x hx => ⟨hx, not_deletes (by simp)⟩

theorem fetch (h : s.Clear) {access : Access} (haccess : access.dirty = false)
    (ha : s.session.Proper (.call (.fetch p))) :
    Clear (s.take (.fetch p) (s.session.pool.fetchGuarded p access).1
      (s.session.pool.fetchGuarded p access).2) := by
  rw [take_fetch]
  rcases hf : (s.session.pool.fetch p).1 with e | _ | f
  · exact h.fetch_none ha fun f => by simp [hf]
  · exact h.fetch_none ha fun f => by simp [hf]
  · exact h.fetch_some haccess ha hf

theorem kept_zero {t : Session δ n} {f : Fin n} (hp : t.pool.frameOf? p = some f)
    (hx : t.pool.frames.get f = ⟨some p, 1, false, Page.zero⟩) (hz : s.guardsOn p = 0)
    (hstored : page? t.pool.device p = some Page.zero) :
    t.Kept p {Page.zero} True (s.Owed p) := by
  refine ⟨fun g hg => ?_, ⟨Page.zero, hstored, Or.inl rfl⟩, ?_⟩
  · obtain rfl := Option.some.inj (hp.symm.trans hg)
    rw [hx]
    rfl
  · rintro ⟨g, hg, hpage, -⟩
    have := guardsOn_pos_iff.mpr ⟨g, hg, hpage⟩
    omega

theorem kept_new (h : s.Clear) (hzero : ∀ x, Fresh δ x → x = Page.zero) {f : Fin n}
    (ha : s.session.Proper (.call .new)) (hnew : s.session.pool.new.1 = .ok (some f)) : ∃ p,
      (s.session.step (.call .new)).pool.frameOf? p = some f ∧
      (s.session.step (.call .new)).pool.frames.get f = ⟨some p, 1, false, Page.zero⟩ ∧
      s.guardsOn p = 0 ∧ (s.session.step (.call .new)).Kept p {Page.zero} True (s.Owed p) := by
  obtain ⟨p, hp, hx, ⟨x, hfresh, hstored⟩, hheld⟩ := h.backed.step_new h.valid ha hnew
  have hz := h.holds.guardsOn_eq_zero hheld
  exact ⟨p, hp, hx, hz, kept_zero hp hx hz (hzero x hfresh ▸ hstored)⟩

theorem created {f : Fin n} (h : s.Clear) (ha : s.session.Proper (.call .new))
    (hnew : s.session.pool.new.1 = .ok (some f))
    (hpage : ((s.session.step (.call .new)).pool.frames.get f).page = some p)
    (hpins : (s.session.step (.call .new)).pins = Function.update s.session.pins p .first)
    {contents : PageId → Option Page}
    (hself : ∀ x, contents p = some x →
      x = Page.zero ∧ page? (s.session.step (.call .new)).pool.device p = some Page.zero)
    (hother : ∀ q, q ≠ p → contents q = s.contents q) :
    Clear ⟨s.session.step (.call .new), s.guards ++ [some ⟨p, f, .write false⟩], contents⟩ := by
  obtain ⟨q, hq, hx, -, hheld⟩ := h.backed.step_new h.valid ha hnew
  obtain rfl : q = p := by
    rw [hx] at hpage
    exact Option.some.inj hpage
  have hz := h.holds.guardsOn_eq_zero hheld
  refine h.handOut ha rfl (h.holds.created ha.1 hnew hpage hpins) fun r x hr => ?_
  by_cases hrq : r = q
  · subst hrq
    obtain ⟨rfl, hstored⟩ := hself x hr
    exact kept_zero hq hx hz hstored
  · exact h.kept_call ha (by simp) (by simp) ((hother r hrq).symm.trans hr)

theorem create (h : s.Clear) (hzero : ∀ x, Fresh δ x → x = Page.zero)
    (ha : s.session.Proper (.call .new)) : Clear (s.step .create) := by
  rcases s.step_create with ⟨p, f, hnew, hpage, hpins, -, heq⟩ | ⟨hpins, -, heq⟩
  · rw [heq]
    refine h.created ha hnew hpage hpins (fun x hx => ?_) fun q hq => Function.update_of_ne hq ..
    obtain ⟨q, -, hx', ⟨y, hfresh, hstored⟩, -⟩ := h.backed.step_new h.valid ha hnew
    obtain rfl : q = p := by
      rw [hx'] at hpage
      exact Option.some.inj hpage
    rw [Function.update_self, Option.some.injEq] at hx
    exact ⟨hx.symm, hzero y hfresh ▸ hstored⟩
  · rw [heq]
    exact h.act ha (by simp) (by simp) hpins s.contents fun q x hx => ⟨hx, not_deletes (by simp)⟩

theorem put {i offset : Nat} {new : Bytes} (h : s.Clear) (hi : s.guards[i]? = some (some g))
    (ha : s.session.Proper (.put g.frame offset new)) {g' : Guard n} (hpage : g'.page = g.page)
    (hframe : g'.frame = g.frame) (hdirty : g'.dirty = true) {contents : PageId → Option Page}
    (hself : ∀ x, contents g.page = some x → page? s.session.pool.device g.page ≠ none ∧
      x = (g.data s.session.pool).write offset new)
    (hother : ∀ q, q ≠ g.page → contents q = s.contents q) :
    Clear ⟨s.session.step (.put g.frame offset new), s.guards.set i (some g'), contents⟩ := by
  refine of_holds (h.holds.replace hi hpage hframe (h.valid.step ha.1) (fun _ => rfl) rfl)
    (h.backed.step h.valid ha) fun p x hx => ?_
  have hg := List.mem_of_getElem? hi
  by_cases hp : g.page = p
  · subst hp
    obtain ⟨hstored, rfl⟩ := hself x hx
    have hmem : some g' ∈ s.guards.set i (some g') :=
      List.mem_set (List.getElem?_eq_some_iff.mp hi).1 _
    exact Session.Kept.overwrite hstored (h.inFrame g hg) (h.holds.held hg)
      ⟨g', hmem, hpage, hdirty⟩
  · have hx := (hother p (Ne.symm hp)).symm.trans hx
    refine Session.Kept.imp ?_ (owed_set_iff _ _ hi hp fun _ he => ?_).symm
    · apply (h.kept p x hx).put
      intro k hk
      have hne := h.valid.sound.frame_ne hp (h.inFrame g hg) hk
      rw [writeFrame, getElem_modifyFrame, if_neg hne]
      exact (h.kept p x hx).mem k hk
    · obtain rfl := Option.some.inj he
      exact hpage

theorem drop {i : Nat} (h : s.Clear) (hi : s.guards[i]? = some (some g))
    (ha : s.session.Proper (.call (.unpin g.page g.dirty))) :
    Clear ⟨s.session.step (.call (.unpin g.page g.dirty)), s.guards.set i none, s.contents⟩ := by
  have hg := List.mem_of_getElem? hi
  have hp := h.inFrame g hg
  have hpins := h.holds.pins_ne_zero hg
  refine of_holds (h.holds.drop hi ha.1) (h.backed.step h.valid ha) fun p x hx => ?_
  by_cases hpx : g.page = p
  · subst hpx
    refine (h.kept g.page x hx).unpin hp hpins ?_ ?_
    · rintro ⟨g', hm, hp', hd⟩
      by_cases he : g' = g
      · subst he
        exact Or.inl hd
      · refine Or.inr ⟨g', Session.mem_set_of_ne hi hm ?_ _, hp', hd⟩
        rintro ⟨⟩
        exact he rfl
    · rintro ⟨g', hm, hp', -⟩
      have hpos := guardsOn_pos_iff.mpr ⟨g', hm, hp'⟩
      have heq := h.handed g.page
      have hc := guardsOn_set (s.session.step (.call (.unpin g.page g.dirty))) s.contents hi none
        g.page
      simp only [beq_self_eq_true, Bool.toNat_true, Option.any_none, Bool.toNat_false] at hc
      omega
  · refine Session.Kept.imp (h.kept_call ha (fun dirty he => ?_) (by simp) hx)
      (owed_set_iff _ _ hi hpx (by simp)).symm
    exact hpx (Call.unpin.inj he).1

theorem delete (h : s.Clear) (ha : s.session.Proper (.call (.delete p))) :
    Clear (s.step (.delete p)) := by
  apply h.act ha (by simp) (by simp) rfl _
  intro q x hx
  split at hx
  · by_cases hq : q = p
    · subst hq
      rw [Function.update_self] at hx
      cases hx
    · rw [Function.update_of_ne hq] at hx
      exact ⟨hx, not_deletes fun he => hq (Call.delete.inj he).symm⟩
  · rename_i hok
    refine ⟨hx, ?_⟩
    rintro ⟨⟨⟩, hdel⟩
    exact hok hdel

theorem quiet (h : s.Clear) (ha : IsQuiet a) (hfit : (s.act a).session.PinsFit)
    (hroom : Room s.session.pool.device 1) : Clear (s.act a) := by
  refine h.act ⟨⟨ha.fair _, hfit⟩, hroom⟩ ?_ ?_ (ha.pins _) _ fun p x hx => ⟨hx, ?_⟩
  · rintro f offset new rfl
    exact ha
  · rintro p dirty rfl
    exact ha
  · rintro ⟨rfl, -⟩
    exact ha

theorem step {d : Deed} (h : s.Clear) (hzero : ∀ x, Fresh δ x → x = Page.zero) (hd : s.Fits d) :
    Clear (s.step d) := by
  obtain ⟨hfit, hroom⟩ := hd
  cases d with
  | read p => exact h.fetch rfl ⟨⟨trivial, hfit⟩, hroom⟩
  | write p => exact h.fetch rfl ⟨⟨trivial, hfit⟩, hroom⟩
  | create => exact h.create hzero ⟨⟨trivial, hfit⟩, hroom⟩
  | put i offset new =>
    rcases hi : s.guards[i]? with _ | _ | g
    · simpa only [Clients.step, hi] using h
    · simpa only [Clients.step, hi] using h
    · rcases hw : g.write? offset new s.session.pool with _ | ⟨g', b⟩
      · simpa only [Clients.step, hi, hw] using h
      · simp only [Clients.step, hi, hw] at hfit ⊢
        obtain ⟨hpage, hframe, hdirty, rfl⟩ := of_write? hw
        refine h.put hi ⟨⟨trivial, hfit⟩, hroom⟩ hpage hframe hdirty (fun x hx => ?_)
          fun q hq => Function.update_of_ne (hpage ▸ hq) ..
        rw [hpage, Function.update_self, Option.map_eq_some_iff] at hx
        obtain ⟨y, hy, rfl⟩ := hx
        have hg := List.mem_of_getElem? hi
        obtain ⟨z, hz, -⟩ := (h.kept g.page y hy).stored
        refine ⟨Option.ne_none_iff_exists'.mpr ⟨z, hz⟩, ?_⟩
        rw [← Set.mem_singleton_iff.mp ((h.kept g.page y hy).mem g.frame (h.inFrame g hg))]
        rfl
  | drop i =>
    rcases hi : s.guards[i]? with _ | _ | g
    · simpa only [Clients.step, hi] using h
    · simpa only [Clients.step, hi] using h
    · simp only [Clients.step, hi] at hfit ⊢
      exact h.drop hi ⟨⟨Or.inr (h.holds.held (List.mem_of_getElem? hi)), hfit⟩, hroom⟩
  | flush | flushAll | beginFlush | writeWindow | closeWindow => exact h.quiet trivial hfit hroom
  | delete p => exact h.delete ⟨⟨trivial, hfit⟩, hroom⟩

theorem run {ds : List Deed} (h : s.Clear) (hzero : ∀ x, Fresh δ x → x = Page.zero)
    (hds : s.Along Fits ds) : Clear (s.run ds) := by
  induction ds generalizing s with
  | nil => exact h
  | cons d ds ih => exact ih (h.step hzero hds.1) hds.2

theorem start {c : Config} {d : δ} {log : Option Log} {b : Pool δ c.poolSize}
    (hb : Pool.ofConfig c d log = .ok b) (hok : Ok d) : Clear (start b) where
  valid := .start hb
  backed := .start hb hok
  inFrame := nofun
  handed _ := rfl
  kept := nofun

theorem data_eq {x : Page} (h : s.Clear) (hg : some g ∈ s.guards)
    (hx : s.contents g.page = some x) : g.data s.session.pool = x :=
  (h.kept g.page x hx).mem g.frame (h.inFrame g hg)

theorem along_fits {ds : List Deed} {m : Nat} (h : s.Clear)
    (hzero : ∀ x, Fresh δ x → x = Page.zero)
    (hm : ∀ p, (s.session.pins p).held + s.session.windowsOn p ≤ m)
    (hlt : m + ds.length < UInt32.size) (hroom : Room s.session.pool.device ds.length) :
    s.Along Fits ds := by
  induction ds generalizing s m with
  | nil => trivial
  | cons d ds ih =>
    rw [List.length_cons] at hlt hroom
    have hroom₁ := room_of_le (Nat.succ_le_succ (Nat.zero_le ds.length)) hroom
    have hheld := h.holds.held_step d hm
    have hfit : (s.step d).session.PinsFit := fun p => (hheld p).trans_lt (by omega)
    have hleft : Room (s.step d).session.pool.device ds.length := by
      rcases h.holds.session_step d with heq | ⟨a, hfair, -, heq⟩ <;> rw [heq] at hfit ⊢
      · exact room_of_le (Nat.le_succ _) hroom
      · exact h.backed.room_step h.valid ⟨⟨hfair, hfit⟩, hroom₁⟩ hroom
    exact ⟨⟨hfit, hroom₁⟩, ih (h.step hzero ⟨hfit, hroom₁⟩) hheld (by omega) hleft⟩

theorem of_reachable {c : Config} {s : Clients δ c.poolSize}
    (hzero : ∀ x, Fresh δ x → x = Page.zero) (h : s.Reachable) : s.Clear := by
  obtain ⟨d, log, b, ds, hok, hb, hds, rfl⟩ := h
  exact (Clear.start hb hok).run hzero hds

theorem fits_run {c : Config} {d : δ} {log : Option Log} {b : Pool δ c.poolSize}
    (ds : List Deed) (hzero : ∀ x, Fresh δ x → x = Page.zero) (hok : Ok d)
    (hb : Pool.ofConfig c d log = .ok b) (hlt : ds.length < UInt32.size)
    (hroom : Room d ds.length) :
    (Clients.start b).Along Fits ds := by
  apply (start hb hok).along_fits (m := 0) hzero (fun _ => Nat.le_refl 0) (by omega)
  obtain ⟨r, -, rfl⟩ := exists_create_of_ofConfig hb
  exact hroom

end Clear

/-- Over a memory disk, guards show what was last written to their pages through any guard, from the
moment they are handed out. A guard of a new page is clean and shows zeros. -/
theorem transparent {c : Config} {s : Clients (FaultyDisk MemoryDisk) c.poolSize}
    (h : s.Reachable) :
    (∀ g x, some g ∈ s.guards → s.contents g.page = some x → g.data s.session.pool = x) ∧
    (∀ p access g b x, access.dirty = false → s.Fits (.read p) → s.contents p = some x →
      s.session.pool.fetchGuarded p access = (.ok (some g), b) → g.page = p ∧ g.data b = x) ∧
    ∀ g b, s.Fits .create → s.session.pool.newGuard = (.ok (some g), b) →
      g.data b = Page.zero ∧ (b.frames.get g.frame).dirty = false ∧ g.dirty = false := by
  have hs := Clear.of_reachable (fun _ => id) h
  refine ⟨fun g x => hs.data_eq, fun p access g b x haccess hfits hx hf => ?_,
    fun g b hfits hnew => ?_⟩
  · have ht := hs.fetch haccess ⟨⟨trivial, hfits.1⟩, hfits.2⟩
    rw [hf] at ht
    obtain rfl := page_of_fetchGuarded hf
    exact ⟨rfl, ht.data_eq (List.mem_append_right _ (List.mem_singleton_self _)) hx⟩
  · obtain ⟨hn, hg⟩ := of_newGuard hnew
    obtain ⟨p, -, hx, -⟩ := hs.kept_new (fun _ => id) ⟨⟨trivial, hfits.1⟩, hfits.2⟩
      (congrArg Prod.fst hn)
    simp only [Session.step, after, hn] at hx
    exact ⟨congrArg Frame.data hx, congrArg Frame.dirty hx, hg⟩

def rereading : List Deed := [.create, .put 0 0 [7], .drop 0, .create, .create, .drop 1, .read 0]

def discarding : List Deed := [.create, .put 0 0 [7], .drop 0, .delete 0]

/-- In a pool of one frame, on a device that fails its first write, a page that is read again comes
back with its bytes, and a new page with the id and the frame of a deleted one with zeros. -/
theorem transparent_rereading : ∃ b : Pool (FaultyDisk MemoryDisk) 1,
    Pool.ofConfig ⟨1, .lru⟩ { device := .empty, writes := .burst 0 1 fun _ => .invalidPageId }
      none = .ok b ∧
    (⟨0, 0, .read⟩ : Guard 1).data ((start b).run rereading).session.pool =
      Page.zero.write 0 [7] ∧
    (⟨0, 0, .write false⟩ : Guard 1).data ((start b).run discarding).session.pool.newGuard.2 =
      Page.zero := by
  have hok : Ok ({ device := .empty, writes := .burst 0 1 fun _ => .invalidPageId } :
      FaultyDisk MemoryDisk) :=
    ⟨MemoryDisk.ordered_empty, FaultyDisk.keepsPages_burst 0 1 fun _ => rfl⟩
  have h := Clear.fits_run rereading (fun _ => id) hok
    (show Pool.ofConfig ⟨1, .lru⟩ _ none = .ok _ from rfl) (by decide)
    (MemoryDisk.room_empty (by decide))
  have h' := Clear.fits_run (discarding ++ [.create]) (fun _ => id) hok
    (show Pool.ofConfig ⟨1, .lru⟩ _ none = .ok _ from rfl) (by decide)
    (MemoryDisk.room_empty (by decide))
  refine ⟨_, rfl, ?_, ?_⟩
  · exact (transparent (c := ⟨1, .lru⟩) ⟨_, none, _, rereading, hok, rfl, h, rfl⟩).1
      ⟨0, 0, .read⟩ _ (by decide +kernel) rfl
  · obtain ⟨h₁, h₂, h₃, h₄, h₅, -⟩ := h'
    exact ((transparent (c := ⟨1, .lru⟩) ⟨_, none, _, discarding, hok, rfl,
      ⟨h₁, h₂, h₃, h₄, trivial⟩, rfl⟩).2.2 ⟨0, 0, .write false⟩ _ h₅ rfl).1

end BufferPool.Clients
