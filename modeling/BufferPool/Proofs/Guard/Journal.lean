import BufferPool.Proofs.Disk.Reopened
import BufferPool.Proofs.Guard.Transparent
import BufferPool.Proofs.Session.Unsaved

/-! # Journals

A file disk can hand out a page with the bytes of a deleted one. A journal of
what clients do says what a page shows all the same: the bytes that a guard
left when it was last written through, or zeros if it was never written and its
place was blank. What was written is in the file, or is still to be written.
-/

namespace BufferPool

open Pool Storage

/-- What is on record of a page: whether its place held zeros when it was created, and what it
showed after the last write through a guard. -/
structure Entry where
  blank : Bool
  last : Option Page := none

/-- What the page should show, if that is certain. -/
def Entry.bytes? (e : Entry) : Option Page :=
  e.last.or (if e.blank then some Page.zero else none)

theorem Entry.exists_bytes {e : Entry} (hb : e.blank = true) : ∃ x, e.bytes? = some x := by
  rcases hl : e.last with _ | x
  · exact ⟨Page.zero, by rw [bytes?, hl, Option.none_or, if_pos hb]⟩
  · exact ⟨x, by rw [bytes?, hl, Option.some_or]⟩

/-- An entry for every page that was created and not deleted since. -/
abbrev Journal := PageId → Option Entry

namespace Clients

section Definitions

variable {n : Nat}

def note (s : Clients FileDisk n) (j : Journal) : Deed → Journal
  | .create =>
    match s.session.pool.newGuard with
    | (.ok (some g), b) =>
      Function.update j g.page (some ⟨decide (b.device.slot g.page = Page.zero), none⟩)
    | _ => j
  | .put i offset new =>
    match s.guards[i]? with
    | some (some g) =>
      match g.write? offset new s.session.pool with
      | some (g, b) =>
        Function.update j g.page ((j g.page).map fun e => { e with last := some (g.data b) })
      | none => j
    | _ => j
  | .delete p => if (s.session.pool.delete p).1.isOk then Function.update j p none else j
  | .read _ | .write _ | .drop _ | .flush _ | .flushAll | .beginFlush _ | .writeWindow _
  | .closeWindow _ => j

def journal (s : Clients FileDisk n) (j : Journal) : List Deed → Journal
  | [] => j
  | d :: ds => (s.step d).journal (s.note j d) ds

def recalled (s : Clients FileDisk n) (j : Journal) : Clients FileDisk n :=
  { s with contents := fun p => (j p).bind Entry.bytes? }

end Definitions

section Owed

variable {δ : Type} [Device δ] [Lawful δ] {n : Nat} {s : Clients δ n} {d : Deed} {p : PageId}

theorem Clear.owed_step (h : s.Clear) (ho : s.Owed p) :
    (s.step d).Owed p ∨ (s.step d).session.Unsaved p := by
  obtain ⟨g, hg, rfl, hdirty⟩ := ho
  cases d with
  | read q | write q =>
    refine Or.inl ⟨g, ?_, rfl, hdirty⟩
    simp only [Clients.step, take]
    split
    · exact List.mem_append_left _ hg
    · exact hg
  | create =>
    refine Or.inl ⟨g, ?_, rfl, hdirty⟩
    rcases s.step_create with ⟨p, f, -, -, -, -, heq⟩ | ⟨-, -, heq⟩ <;> rw [heq]
    · exact List.mem_append_left _ hg
    · exact hg
  | put i offset new =>
    apply Or.inl
    rcases hi : s.guards[i]? with _ | _ | g'
    · exact ⟨g, by simpa only [Clients.step, hi] using hg, rfl, hdirty⟩
    · exact ⟨g, by simpa only [Clients.step, hi] using hg, rfl, hdirty⟩
    · rcases hw : g'.write? offset new s.session.pool with _ | ⟨g'', b⟩
      · exact ⟨g, by simpa only [Clients.step, hi, hw] using hg, rfl, hdirty⟩
      · simp only [Clients.step, hi, hw]
        obtain ⟨hpage, -, hdirty', -⟩ := of_write? hw
        by_cases he : g = g'
        · subst he
          exact ⟨g'', List.mem_set (List.getElem?_eq_some_iff.mp hi).1 _, hpage, hdirty'⟩
        · refine ⟨g, Session.mem_set_of_ne hi hg ?_ _, rfl, hdirty⟩
          exact fun hs => he (Option.some.inj hs)
  | drop i =>
    rcases hi : s.guards[i]? with _ | _ | g'
    · exact Or.inl ⟨g, by simpa only [Clients.step, hi] using hg, rfl, hdirty⟩
    · exact Or.inl ⟨g, by simpa only [Clients.step, hi] using hg, rfl, hdirty⟩
    · simp only [Clients.step, hi]
      by_cases he : g = g'
      · subst he
        refine Or.inr (Or.inl ⟨g.frame, ?_, ?_⟩)
        · exact (frameOf?_unpin ..).trans (h.inFrame g hg)
        · simp only [Guard.drop, unpin_eq (h.inFrame g hg) (h.holds.pins_ne_zero hg),
            getElem_modifyFrame, if_true, hdirty, Bool.or_true]
      · refine Or.inl ⟨g, Session.mem_set_of_ne hi hg ?_ _, rfl, hdirty⟩
        exact fun hs => he (Option.some.inj hs)
  | flush | flushAll | delete | beginFlush | writeWindow | closeWindow =>
    exact Or.inl ⟨g, hg, rfl, hdirty⟩

end Owed

variable {n : Nat} {s : Clients FileDisk n} {j : Journal} {d : Deed} {p : PageId}

/-- The journal is true: the certain bytes are kept, pages in it are live, and what was written is
in the file or is still to be written. -/
structure Recorded (s : Clients FileDisk n) (j : Journal) : Prop where
  clear : (s.recalled j).Clear
  whole : s.session.pool.device.Whole
  live : ∀ p, j p ≠ none → page? s.session.pool.device p ≠ none
  due : ∀ p e, j p = some e → e.last ≠ none →
    s.session.pool.device.InFile p ∨ s.session.Unsaved p ∨ s.Owed p
  created : ∀ p, j p = none ↔ s.contents p = none
  contents : ∀ p e, j p = some e → e.blank = true → s.contents p = e.bytes?

namespace Recorded

theorem recalled_step (s : Clients FileDisk n) (j : Journal) (d : Deed) :
    ∃ contents, (s.recalled j).step d = { s.step d with contents } :=
  s.step_contents (s.recalled j).contents d

theorem session_step (h : s.Recorded j) (d : Deed) : (s.step d).session = s.session ∨
    ∃ a, s.session.Fair a ∧ (∀ p, a = .call (.delete p) → d = .delete p) ∧
      (s.step d).session = s.session.step a := by
  obtain ⟨contents, heq⟩ := recalled_step s j d
  have hstep := h.clear.holds.session_step d
  rw [heq] at hstep
  exact hstep

/-- A deed leads the file on. A page that it does not delete stays live, and what was to be written
is, or still is to be. -/
theorem progress (h : s.Recorded j) (hd : s.Fits d) :
    (s.step d).session.pool.device.Whole ∧
      ∀ q, d ≠ .delete q → page? s.session.pool.device q ≠ none →
        page? (s.step d).session.pool.device q ≠ none ∧
        (s.session.pool.device.InFile q ∨ s.session.Unsaved q ∨ s.Owed q →
          (s.step d).session.pool.device.InFile q ∨ (s.step d).session.Unsaved q ∨
            (s.step d).Owed q) := by
  have howed : ∀ q, s.Owed q → (s.step d).session.Unsaved q ∨ (s.step d).Owed q := by
    intro q ho
    obtain ⟨contents, heq⟩ := recalled_step s j d
    have hstep := h.clear.owed_step (d := d) ho
    rw [heq] at hstep
    exact hstep.symm
  rcases h.session_step d with hsame | ⟨a, hfair, hdel, hstep⟩
  · rw [hsame] at howed ⊢
    refine ⟨h.whole, fun q _ hq => ⟨hq, ?_⟩⟩
    rintro (hin | hu | ho)
    · exact Or.inl hin
    · exact Or.inr (Or.inl hu)
    · exact Or.inr (howed q ho)
  · have hproper : s.session.Proper a := by
      refine ⟨⟨hfair, ?_⟩, hd.2⟩
      rw [← hstep]
      exact hd.1
    rw [hstep] at howed ⊢
    have hv : s.session.Valid := h.clear.valid
    obtain ⟨hwhole, hle⟩ := h.whole.leads (hv.leads_step hproper.1)
    refine ⟨hwhole, fun q hne hq => ?_⟩
    have hnot : ¬s.session.Deletes q a := fun hd => hne (hdel q hd.1)
    have halong : s.session.Along Session.Proper [a] := ⟨hproper, trivial⟩
    refine ⟨Session.stored_run hv h.clear.backed hq halong ⟨hnot, trivial⟩, ?_⟩
    rintro (hin | hu | ho)
    · exact Or.inl (hin.mono hle)
    · rcases hu.step hv h.clear.backed hproper hnot hq with hu | hw
      · exact Or.inr (Or.inl hu)
      · exact Or.inl (h.whole.inFile_of_writes hw)
    · exact Or.inr (howed q ho)

theorem keep (h : s.Recorded j) (hd : s.Fits d) (hdel : ∀ p, d ≠ .delete p)
    (hnote : s.note j d = j) (hcontents : (s.step d).contents = s.contents)
    (clear : ((s.step d).recalled j).Clear) : (s.step d).Recorded (s.note j d) := by
  obtain ⟨hwhole, hpages⟩ := h.progress hd
  rw [hnote]
  refine ⟨clear, hwhole, fun p hp => ?_, fun p e hp he => ?_, fun p => ?_, fun p e hp hb => ?_⟩
  · exact (hpages p (hdel p) (h.live p hp)).1
  · exact (hpages p (hdel p) (h.live p (by simp [hp]))).2 (h.due p e hp he)
  · rw [hcontents]
    exact h.created p
  · rw [hcontents]
    exact h.contents p e hp hb

theorem stay (h : s.Recorded j) (heq : s.step d = s) (hnote : s.note j d = j) :
    (s.step d).Recorded (s.note j d) := by
  rwa [heq, hnote]

theorem quiet {a : Action n} (h : s.Recorded j) (hd : s.Fits d) (hdel : ∀ p, d ≠ .delete p)
    (ha : IsQuiet a) (hstep : s.step d = s.act a) (hnote : s.note j d = j) :
    (s.step d).Recorded (s.note j d) := by
  refine h.keep hd hdel hnote (by rw [hstep]; rfl) ?_
  have hfit := hd.1
  rw [hstep] at hfit ⊢
  exact h.clear.quiet ha hfit hd.2

theorem amend {e? : Option Entry} (h : s.Recorded j) (hd : s.Fits d)
    (hnote : s.note j d = Function.update j p e?) (hdel : ∀ q, q ≠ p → d ≠ .delete q)
    (hcontents : ∀ q, q ≠ p → (s.step d).contents q = s.contents q)
    (hcreated : e? = none ↔ (s.step d).contents p = none)
    (hself : ∀ e, e? = some e → page? (s.step d).session.pool.device p ≠ none ∧
      (e.last ≠ none → (s.step d).Owed p) ∧
      (e.blank = true → (s.step d).contents p = e.bytes?))
    (clear : ((s.step d).recalled (Function.update j p e?)).Clear) :
    (s.step d).Recorded (s.note j d) := by
  obtain ⟨hwhole, hpages⟩ := h.progress hd
  rw [hnote]
  refine ⟨clear, hwhole, fun q hq => ?_, fun q e hq he => ?_, fun q => ?_, fun q e hq hb => ?_⟩
  all_goals by_cases hqp : q = p
  · obtain ⟨e, he⟩ := Option.ne_none_iff_exists'.mp hq
    rw [hqp, Function.update_self] at he
    exact hqp ▸ (hself e he).1
  · rw [Function.update_of_ne hqp] at hq
    exact (hpages q (hdel q hqp) (h.live q hq)).1
  · rw [hqp, Function.update_self] at hq
    exact hqp ▸ Or.inr (Or.inr ((hself e hq).2.1 he))
  · rw [Function.update_of_ne hqp] at hq
    exact (hpages q (hdel q hqp) (h.live q (by simp [hq]))).2 (h.due q e hq he)
  · rw [hqp, Function.update_self]
    exact hcreated
  · rw [Function.update_of_ne hqp, hcontents q hqp]
    exact h.created q
  · rw [hqp, Function.update_self] at hq
    exact hqp ▸ (hself e hq).2.2 hb
  · rw [Function.update_of_ne hqp] at hq
    rw [hcontents q hqp]
    exact h.contents q e hq hb

theorem create (h : s.Recorded j) (hd : s.Fits .create) :
    (s.step .create).Recorded (s.note j .create) := by
  have ha : s.session.Proper (.call .new) := ⟨⟨trivial, hd.1⟩, hd.2⟩
  rcases s.step_create with ⟨p, f, hnew, hpage, hpins, hguard, heq⟩ | ⟨hpins, hnone, heq⟩
  · obtain ⟨q, -, hx, ⟨x, -, hstored⟩, -⟩ := h.clear.backed.step_new h.clear.valid ha hnew
    obtain rfl : q = p := by
      have hx : ((s.session.step (.call .new)).pool.frames.get f).page = some q := by
        rw [show (s.session.step (.call .new)).pool.frames.get f = _ from hx]
      exact Option.some.inj (hx.symm.trans hpage)
    have hstored' : page? (s.step .create).session.pool.device q = some x := by
      rw [heq]
      exact hstored
    have hslot := FileDisk.slot_of_stored (h.progress hd).1.ordered hstored'
    have hnote : s.note j .create =
        Function.update j q (some ⟨decide (x = Page.zero), none⟩) := by
      rw [← hslot, heq]
      simp only [note, hguard]
      rfl
    have hcontents : (s.step .create).contents =
        Function.update s.contents q (some Page.zero) := by
      rw [heq]
    refine h.amend hd hnote (by simp) (fun r hr => ?_) (by simp [hcontents]) ?_ ?_
    · rw [hcontents, Function.update_of_ne hr]
    · rintro e ⟨⟩
      refine ⟨by simp [hstored'], fun he => absurd rfl he, fun hb => ?_⟩
      rw [hcontents, Function.update_self, Entry.bytes?, Option.none_or, if_pos hb]
    · rw [heq]
      refine h.clear.created ha hnew hpage hpins (fun y hy => ?_) fun r hr => ?_
      · simp only [Function.update_self, Option.bind_some, Entry.bytes?, Option.none_or] at hy
        split at hy
        · rename_i hz
          cases hy
          exact ⟨rfl, of_decide_eq_true hz ▸ hstored⟩
        · cases hy
      · simp only [Function.update_of_ne hr]
        rfl
  · have hnote : s.note j .create = j := by
      simp only [note]
      split
      · rename_i hg
        exact absurd (congrArg Prod.fst hg) (hnone _)
      · rfl
    refine h.keep hd (by simp) hnote (by rw [heq]; rfl) ?_
    rw [heq]
    exact h.clear.act ha (by simp) (by simp) hpins _ fun q x hx => ⟨hx, Clear.not_deletes (by simp)⟩

theorem data_eq {g : Guard n} {e : Entry} (h : s.Recorded j) (hg : some g ∈ s.guards)
    (he : j g.page = some e) (hb : e.blank = true) :
    s.contents g.page = some (g.data s.session.pool) := by
  obtain ⟨x, hx⟩ := Entry.exists_bytes hb
  have hdata : g.data s.session.pool = x :=
    h.clear.data_eq hg (by simp only [recalled, he, Option.bind_some, hx])
  rw [h.contents g.page e he hb, hx, hdata]

theorem put {i offset : Nat} {new : Bytes} {g g' : Guard n} {b : Pool FileDisk n}
    (h : s.Recorded j) (hd : s.Fits (.put i offset new)) (hi : s.guards[i]? = some (some g))
    (hw : g.write? offset new s.session.pool = some (g', b)) :
    (s.step (.put i offset new)).Recorded (s.note j (.put i offset new)) := by
  obtain ⟨hpage, hframe, hdirty, rfl⟩ := of_write? hw
  have hg := List.mem_of_getElem? hi
  have heq : s.step (.put i offset new) = { s with
      session := s.session.step (.put g.frame offset new)
      guards := s.guards.set i (some g')
      contents := Function.update s.contents g.page
        ((s.contents g.page).map fun x => x.write offset new) } := by
    simp only [Clients.step, hi, hw, hpage]
    rfl
  have hshown : g'.data (s.session.pool.writeFrame g.frame offset new) =
      (g.data s.session.pool).write offset new := by
    simp only [Guard.data, hframe, writeFrame, getElem_modifyFrame, if_true]
  have hnote : s.note j (.put i offset new) = Function.update j g.page
      ((j g.page).map fun e =>
        { e with last := some ((g.data s.session.pool).write offset new) }) := by
    simp only [note, hi, hw, hpage, hshown]
  have hcontents : (s.step (.put i offset new)).contents = Function.update s.contents g.page
      ((s.contents g.page).map fun x => x.write offset new) := by
    rw [heq]
  refine h.amend hd hnote (by simp) (fun q hq => ?_) ?_ (fun e' he' => ?_) ?_
  · rw [hcontents, Function.update_of_ne hq]
  · rw [hcontents, Function.update_self, Option.map_eq_none_iff, Option.map_eq_none_iff]
    exact h.created g.page
  · obtain ⟨e, he, rfl⟩ := Option.map_eq_some_iff.mp he'
    refine ⟨((h.progress hd).2 g.page (by simp) (h.live g.page (by simp [he]))).1, fun _ => ?_,
      fun hb => ?_⟩
    · rw [heq]
      exact ⟨g', List.mem_set (List.getElem?_eq_some_iff.mp hi).1 _, hpage, hdirty⟩
    · rw [hcontents, Function.update_self, h.data_eq hg he hb]
      rfl
  · have hfit := hd.1
    rw [heq] at hfit ⊢
    refine h.clear.put hi ⟨⟨trivial, hfit⟩, hd.2⟩ hpage hframe hdirty (fun x hx => ?_)
      fun q hq => ?_
    · simp only [Function.update_self, Option.bind_map] at hx
      obtain ⟨e, he, hx⟩ := Option.bind_eq_some_iff.mp hx
      cases hx
      exact ⟨h.live g.page (by simp [he]), rfl⟩
    · simp only [Function.update_of_ne hq]
      rfl

theorem isOk_delete (b : Pool FileDisk n) (p : PageId) : (b.delete p).1.isOk = true := by
  have hok : (Device.deallocate p b.device).1 = .ok () := by
    change (FileDisk.deallocate p b.device).1 = _
    unfold FileDisk.deallocate
    split <;> rfl
  rcases hd : Device.deallocate p b.device with ⟨e | _, d⟩
  · rw [hd] at hok
    cases hok
  · simp only [Pool.delete, hd]
    split
    · rfl
    · split <;> rfl

theorem delete (h : s.Recorded j) (hd : s.Fits (.delete p)) :
    (s.step (.delete p)).Recorded (s.note j (.delete p)) := by
  have hnote : s.note j (.delete p) = Function.update j p none := by
    simp only [note, isOk_delete, if_true]
  have hcontents : (s.step (.delete p)).contents = Function.update s.contents p none := by
    simp only [Clients.step, isOk_delete, if_true]
  refine h.amend hd hnote (fun q hq he => hq (Deed.delete.inj he).symm) (fun q hq => ?_)
    (by simp [hcontents]) (by simp) ?_
  · rw [hcontents, Function.update_of_ne hq]
  · refine h.clear.act (a := .call (.delete p)) ⟨⟨trivial, hd.1⟩, hd.2⟩ (by simp) (by simp) rfl _
      fun q x hx => ?_
    have hq : q ≠ p := by
      rintro rfl
      simp at hx
    rw [Function.update_of_ne hq] at hx
    exact ⟨hx, Clear.not_deletes fun hc => hq (Call.delete.inj hc).symm⟩

theorem step (h : s.Recorded j) (hd : s.Fits d) : (s.step d).Recorded (s.note j d) := by
  cases d with
  | read p | write p =>
    refine h.keep hd (by simp) rfl rfl ?_
    exact h.clear.fetch rfl ⟨⟨trivial, hd.1⟩, hd.2⟩
  | create => exact h.create hd
  | put i offset new =>
    rcases hi : s.guards[i]? with _ | _ | g
    · exact h.stay (by simp only [Clients.step, hi]) (by simp only [note, hi])
    · exact h.stay (by simp only [Clients.step, hi]) (by simp only [note, hi])
    · rcases hw : g.write? offset new s.session.pool with _ | ⟨g', b⟩
      · exact h.stay (by simp only [Clients.step, hi, hw]) (by simp only [note, hi, hw])
      · exact h.put hd hi hw
  | drop i =>
    rcases hi : s.guards[i]? with _ | _ | g
    · exact h.stay (by simp only [Clients.step, hi]) rfl
    · exact h.stay (by simp only [Clients.step, hi]) rfl
    · have hfit := hd.1
      have heq : s.step (.drop i) = { s with
          session := s.session.step (.call (.unpin g.page g.dirty))
          guards := s.guards.set i none } := by
        simp only [Clients.step, hi]
        rfl
      refine h.keep hd (by simp) rfl (by rw [heq]) ?_
      rw [heq] at hfit ⊢
      exact h.clear.drop hi ⟨⟨Or.inr (h.clear.holds.held (List.mem_of_getElem? hi)), hfit⟩, hd.2⟩
  | flush p => exact h.quiet (a := .call (.flush p)) hd (by simp) trivial rfl rfl
  | flushAll => exact h.quiet (a := .call .flushAll) hd (by simp) trivial rfl rfl
  | beginFlush p => exact h.quiet (a := .beginFlush p) hd (by simp) trivial rfl rfl
  | writeWindow i => exact h.quiet (a := .writeWindow i) hd (by simp) trivial rfl rfl
  | closeWindow i => exact h.quiet (a := .closeWindow i) hd (by simp) trivial rfl rfl
  | delete p => exact h.delete hd

theorem note_eq_some (h : s.Recorded j) (hd : s.Fits d) (hdel : d ≠ .delete p) {e : Entry}
    (he : j p = some e) : ∃ e', s.note j d p = some e' ∧ e'.blank = e.blank := by
  cases d with
  | create =>
    rcases s.step_create with ⟨q, f, hnew, hpage, -, hguard, -⟩ | ⟨-, hnone, -⟩
    · have hne := Session.page_new_ne h.clear.valid h.clear.backed hd.2 hnew
        (h.live p (by simp [he]))
      have hpq : p ≠ q := by
        rintro rfl
        exact hne hpage
      exact ⟨e, by simp only [note, hguard, Function.update_of_ne hpq, he], rfl⟩
    · refine ⟨e, ?_, rfl⟩
      rcases hg : s.session.pool.newGuard with ⟨_ | _ | g, b⟩
      · simp only [note, hg, he]
      · simp only [note, hg, he]
      · exact absurd (congrArg Prod.fst hg) (hnone g)
  | put i offset new =>
    rcases hi : s.guards[i]? with _ | _ | g
    · exact ⟨e, by simp only [note, hi, he], rfl⟩
    · exact ⟨e, by simp only [note, hi, he], rfl⟩
    · rcases hw : g.write? offset new s.session.pool with _ | ⟨g', b⟩
      · exact ⟨e, by simp only [note, hi, hw, he], rfl⟩
      · by_cases hp : p = g'.page
        · subst hp
          simp only [note, hi, hw, he, Function.update_self]
          exact ⟨_, rfl, rfl⟩
        · exact ⟨e, by simp only [note, hi, hw, Function.update_of_ne hp, he], rfl⟩
  | delete q =>
    have hq : p ≠ q := fun hq => hdel (congrArg _ hq.symm)
    exact ⟨e, by simp only [note, isOk_delete, if_true, Function.update_of_ne hq, he], rfl⟩
  | read | write | drop | flush | flushAll | beginFlush | writeWindow | closeWindow =>
    exact ⟨e, he, rfl⟩

theorem run {ds : List Deed} (h : s.Recorded j) (hds : s.Along Fits ds) :
    (s.run ds).Recorded (s.journal j ds) := by
  induction ds generalizing s j with
  | nil => exact h
  | cons d ds ih => exact ih (h.step hds.1) hds.2

theorem along_fits {ds : List Deed} {m : Nat} (h : s.Recorded j)
    (hm : ∀ p, (s.session.pins p).held + s.session.windowsOn p ≤ m)
    (hlt : m + ds.length < UInt32.size) : s.Along Fits ds := by
  induction ds generalizing s j m with
  | nil => trivial
  | cons d ds ih =>
    rw [List.length_cons] at hlt
    obtain ⟨contents, heq⟩ := recalled_step s j d
    have hheld := h.clear.holds.held_step d hm
    rw [heq] at hheld
    have hfits : s.Fits d := ⟨fun p => (hheld p).trans_lt (by omega), trivial⟩
    exact ⟨hfits, ih (h.step hfits) hheld (by omega)⟩

theorem journal_eq_some {ds : List Deed} (h : s.Recorded j)
    (hds : s.Along (fun s d => s.Fits d ∧ d ≠ .delete p) ds) {e : Entry} (he : j p = some e) :
    (s.run ds).Recorded (s.journal j ds) ∧
      ∃ e', s.journal j ds p = some e' ∧ e'.blank = e.blank := by
  induction ds generalizing s j e with
  | nil => exact ⟨h, e, he, rfl⟩
  | cons d ds ih =>
    obtain ⟨⟨hd, hdel⟩, hds⟩ := hds
    obtain ⟨e', he', hb⟩ := h.note_eq_some hd hdel he
    obtain ⟨hrun, e'', he'', hb'⟩ := ih (h.step hd) hds he'
    exact ⟨hrun, e'', he'', hb'.trans hb⟩

end Recorded

end Clients

end BufferPool
