import BufferPool.Proofs.Disk.Pagewise
import BufferPool.Proofs.Pool.Order
import BufferPool.Proofs.Pool.Tidy
import BufferPool.Proofs.Replacement.Line

/-! # Secured frames

A frame is secured before a page comes in: the next free one, or else that of
the victim, which goes. If the victim cannot be written back, it stays. If the
page does not come in after all, the frame is put back without it.
-/

namespace BufferPool.Pool

open Storage

variable {δ : Type} {n : Nat} {b b' b₁ : Pool δ n} {f g : Fin n} {p v : PageId}

/-- The pages that are open to eviction, in the order in which they would be evicted. -/
def lineup (b : Pool δ n) : List PageId :=
  b.replacer.line.filterMap fun f => (b.frames.get f).page

def Acquainted (b : Pool δ n) : Prop :=
  ∀ f, b.replacer.knows f = true → (b.frames.get f).page ≠ none

theorem Tidy.page_eq_none (h : b.Tidy) (hf : f ∈ b.free) : (b.frames.get f).page = none := by
  obtain ⟨frames, hs, hpage⟩ := h
  rw [← hpage f]
  exact (hs.mem_free_iff f).mp hf

theorem Tidy.missed (h : b.Tidy) : b.missed.Tidy := h.congr rfl rfl rfl fun _ => rfl

theorem Tidy.replacer (h : b.Tidy) : b.replacer.Sound := h.choose_spec.1.replacer

theorem IsVictim.peek_eq (hv : b.IsVictim v) (h : b.Tidy) (hp : b.frameOf? v = some f) :
    b.replacer.peek = some f := by
  obtain ⟨-, g, hpeek, hpage⟩ := hv
  rw [← h.frameOf?_iff, hp] at hpage
  rwa [Option.some.inj hpage]

theorem IsVictim.unique (hv : b.IsVictim v) (hp : b.IsVictim p) : v = p := by
  obtain ⟨-, f, hpeek, hpage⟩ := hv
  obtain ⟨-, g, hpeek', hpage'⟩ := hp
  obtain rfl := Option.some.inj (hpeek.symm.trans hpeek')
  exact Option.some.inj (hpage.symm.trans hpage')

namespace Acquainted

theorem congr (h : b.Acquainted) (replacer : b'.replacer = b.replacer)
    (page : ∀ g, (b'.frames.get g).page = (b.frames.get g).page) : b'.Acquainted := by
  intro g hg
  rw [replacer] at hg
  rw [page]
  exact h g hg

theorem hear (h : b.Acquainted) (hf : (b'.frames.get f).page = some p)
    (knows : ∀ g, b'.replacer.knows g = true → g = f ∨ b.replacer.knows g = true)
    (page : ∀ g, g ≠ f → (b'.frames.get g).page = (b.frames.get g).page) : b'.Acquainted := by
  intro g hg
  by_cases hgf : g = f
  · rw [hgf, hf]
    exact Option.some_ne_none p
  · rw [page g hgf]
    exact h g ((knows g hg).resolve_left hgf)

theorem release (h : b.Acquainted) (hf : (b.frames.get f).page = some p) {k : Frame → Frame}
    (hk : ∀ x, (k x).page = x.page) (last : Prop) [Decidable last] :
    Acquainted { b.modifyFrame f k with
      replacer := if last then b.replacer.unpin f else b.replacer } := by
  have hpage := apply_modifyFrame b f Frame.page hk
  refine h.hear ((hpage f).trans hf) (fun g hg => ?_) fun g _ => hpage g
  dsimp only at hg
  split at hg
  · exact Replacer.knows_unpin hg
  · exact Or.inr hg

theorem remove (h : b.Acquainted) (hr : b.replacer.Sound)
    (replacer : b'.replacer = b.replacer.remove f)
    (page : ∀ g, g ≠ f → (b'.frames.get g).page = (b.frames.get g).page) : b'.Acquainted := by
  intro g hg
  rw [replacer] at hg
  obtain ⟨hgf, hg⟩ := Replacer.knows_remove hr hg
  rw [page g hgf]
  exact h g hg

end Acquainted

theorem lineup_congr (hreplacer : b'.replacer = b.replacer)
    (hpage : ∀ g, (b'.frames.get g).page = (b.frames.get g).page) : b'.lineup = b.lineup := by
  rw [lineup, hreplacer]
  exact List.filterMap_congr fun g _ => hpage g

theorem lineup_eq_cons (hr : b.replacer.Sound) (hv : b.replacer.peek = some f)
    (hpage : (b.frames.get f).page = some v) (hremoved : b'.replacer = b.replacer.remove f)
    (hothers : ∀ g, g ≠ f → b'.frames.get g = b.frames.get g) : b.lineup = v :: b'.lineup := by
  have hline := Replacer.line_eq_cons hr hv
  have hnodup := (Replacer.line_spec hr).1
  rw [hline, List.nodup_cons] at hnodup
  rw [lineup, hline, List.filterMap_cons, hpage, lineup, hremoved]
  refine congrArg (v :: ·) (List.filterMap_congr fun g hg => ?_)
  have hne : g ≠ f := by
    rintro rfl
    exact hnodup.1 hg
  rw [hothers g hne]

variable [Device δ]

inductive Secures (b : Pool δ n) (f : Fin n) : Pool δ n → Prop where

  | free {rest : List (Fin n)} (hfree : b.free = f :: rest) : Secures b f { b with free := rest }

  | evicted {v : PageId} {b' : Pool δ n} (hv : b.IsVictim v) (hp : b.frameOf? v = some f)
      (hflush : b.flushNow v = (.ok true, b')) :
      Secures b f (b'.expel f v)

theorem flushNow_eq_true {answer : Bool} (hp : b.frameOf? p = some f)
    (h : b.flushNow p = (.ok answer, b')) : b.flushNow p = (.ok true, b') := by
  rcases hd : (b.frames.get f).dirty with _ | _
  · rw [flushNow_of_clean hp hd] at h ⊢
    cases h
    rfl
  · rw [flushNow_of_dirty hp hd] at h ⊢
    generalize b.writeBack p (b.frames.get f).data = r at h ⊢
    obtain ⟨_ | _, b'⟩ := r <;> cases h
    rfl

theorem getElem_flushNow (hp : b.frameOf? p = some f) (hg : g ≠ f) :
    (b.flushNow p).2.frames.get g = b.frames.get g := by
  rcases hd : (b.frames.get f).dirty with _ | _
  · rw [flushNow_of_clean hp hd]
  · rw [flushNow_of_dirty hp hd, getElem_modifyFrame, if_neg hg.symm, frames_writeBack]

theorem secures_of_takeFrame (h : b.Tidy) (ht : b.takeFrame = (.ok (some f), b₁)) :
    b.Secures f b₁ := by
  cases takeFrame_outcome ht with
  | free hfree => exact .free hfree
  | evicted hfree hpeek hevict =>
    obtain ⟨v, hp⟩ := h.of_peek hpeek
    cases hevict with
    | empty hpage => cases hpage.symm.trans (h.page_eq hp)
    | expelled hpage hflush =>
      cases hpage.symm.trans (h.page_eq hp)
      exact .evicted ⟨hfree, f, hpeek, hpage⟩ hp (flushNow_eq_true hp hflush)

section Refused

variable {e : DiskError} {d : δ}

theorem takeFrame_refused (h : b.Tidy) (hv : b.IsVictim v) (hp : b.frameOf? v = some f)
    (hd : (b.frames.get f).dirty = true)
    (hw : Device.write v (b.frames.get f).data b.device = (.error e, d))
    (he : e.isMissing = false) :
    b.takeFrame = (.error (.writingBack v e), { b with device := d }) := by
  simp only [takeFrame, hv.1, hv.peek_eq h hp, evict, h.page_eq hp, flushNow, hp, hd, if_true,
    writeBack, hw, he, Bool.false_eq_true, if_false]
  rfl

theorem new_refused (ht : b.takeFrame = (.error (.writingBack v e), { b with device := d })) :
    b.new = (.error (.writingBack v e), { b with device := d }) := by
  simp only [new, ht]

theorem fetch_refused (hp : p ≠ PageId.invalid) (hq : b.frameOf? p = none)
    (ht : b.missed.takeFrame = (.error (.writingBack v e), { b.missed with device := d })) :
    b.fetch p = (.error (.writingBack v e), { b.missed with device := d }) := by
  simp only [missed] at ht
  simp only [fetch, if_neg hp, hq, ht, missed]

end Refused

/-- The bytes of the page `v` are on the device, if it is a victim that is dirty and has a place
there. -/
def VictimSaved [Storage δ] (b : Pool δ n) (v : PageId) (d : δ) : Prop :=
  ∀ f, b.IsVictim v → b.frameOf? v = some f → (b.frames.get f).dirty = true →
    page? b.device v ≠ none → page? d v = some (b.frames.get f).data

/-- The frame `f` was secured for a page and put back without it. All that is lost is the victim, if
there was no free frame. -/
structure RolledBack (b : Pool δ n) (f : Fin n) (b' : Pool δ n) : Prop where
  free : b'.free = b.free.tail ++ [f]
  frame : b'.frames.get f = Frame.empty
  unknown : b'.replacer.knows f = false
  others : ∀ g, g ≠ f → b'.frames.get g = b.frames.get g
  source : (∃ rest, b.free = f :: rest ∧ b'.table = b.table ∧ b'.replacer = b.replacer ∧
      b'.lineup = b.lineup) ∨
    ∃ v, b.IsVictim v ∧ b.frameOf? v = some f ∧ b'.table = b.table.erase v ∧
      b'.replacer = b.replacer.remove f ∧ b.lineup = v :: b'.lineup

omit [Device δ] in
theorem RolledBack.of_missed (h : b.missed.RolledBack f b') : b.RolledBack f b' :=
  ⟨h.free, h.frame, h.unknown, h.others, h.source⟩

namespace Secures

variable {d : δ}

/-- Whatever has become of the device, a secured frame can be put back. -/
theorem rolledBack (h : b.Secures f b₁) (ht : b.Tidy) (hk : b.Acquainted) :
    b.RolledBack f ({ b₁ with device := d }.releaseFrame f) := by
  have hself : (releaseFrame { b₁ with device := d } f).frames.get f = Frame.empty :=
    getElem_releaseFrame.trans (if_pos rfl)
  have hreleased : ∀ g, g ≠ f →
      (releaseFrame { b₁ with device := d } f).frames.get g = b₁.frames.get g :=
    fun g hg => getElem_releaseFrame.trans (if_neg hg.symm)
  cases h with
  | @free rest hfree =>
    have hpage : (b.frames.get f).page = none := ht.page_eq_none (hfree ▸ List.mem_cons_self)
    constructor
    · rw [hfree]
      rfl
    · exact hself
    · by_contra hf
      exact hk f (Bool.eq_true_of_not_eq_false hf) hpage
    · exact hreleased
    · refine Or.inl ⟨rest, hfree, rfl, rfl, lineup_congr rfl fun g => ?_⟩
      by_cases hg : g = f
      · rw [hg, hself, hpage]
        rfl
      · rw [hreleased g hg]
  | @evicted v b' hv hp hflush =>
    obtain ⟨htable, hfree, hreplacer⟩ := flushNow_books b v
    rw [hflush] at htable hfree hreplacer
    have hothers : ∀ g, g ≠ f →
        (releaseFrame { b'.expel f v with device := d } f).frames.get g = b.frames.get g := by
      intro g hg
      have hsame := getElem_flushNow hp hg
      rw [hflush] at hsame
      exact (hreleased g hg).trans hsame
    have hremoved : (releaseFrame { b'.expel f v with device := d } f).replacer =
        b.replacer.remove f := congrArg (Replacer.remove · f) hreplacer
    constructor
    · rw [hv.1]
      exact congrArg (· ++ [f]) (hfree.trans hv.1)
    · exact hself
    · rw [hremoved]
      by_contra hf
      exact (Replacer.knows_remove ht.replacer (Bool.eq_true_of_not_eq_false hf)).1 rfl
    · exact hothers
    · exact Or.inr ⟨v, hv, hp, congrArg (·.erase v) htable, hremoved,
        lineup_eq_cons ht.replacer (hv.peek_eq ht hp) (ht.page_eq hp) hremoved hothers⟩

theorem stored [Storage δ] [Pagewise δ] (h : b.Secures f b₁) (hd : Pagewise.InOrder b.device)
    (hv : b.IsVictim v) (hp : b.frameOf? v = some g) (hdirty : (b.frames.get g).dirty = true)
    (hpage : page? b.device v ≠ none) :
    page? b₁.device v = some (b.frames.get g).data ∧ b₁.frameOf? v = none := by
  cases h with
  | free hfree =>
    rw [hv.1] at hfree
    cases hfree
  | @evicted v' b' hv' hp' hflush =>
    obtain rfl := hv.unique hv'
    constructor
    · change page? b'.device v = _
      simp only [flushNow, hp, hdirty, if_true, writeBack] at hflush
      rcases hw : Device.write v (b.frames.get g).data b.device with ⟨e | _, d⟩
      · rcases he : e.isMissing with _ | _ <;> simp only [hw, he] at hflush <;> cases hflush
        exact absurd (Pagewise.missing hd hw he) hpage
      · simp only [hw] at hflush
        cases hflush
        change page? d v = _
        rw [(Pagewise.write_ok hd hw).2, Function.update_self]
    · rw [frameOf?_expel, if_pos rfl]

end Secures

end BufferPool.Pool
