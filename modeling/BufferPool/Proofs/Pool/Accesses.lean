import BufferPool.Proofs.Pool.Order
import BufferPool.Proofs.Replacement.Accesses

/-! # Accesses of the pages in the frames

An LRU-K replacer knows frames, not pages. What it remembers of a frame are
the accesses of the page in it: a frame that loses its page is forgotten, and a
page that comes in starts anew.
-/

namespace BufferPool.Pool

variable {δ : Type} {n : Nat} {b b' : Pool δ n} {f : Fin n} {p : PageId} {k clock : Nat}
  {accesses : PageId → List Nat}

/-- The replacer goes by the last `k` accesses of the pages in the frames. -/
structure Recalls (b : Pool δ n) (k clock : Nat) (accesses : PageId → List Nat) : Prop where
  isLruK : b.replacer.IsLruK k clock
  history : ∀ p f, b.frameOf? p = some f → b.replacer.history? f = some ((accesses p).take k)
  untracked : ∀ f, (∀ p, b.frameOf? p ≠ some f) → b.replacer.history? f = none
  accessed : ∀ p f, b.frameOf? p = some f → accesses p ≠ []

namespace Recalls

theorem create (k_pos : 0 < k) (d : δ) (log : Option Log) :
    (Pool.create (n := n) (.lruK { k, k_pos }) d log).Recalls k 0 accesses where
  isLruK := ⟨_, rfl, rfl, rfl⟩
  history p f hp := by
    rw [frameOf?_create] at hp
    cases hp
  untracked _ _ := rfl
  accessed p f hp := by
    rw [frameOf?_create] at hp
    cases hp

theorem congr (h : b.Recalls k clock accesses) (table : b'.table = b.table)
    (replacer : b'.replacer = b.replacer) : b'.Recalls k clock accesses := by
  have hp : ∀ p, b'.frameOf? p = b.frameOf? p := fun p => by simp only [frameOf?, table]
  constructor
  all_goals simp only [hp, replacer]
  exacts [h.isLruK, h.history, h.untracked, h.accessed]

theorem drop (h : b.Recalls k clock accesses) (hs : b.Sound) (hp : b.frameOf? p = some f)
    (frameOf? : ∀ q, b'.frameOf? q = if p = q then none else b.frameOf? q)
    (replacer : b'.replacer = b.replacer.remove f) : b'.Recalls k clock accesses where
  isLruK := replacer ▸ h.isLruK.remove f
  history q g hq := by
    rw [frameOf?] at hq
    split at hq
    · cases hq
    · rename_i hne
      rw [replacer, h.isLruK.history?_remove, if_neg, h.history q g hq]
      rintro rfl
      exact hne (hs.frameOf?_injective hp hq)
  untracked g hg := by
    rw [replacer, h.isLruK.history?_remove]
    split
    · rfl
    · rename_i hgf
      apply h.untracked
      intro q hq
      apply hg q
      rw [frameOf?, if_neg, hq]
      rintro rfl
      exact hgf (Option.some.inj (hq.symm.trans hp))
  accessed q g hq := by
    rw [frameOf?] at hq
    split at hq
    · cases hq
    · exact h.accessed q g hq

theorem release (h : b.Recalls k clock accesses) (hp : b.frameOf? p = some f) (last : Prop)
    [Decidable last] (table : b'.table = b.table)
    (replacer : b'.replacer = if last then b.replacer.unpin f else b.replacer) :
    b'.Recalls k clock accesses := by
  split at replacer
  · have hp' : ∀ p, b'.frameOf? p = b.frameOf? p := fun p => by simp only [frameOf?, table]
    obtain ⟨hlruK, hsame⟩ := h.isLruK.unpin (a := f) (by simp [h.history p f hp])
    constructor
    all_goals simp only [hp', replacer, hsame]
    exacts [hlruK, h.history, h.untracked, h.accessed]
  · exact h.congr table replacer

theorem visit (h : b.Recalls k clock accesses) {past : List Nat}
    (hp : ∀ g, b.frameOf? p = some g → g = f) (hf : ∀ q, b.frameOf? q = some f → q = p)
    (hpast : (b.replacer.history? f).getD [] = past.take k)
    (frameOf? : ∀ q, b'.frameOf? q = if p = q then some f else b.frameOf? q)
    (replacer : b'.replacer = b.replacer.pin f) :
    b'.Recalls k (clock + 1) (Function.update accesses p (clock :: past)) where
  isLruK := replacer ▸ h.isLruK.pin f
  history q g hq := by
    rw [frameOf?] at hq
    rw [replacer, h.isLruK.history?_pin]
    split at hq
    · rename_i hpq
      rw [if_pos (Option.some.inj hq).symm, hpast, LruK.take_cons_take h.isLruK.k_pos, ← hpq,
        Function.update_self]
    · rename_i hpq
      rw [if_neg, Function.update_of_ne (Ne.symm hpq), h.history q g hq]
      rintro rfl
      exact hpq (hf q hq).symm
  untracked g hg := by
    have hgf : g ≠ f := by
      rintro rfl
      apply hg p
      rw [frameOf?, if_pos rfl]
    rw [replacer, h.isLruK.history?_pin, if_neg hgf]
    apply h.untracked
    intro q hq
    apply hg q
    rw [frameOf?, if_neg, hq]
    rintro rfl
    exact hgf (hp g hq)
  accessed q g hq := by
    rw [frameOf?] at hq
    split at hq
    · rename_i hpq
      rw [← hpq, Function.update_self]
      exact List.cons_ne_nil _ _
    · rename_i hpq
      rw [Function.update_of_ne (Ne.symm hpq)]
      exact h.accessed q g hq

theorem install (h : b.Recalls k clock accesses) (hp : b.frameOf? p = none)
    (hf : ∀ q, b.frameOf? q ≠ some f) (data : Page) :
    (b.install f p data).Recalls k (clock + 1) (Function.update accesses p [clock]) := by
  refine h.visit ?_ ?_ ?_ (fun q => frameOf?_install data) rfl
  · intro g hg
    rw [hp] at hg
    cases hg
  · exact fun q hq => absurd hq (hf q)
  · rw [h.untracked f hf, Option.getD_none, List.take_nil]

theorem hit (h : b.Recalls k clock accesses) (hs : b.Sound) (hp : b.frameOf? p = some f)
    (table : b'.table = b.table) (replacer : b'.replacer = b.replacer.pin f) :
    b'.Recalls k (clock + 1) (Function.update accesses p (clock :: accesses p)) := by
  refine h.visit ?_ ?_ ?_ (fun q => ?_) replacer
  · intro g hg
    exact Option.some.inj (hg.symm.trans hp)
  · exact fun q hq => hs.frameOf?_injective hq hp
  · rw [h.history p f hp, Option.getD_some]
  · have hq : b'.frameOf? q = b.frameOf? q := by simp only [frameOf?, table]
    split
    · rename_i hpq
      rw [hq, ← hpq, hp]
    · exact hq

theorem unpin (h : b.Recalls k clock accesses) (p : PageId) (dirty : Bool) :
    (b.unpin p dirty).2.Recalls k clock accesses := by
  by_cases hrejected : ∀ f, b.frameOf? p = some f → (b.frames.get f).pins = 0
  · rwa [unpin_eq_false_iff.mpr hrejected]
  · push Not at hrejected
    obtain ⟨f, hp, hpins⟩ := hrejected
    rw [unpin_eq hp hpins]
    exact h.release hp _ rfl rfl

theorem closeWindow (h : b.Recalls k clock accesses) {w : Window n}
    (hp : b.frameOf? w.page = some w.frame) (answer : Except PoolError Unit) :
    (b.closeWindow w answer).Recalls k clock accesses := by
  rw [closeWindow_eq]
  exact h.release hp _ rfl rfl

variable [Device δ]

theorem flushNow (h : b.Recalls k clock accesses) (p : PageId) :
    (b.flushNow p).2.Recalls k clock accesses :=
  h.congr (flushNow_books b p).1 (flushNow_books b p).2.2

theorem flushEach (h : b.Recalls k clock accesses) (ps : List PageId) :
    (b.flushEach ps).2.Recalls k clock accesses :=
  flushEach_induction (P := fun b => b.Recalls k clock accesses) (fun _ p hb => hb.flushNow p) h ps

theorem beginFlush (h : b.Recalls k clock accesses) (p : PageId) :
    (b.beginFlush p).2.Recalls k clock accesses := by
  unfold Pool.beginFlush
  split
  · exact h
  split
  · exact h.flushNow p
  split
  · exact h.congr rfl rfl
  · exact h

theorem takeFrame (h : b.Recalls k clock accesses) (hs : b.Sound) :
    b.takeFrame.2.Recalls k clock accesses ∧
      (∀ q, b.frameOf? q = none → b.takeFrame.2.frameOf? q = none) ∧
      ∀ f, b.takeFrame.1 = .ok (some f) → ∀ q, b.takeFrame.2.frameOf? q ≠ some f := by
  rcases ht : b.takeFrame with ⟨answer, b'⟩
  cases takeFrame_outcome ht with
  | free hfree =>
    refine ⟨h.congr rfl rfl, fun _ hq => hq, ?_⟩
    rintro _ ⟨⟩ q hq
    exact hs.not_mem_free hq (hfree ▸ List.mem_cons_self)
  | full => exact ⟨h, fun _ hq => hq, nofun⟩
  | @refused f e _ _ _ hevict =>
    cases hevict with
    | @refused p _ _ _ hflush =>
      have hflushed := h.flushNow p
      have hsame := frameOf?_flushNow b p
      rw [hflush] at hflushed hsame
      exact ⟨hflushed, fun q hq => (hsame q).trans hq, nofun⟩
  | @evicted f _ _ hpeek hevict =>
    cases hevict with
    | empty hpage =>
      obtain ⟨⟨p, hp⟩, -⟩ := hs.of_peek hpeek
      cases hpage.symm.trans (hs.page_eq hp)
    | @expelled p _ b₁ hpage hflush =>
      have hflushed := h.flushNow p
      have hsound := hs.flushNow p
      have hsame := frameOf?_flushNow b p
      rw [hflush] at hflushed hsound hsame
      have hp := (hsame p).trans ((hs.frameOf?_iff p f).mpr hpage)
      have hdrop (q : PageId) : (b₁.expel f p).frameOf? q = if p = q then none else b₁.frameOf? q :=
        frameOf?_expel
      refine ⟨hflushed.drop hsound hp hdrop rfl, fun q hq => ?_, ?_⟩
      · rw [hdrop, hsame, hq, ite_self]
      · rintro _ ⟨⟩ q hq
        rw [hdrop] at hq
        split at hq
        · cases hq
        · rename_i hpq
          exact hpq (hsound.frameOf?_injective hp hq)

theorem fetch (h : b.Recalls k clock accesses) (hs : b.Sound) (p : PageId) :
    (∃ f, (b.fetch p).1 = .ok (some f) ∧ (b.fetch p).2.Recalls k (clock + 1)
      (Function.update accesses p (clock :: if b.isCached p then accesses p else []))) ∨
    (∀ f, (b.fetch p).1 ≠ .ok (some f)) ∧ (b.fetch p).2.Recalls k clock accesses := by
  have hmissed : b.missed.Recalls k clock accesses := h.congr rfl rfl
  obtain ⟨htake, hkept, hempty⟩ := hmissed.takeFrame (hs.congr rfl rfl rfl rfl)
  rcases hf : b.fetch p with ⟨answer, b'⟩
  cases fetch_outcome hf with
  | invalid => exact Or.inr ⟨nofun, h⟩
  | @hit f _ hp =>
    rw [isCached_of_frameOf? hp, if_pos rfl]
    exact Or.inl ⟨f, rfl, h.hit hs hp rfl rfl⟩
  | refused _ _ ht | full _ _ ht =>
    rw [ht] at htake
    exact Or.inr ⟨nofun, htake⟩
  | @loaded f b₁ data d _ hp ht =>
    rw [ht] at htake hkept hempty
    have hread : ({ b₁ with device := d } : Pool δ n).Recalls k clock accesses :=
      htake.congr rfl rfl
    rw [isCached_eq_false_iff.mpr hp, if_neg Bool.false_ne_true]
    exact Or.inl ⟨f, rfl, hread.install (hkept p hp) (hempty f rfl) data⟩
  | missing _ _ ht | unread _ _ ht =>
    rw [ht] at htake
    exact Or.inr ⟨nofun, htake.congr rfl rfl⟩

theorem new (h : b.Recalls k clock accesses) (hs : b.Sound) :
    (∃ p, b.created? = some p ∧
      b.new.2.Recalls k (clock + 1) (Function.update accesses p [clock])) ∨
    b.created? = none ∧ b.new.2.Recalls k clock accesses := by
  obtain ⟨htake, -, hempty⟩ := h.takeFrame hs
  unfold created?
  rcases hn : b.new with ⟨answer, b'⟩
  cases new_outcome hn with
  | refused ht | full ht =>
    rw [ht] at htake
    exact Or.inr ⟨rfl, htake⟩
  | @unallocated f _ b₁ b₂ ht ha =>
    rw [ht] at htake
    rw [eq_of_allocateUnused ha]
    exact Or.inr ⟨rfl, htake.congr rfl rfl⟩
  | @created f p b₁ b₂ ht ha =>
    rw [ht] at htake hempty
    have hsame := frameOf?_allocateUnused ha
    have halloc : b₂.Recalls k clock accesses := by
      rw [eq_of_allocateUnused ha]
      exact htake.congr rfl rfl
    have hp : b₂.frameOf? p = none := (hsame p).trans (frameOf?_of_allocateUnused ha)
    have hf (q : PageId) : b₂.frameOf? q ≠ some f := by
      rw [hsame]
      exact hempty f rfl q
    refine Or.inl ⟨p, ?_, (halloc.install hp hf Page.zero).congr rfl rfl⟩
    simp only [frames_modifyStats, getElem_install, if_true]

theorem delete (h : b.Recalls k clock accesses) (hs : b.Sound) (p : PageId) :
    (b.delete p).2.Recalls k clock accesses := by
  rcases hd : b.delete p with ⟨answer, b'⟩
  cases delete_outcome hd with
  | refused | uncached | pinned => exact h.congr rfl rfl
  | @freed f _ _ hp => exact h.drop hs hp (fun q => frameOf?_discard (f := f)) rfl

end Recalls

end BufferPool.Pool
