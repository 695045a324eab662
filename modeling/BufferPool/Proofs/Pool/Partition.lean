import Mathlib.Data.List.FinRange
import Mathlib.Data.Set.Card
import BufferPool.Proofs.Pool.Outcomes
import BufferPool.Proofs.Replacement.Evictable

/-! # The partition of the frames

Every frame is free, or pinned by users of its page, or open to eviction. A
sound pool has its table, its free list, its replacer and its frames agree on
that, and each elementary change of a pool keeps it sound.
-/

namespace BufferPool.Pool

variable {δ : Type} {n : Nat} {b : Pool δ n} {f g : Fin n} {p q : PageId}

section Fields

variable (b : Pool δ n) (f : Fin n) (h : Frame → Frame)

@[simp] theorem getElem_modifyFrame (g : Fin n) :
    (b.modifyFrame f h).frames.get g = if f = g then h (b.frames.get f) else b.frames.get g := by
  have hset : (b.frames.set f (h (b.frames.get f)))[g.val] =
      if f.val = g.val then h (b.frames.get f) else b.frames[g.val] :=
    Vector.getElem_set f.isLt g.isLt
  simp only [Fin.ext_iff]
  exact hset

@[simp] theorem device_modifyFrame : (b.modifyFrame f h).device = b.device := rfl

theorem apply_modifyFrame {α : Type} (k : Frame → α) {h : Frame → Frame}
    (hh : ∀ x, k (h x) = k x) (g : Fin n) :
    k ((b.modifyFrame f h).frames.get g) = k (b.frames.get g) := by
  rw [getElem_modifyFrame]
  split
  · rename_i he
    rw [hh, he]
  · rfl

/-- These are the frames of the pool but for what `f` holds, once that is overwritten. -/
def AgreeOff (b : Pool δ n) (f : Fin n) (frames : Vector Frame n) : Prop :=
  ∀ x, ({ b with frames } : Pool δ n).modifyFrame f (fun _ => x) = b.modifyFrame f fun _ => x

theorem isDirty?_eq {b : Pool δ n} {f : Fin n} {p : PageId} (hp : b.frameOf? p = some f) :
    b.isDirty? p = some (b.frames.get f).dirty := by
  simp only [isDirty?, hp, Option.map_some]

@[simp] theorem frames_modifyStats (h : Stats → Stats) :
    (b.modifyStats h).frames = b.frames := rfl

@[simp] theorem frameOf?_modifyStats (h : Stats → Stats) (p : PageId) :
    (b.modifyStats h).frameOf? p = b.frameOf? p := rfl

@[simp] theorem replacer_modifyStats (h : Stats → Stats) :
    (b.modifyStats h).replacer = b.replacer := rfl

end Fields

/-- The next free frame is to be the one that `f` was. It loses its page `p`. -/
def vacate (b : Pool δ n) (f : Fin n) (p : PageId) : Pool δ n :=
  { b.modifyFrame f fun _ => Frame.empty with
    table := b.table.erase p
    free := f :: b.free
    replacer := b.replacer.remove f }

def seat (b : Pool δ n) (f : Fin n) (p : PageId) (data : Page) : Pool δ n :=
  { b.install f p data with free := b.free.tail }

def requeue (b : Pool δ n) (f : Fin n) : Pool δ n :=
  { b.modifyFrame f fun _ => Frame.empty with free := b.free.tail ++ [f] }

theorem getElem_vacate :
    (b.vacate f p).frames.get g = if f = g then Frame.empty else b.frames.get g :=
  getElem_modifyFrame b f (fun _ => Frame.empty) g

theorem getElem_install {data : Page} : (b.install f p data).frames.get g =
    if f = g then ⟨some p, 1, false, data⟩ else b.frames.get g :=
  getElem_modifyFrame b f (fun _ => ⟨some p, 1, false, data⟩) g

theorem getElem_seat {data : Page} : (b.seat f p data).frames.get g =
    if f = g then ⟨some p, 1, false, data⟩ else b.frames.get g :=
  getElem_install

theorem getElem_releaseFrame :
    (b.releaseFrame f).frames.get g = if f = g then Frame.empty else b.frames.get g :=
  getElem_modifyFrame b f (fun _ => Frame.empty) g

theorem getElem_requeue :
    (b.requeue f).frames.get g = if f = g then Frame.empty else b.frames.get g :=
  getElem_modifyFrame b f (fun _ => Frame.empty) g

theorem getElem_discard :
    (b.discard f p).frames.get g = if f = g then Frame.empty else b.frames.get g :=
  getElem_modifyFrame b f (fun _ => Frame.empty) g

theorem frameOf?_vacate : (b.vacate f p).frameOf? q = if p = q then none else b.frameOf? q := by
  simp [frameOf?, vacate, Std.ExtTreeMap.getElem?_erase]

theorem frameOf?_expel : (b.expel f p).frameOf? q = if p = q then none else b.frameOf? q := by
  simp [frameOf?, expel, modifyStats, Std.ExtTreeMap.getElem?_erase]

theorem frameOf?_discard : (b.discard f p).frameOf? q = if p = q then none else b.frameOf? q := by
  simp [frameOf?, discard, Std.ExtTreeMap.getElem?_erase]

theorem frameOf?_install (data : Page) :
    (b.install f p data).frameOf? q = if p = q then some f else b.frameOf? q := by
  simp [frameOf?, install, Std.ExtTreeMap.getElem?_insert]

theorem frameOf?_seat (data : Page) :
    (b.seat f p data).frameOf? q = if p = q then some f else b.frameOf? q :=
  frameOf?_install data

theorem getElem_create (r : Replacer (Fin n)) (d : δ) (log : Option Log) (f : Fin n) :
    (Pool.create r d log).frames.get f = Frame.empty :=
  Vector.getElem_replicate f.isLt

theorem frameOf?_create (r : Replacer (Fin n)) (d : δ) (log : Option Log) (p : PageId) :
    (Pool.create r d log).frameOf? p = none := by
  simp [Pool.create, frameOf?]

theorem length_le_countP (b : Pool δ n) {ps : List PageId} (hn : ps.Nodup) {k : PageId → Bool}
    (hps : ∀ p ∈ ps, b.isCached p = true ∧ k p = true) : ps.length ≤ b.table.keys.countP k := by
  rw [List.countP_eq_length_filter]
  apply (List.subperm_of_subset hn _).length_le
  intro p hp
  rw [List.mem_filter, Std.ExtTreeMap.mem_keys, Std.ExtTreeMap.mem_iff_isSome_getElem?]
  exact hps p hp

theorem countP_keys_le_size (b : Pool δ n) (k : PageId → Bool) :
    b.table.keys.countP k ≤ b.table.size := by
  rw [← Std.ExtTreeMap.length_keys]
  exact List.countP_le_length

theorem isCached_eq_false_iff : b.isCached p = false ↔ b.frameOf? p = none := by
  simp [isCached]

theorem isCached_of_frameOf? (hp : b.frameOf? p = some f) : b.isCached p = true := by
  rw [isCached, hp]
  rfl

theorem frameOf?_of_allocateUnused [Device δ] {b' : Pool δ n}
    (h : b.allocateUnused = (.ok p, b')) : b.frameOf? p = none := by
  cases allocateUnused_outcome h with
  | found search => exact isCached_eq_false_iff.mp search.unused

/-- The table, the free list, the replacer and the frames agree. -/
structure Sound (b : Pool δ n) : Prop where
  replacer : b.replacer.Sound
  free_nodup : b.free.Nodup
  mem_free_iff : ∀ f : Fin n, f ∈ b.free ↔ (b.frames.get f).page = none
  frameOf?_iff : ∀ (p : PageId) (f : Fin n), b.frameOf? p = some f ↔ (b.frames.get f).page = some p
  idle : ∀ f : Fin n, (b.frames.get f).page = none →
    (b.frames.get f).pins = 0 ∧ (b.frames.get f).dirty = false
  isEvictable_iff : ∀ f : Fin n, b.replacer.isEvictable f = true ↔
    (b.frames.get f).page ≠ none ∧ (b.frames.get f).pins = 0

namespace Sound

theorem page_eq (h : b.Sound) (hp : b.frameOf? p = some f) : (b.frames.get f).page = some p :=
  (h.frameOf?_iff p f).mp hp

theorem frameOf?_injective (h : b.Sound) (hp : b.frameOf? p = some f)
    (hq : b.frameOf? q = some f) : p = q :=
  Option.some.inj ((h.page_eq hp).symm.trans (h.page_eq hq))

theorem not_mem_free (h : b.Sound) (hp : b.frameOf? p = some f) : f ∉ b.free := by
  rw [h.mem_free_iff, h.page_eq hp]
  simp

theorem frame_ne (h : b.Sound) (hpq : p ≠ q) (hp : b.frameOf? p = some f)
    (hq : b.frameOf? q = some g) : f ≠ g := by
  rintro rfl
  exact hpq (h.frameOf?_injective hp hq)

theorem head_ne (h : b.Sound) {free : List (Fin n)} (hf : b.free = f :: free)
    (hp : b.frameOf? p = some g) : f ≠ g := by
  rintro rfl
  exact h.not_mem_free hp (hf ▸ List.mem_cons_self)

theorem isEvictable_iff_pins (h : b.Sound) (hp : b.frameOf? p = some f) :
    b.replacer.isEvictable f = true ↔ (b.frames.get f).pins = 0 := by
  rw [h.isEvictable_iff, h.page_eq hp]
  simp

theorem of_peek (h : b.Sound) (hf : b.replacer.peek = some f) :
    (∃ p, b.frameOf? p = some f) ∧ (b.frames.get f).pins = 0 := by
  obtain ⟨hp, hpins⟩ := (h.isEvictable_iff f).mp (Replacer.isEvictable_of_peek h.replacer hf)
  obtain ⟨p, hp⟩ := Option.ne_none_iff_exists'.mp hp
  exact ⟨⟨p, (h.frameOf?_iff p f).mpr hp⟩, hpins⟩

/-- A change that concerns one frame need only be checked there. -/
theorem change (h : b.Sound) {b' : Pool δ n} (f : Fin n)
    (frames : ∀ g : Fin n, g ≠ f → b'.frames.get g = b.frames.get g)
    (replacer : b'.replacer.Sound)
    (evictable : ∀ g, g ≠ f → b'.replacer.isEvictable g = b.replacer.isEvictable g)
    (nodup : b'.free.Nodup)
    (free : ∀ g, g ≠ f → (g ∈ b'.free ↔ g ∈ b.free))
    (table : ∀ p g, g ≠ f → (b'.frameOf? p = some g ↔ b.frameOf? p = some g))
    (mem_free_iff : f ∈ b'.free ↔ (b'.frames.get f).page = none)
    (frameOf?_iff : ∀ p, b'.frameOf? p = some f ↔ (b'.frames.get f).page = some p)
    (idle : (b'.frames.get f).page = none →
      (b'.frames.get f).pins = 0 ∧ (b'.frames.get f).dirty = false)
    (isEvictable_iff : b'.replacer.isEvictable f = true ↔
      (b'.frames.get f).page ≠ none ∧ (b'.frames.get f).pins = 0) : b'.Sound where
  replacer := replacer
  free_nodup := nodup
  mem_free_iff g := by
    by_cases hg : g = f
    · subst hg; exact mem_free_iff
    · rw [free g hg, frames g hg]; exact h.mem_free_iff g
  frameOf?_iff p g := by
    by_cases hg : g = f
    · subst hg; exact frameOf?_iff p
    · rw [table p g hg, frames g hg]; exact h.frameOf?_iff p g
  idle g hp := by
    by_cases hg : g = f
    · subst hg; exact idle hp
    · rw [frames g hg] at hp ⊢; exact h.idle g hp
  isEvictable_iff g := by
    by_cases hg : g = f
    · subst hg; exact isEvictable_iff
    · rw [evictable g hg, frames g hg]; exact h.isEvictable_iff g

theorem congr (h : b.Sound) {b' : Pool δ n} (frames : b'.frames = b.frames)
    (table : b'.table = b.table) (free : b'.free = b.free)
    (replacer : b'.replacer = b.replacer) : b'.Sound := by
  have hp : ∀ p, b'.frameOf? p = b.frameOf? p := fun p => by simp only [frameOf?, table]
  constructor
  all_goals simp only [frames, free, replacer, hp]
  exacts [h.replacer, h.free_nodup, h.mem_free_iff, h.frameOf?_iff, h.idle, h.isEvictable_iff]

theorem modify (h : b.Sound) {k : Frame → Frame} (hpage : ∀ x, (k x).page = x.page)
    (hpins : ∀ x, (k x).pins = x.pins)
    (hdirty : (b.frames.get f).page = none → (k (b.frames.get f)).dirty = (b.frames.get f).dirty) :
    (b.modifyFrame f k).Sound := by
  refine h.change f ?_ h.replacer (fun _ _ => rfl) h.free_nodup (fun _ _ => Iff.rfl)
    (fun _ _ _ => Iff.rfl) ?_ ?_ ?_ ?_
  · intro g hg
    rw [getElem_modifyFrame, if_neg hg.symm]
  all_goals rw [getElem_modifyFrame, if_pos rfl]
  · rw [hpage]; exact h.mem_free_iff f
  · intro q
    rw [hpage]; exact h.frameOf?_iff q f
  · intro hp
    rw [hpage] at hp
    rw [hpins, hdirty hp]; exact h.idle f hp
  · rw [hpage, hpins]; exact h.isEvictable_iff f

theorem clean (h : b.Sound) (hp : b.frameOf? p = some f) :
    (b.modifyFrame f fun x => { x with dirty := false }).Sound := by
  refine h.modify (fun _ => rfl) (fun _ => rfl) fun hn => ?_
  exact absurd (hn.symm.trans (h.page_eq hp)) (by simp)

theorem writeFrame (h : b.Sound) (f : Fin n) (offset : Nat) (new : Bytes) :
    (b.writeFrame f offset new).Sound :=
  h.modify (fun _ => rfl) (fun _ => rfl) fun _ => rfl

theorem repin (h : b.Sound) (hp : b.frameOf? p = some f) {k : Frame → Frame}
    {r : Replacer (Fin n)} (hr : r.Sound) (hpage : ∀ x, (k x).page = x.page)
    (hev : ∀ g, g ≠ f → r.isEvictable g = b.replacer.isEvictable g)
    (hf : r.isEvictable f = true ↔ (k (b.frames.get f)).pins = 0) :
    Sound { b.modifyFrame f k with replacer := r } := by
  refine h.change f ?_ hr hev h.free_nodup (fun _ _ => Iff.rfl) (fun _ _ _ => Iff.rfl) ?_ ?_ ?_ ?_
  · intro g hg
    exact (getElem_modifyFrame b f k g).trans (if_neg hg.symm)
  all_goals
    simp only [show ({ b.modifyFrame f k with replacer := r } : Pool δ n).frames.get f =
      k (b.frames.get f) from (getElem_modifyFrame b f k f).trans (if_pos rfl)]
    rw [hpage]
  · exact h.mem_free_iff f
  · exact fun q => h.frameOf?_iff q f
  · intro hn
    rw [h.page_eq hp] at hn
    cases hn
  · rw [hf, h.page_eq hp]
    simp

theorem release (h : b.Sound) (hp : b.frameOf? p = some f) (hpins : (b.frames.get f).pins ≠ 0)
    {k : Frame → Frame} (hk : ∀ x, (k x).page = x.page ∧ (k x).pins = x.pins - 1) :
    Sound { b.modifyFrame f k with replacer :=
      if (b.frames.get f).pins = 1 then b.replacer.unpin f else b.replacer } := by
  have hzero : (b.frames.get f).pins - 1 = 0 ↔ (b.frames.get f).pins = 1 := by
    rw [UInt32.sub_eq_iff_eq_add, UInt32.zero_add]
  split
  · rename_i hlast
    refine h.repin hp h.replacer.unpin (fun x => (hk x).1) ?_ ?_
    · intro g hg
      exact Replacer.isEvictable_unpin.trans (by simp [hg])
    · rw [(hk _).2, hzero, Replacer.isEvictable_unpin]
      simpa using hlast
  · rename_i hlast
    apply h.repin hp h.replacer (fun x => (hk x).1) (fun _ _ => rfl)
    rw [(hk _).2, hzero, h.isEvictable_iff_pins hp]
    exact iff_of_false hpins hlast

theorem vacate (h : b.Sound) (hp : b.frameOf? p = some f) : (b.vacate f p).Sound := by
  have hx : (b.vacate f p).frames.get f = Frame.empty :=
    getElem_vacate.trans (if_pos rfl)
  refine h.change f ?_ h.replacer.remove ?_ ?_ ?_ ?_ ?_ ?_ ?_ ?_
  · intro g hg
    exact getElem_vacate.trans (if_neg hg.symm)
  · intro g hg
    exact (Replacer.isEvictable_remove h.replacer).trans (by simp [hg])
  · exact List.nodup_cons.mpr ⟨h.not_mem_free hp, h.free_nodup⟩
  · intro g hg
    exact List.mem_cons.trans (or_iff_right hg)
  · intro q g hg
    rw [frameOf?_vacate]
    split
    · rename_i he
      subst he
      simp [hp, hg.symm]
    · rfl
  · simp only [hx]
    exact iff_of_true List.mem_cons_self rfl
  · intro q
    rw [frameOf?_vacate, hx]
    split
    · simp [Frame.empty]
    · rename_i he
      exact iff_of_false (fun hq => he (h.frameOf?_injective hp hq)) (by simp [Frame.empty])
  · rw [hx]
    exact fun _ => ⟨rfl, rfl⟩
  · rw [hx]
    refine iff_of_false ?_ (fun hn => hn.1 rfl)
    rw [show (b.vacate f p).replacer = b.replacer.remove f from rfl,
      Replacer.isEvictable_remove h.replacer]
    simp

theorem pins_requeue (h : b.Sound) {free : List (Fin n)} (hf : b.free = f :: free) :
    ((b.requeue f).frames.get g).pins = (b.frames.get g).pins := by
  rw [getElem_requeue]
  split
  · rename_i he
    have hm : f ∈ b.free := hf ▸ List.mem_cons_self
    rw [← he, (h.idle f ((h.mem_free_iff f).mp hm)).1]
    rfl
  · rfl

theorem seat (h : b.Sound) {free : List (Fin n)} (hf : b.free = f :: free)
    (hp : b.frameOf? p = none) {data : Page} : (b.seat f p data).Sound := by
  have hx : (b.seat f p data).frames.get f = ⟨some p, 1, false, data⟩ :=
    getElem_seat.trans (if_pos rfl)
  have hn : f ∉ free ∧ free.Nodup := by
    have := h.free_nodup
    rwa [hf, List.nodup_cons] at this
  have hl : (b.seat f p data).free = free := by simp [Pool.seat, hf]
  have hq : ∀ q, b.frameOf? q ≠ some f := by
    intro q hq
    exact h.not_mem_free hq (hf ▸ List.mem_cons_self)
  refine h.change f ?_ h.replacer.pin ?_ ?_ ?_ ?_ ?_ ?_ ?_ ?_
  · intro g hg
    exact getElem_seat.trans (if_neg hg.symm)
  · intro g hg
    exact (Replacer.isEvictable_pin h.replacer).trans (by simp [hg])
  · rw [hl]
    exact hn.2
  · intro g hg
    rw [hl, hf, List.mem_cons, or_iff_right hg]
  · intro q g hg
    rw [frameOf?_seat]
    split
    · rename_i he
      subst he
      simp [hp, hg.symm]
    · rfl
  · rw [hl, hx]
    exact iff_of_false hn.1 (by simp)
  · intro q
    rw [frameOf?_seat, hx]
    split
    · rename_i he
      simp [he]
    · rename_i he
      exact iff_of_false (hq q) (by simpa using he)
  · rw [hx]
    exact fun hn => by cases hn
  · rw [hx]
    refine iff_of_false ?_ (fun hn => absurd hn.2 (show (1 : UInt32) ≠ 0 by decide))
    rw [show (b.seat f p data).replacer = b.replacer.pin f from rfl,
      Replacer.isEvictable_pin h.replacer]
    simp

theorem requeue (h : b.Sound) {free : List (Fin n)} (hf : b.free = f :: free) :
    (b.requeue f).Sound := by
  have hx : (b.requeue f).frames.get f = Frame.empty :=
    getElem_requeue.trans (if_pos rfl)
  have hl : (b.requeue f).free.Perm b.free := by
    rw [show (b.requeue f).free = b.free.tail ++ [f] from rfl, hf]
    exact List.perm_append_singleton f free
  have hm : f ∈ b.free := hf ▸ List.mem_cons_self
  have hn : (b.frames.get f).page = none := (h.mem_free_iff f).mp hm
  refine h.change f ?_ h.replacer (fun _ _ => rfl) (hl.nodup_iff.mpr h.free_nodup)
    (fun g _ => hl.mem_iff) (fun _ _ _ => Iff.rfl) ?_ ?_ ?_ ?_
  · intro g hg
    exact getElem_requeue.trans (if_neg hg.symm)
  all_goals rw [hx]
  · exact iff_of_true (hl.mem_iff.mpr hm) rfl
  · intro q
    refine iff_of_false (fun hq => ?_) (by simp [Frame.empty])
    exact h.not_mem_free hq hm
  · exact fun _ => ⟨rfl, rfl⟩
  · refine iff_of_false (fun he => ?_) (fun he => he.1 rfl)
    exact ((h.isEvictable_iff f).mp he).1 hn

theorem discard (h : b.Sound) (hp : b.frameOf? p = some f) : (b.discard f p).Sound := by
  have hv := h.vacate hp
  have hl : (b.discard f p).free.Perm (b.vacate f p).free := List.perm_append_singleton f b.free
  exact {
    replacer := hv.replacer
    free_nodup := hl.nodup_iff.mpr hv.free_nodup
    mem_free_iff := fun g => hl.mem_iff.trans (hv.mem_free_iff g)
    frameOf?_iff := hv.frameOf?_iff
    idle := hv.idle
    isEvictable_iff := hv.isEvictable_iff }

theorem create {r : Replacer (Fin n)} (hr : r.Sound) (he : ∀ f, r.isEvictable f = false)
    (d : δ) (log : Option Log) : (Pool.create r d log).Sound := by
  have hx := getElem_create r d log
  constructor
  · exact hr
  · exact List.nodup_finRange n
  · intro f
    rw [hx]
    exact iff_of_true (List.mem_finRange f) rfl
  · intro p f
    rw [hx]
    exact iff_of_false (by simp [frameOf?_create]) (by simp [Frame.empty])
  · intro f _
    rw [hx]
    exact ⟨rfl, rfl⟩
  · intro f
    rw [hx]
    exact iff_of_false (by simp [Pool.create, he]) (fun hn => hn.1 rfl)

end Sound

theorem exists_create_of_ofConfig {c : Config} {d : δ} {log : Option Log} {b : Pool δ c.poolSize}
    (hb : Pool.ofConfig c d log = .ok b) :
    ∃ r, Replacer.ofPolicy c.poolSize c.policy = .ok r ∧ b = .create r d log := by
  unfold Pool.ofConfig at hb
  split at hb
  · cases hb
  · rename_i r _ hr
    exact ⟨r, hr, (Except.ok.inj hb).symm⟩
  · cases hb

inductive Standing where
  | free
  | pinned
  | evictable
  deriving DecidableEq

/-- A free frame is listed once and empty. The others hold a cached page, and the replacer may
pick those that nobody has pinned. -/
def Stands (b : Pool δ n) (f : Fin n) : Standing → Prop
  | .free => b.free.count f = 1 ∧ (∀ p, b.frameOf? p ≠ some f) ∧ (b.frames.get f).page = none ∧
      (b.frames.get f).pins = 0 ∧ (b.frames.get f).dirty = false ∧ b.replacer.isEvictable f = false
  | .pinned => f ∉ b.free ∧ (∃ p, b.frameOf? p = some f) ∧ 0 < (b.frames.get f).pins ∧
      b.replacer.isEvictable f = false
  | .evictable => f ∉ b.free ∧ (∃ p, b.frameOf? p = some f) ∧ (b.frames.get f).pins = 0 ∧
      b.replacer.isEvictable f = true

/-- Every frame stands in exactly one way, and all the counts agree. -/
structure Partitioned (b : Pool δ n) : Prop where
  standing : ∀ f, ∃! s, b.Stands f s
  page_eq : ∀ (p : PageId) (f : Fin n), b.frameOf? p = some f → (b.frames.get f).page = some p
  injective : ∀ p q f, b.frameOf? p = some f → b.frameOf? q = some f → p = q
  count : b.free.length + b.table.size = n
  evictable : b.replacer.size = {f | b.Stands f .evictable}.ncard

namespace Sound

theorem stands_free (h : b.Sound) (hf : f ∈ b.free) : b.Stands f .free := by
  have hn := (h.mem_free_iff f).mp hf
  refine ⟨List.count_eq_one_of_mem h.free_nodup hf, fun p hp => h.not_mem_free hp hf, hn,
    (h.idle f hn).1, (h.idle f hn).2, ?_⟩
  rw [← Bool.not_eq_true, h.isEvictable_iff]
  exact fun he => he.1 hn

theorem stands_evictable_iff (h : b.Sound) :
    b.Stands f .evictable ↔ b.replacer.isEvictable f = true := by
  refine ⟨fun hs => hs.2.2.2, fun he => ?_⟩
  obtain ⟨hp, hpins⟩ := (h.isEvictable_iff f).mp he
  obtain ⟨p, hp⟩ := Option.ne_none_iff_exists'.mp hp
  have hp := (h.frameOf?_iff p f).mpr hp
  exact ⟨h.not_mem_free hp, ⟨p, hp⟩, hpins, he⟩

theorem exists_unique_standing (h : b.Sound) (f : Fin n) : ∃! s, b.Stands f s := by
  rcases hp : (b.frames.get f).page with _ | p
  · have hf := (h.mem_free_iff f).mpr hp
    refine ⟨.free, h.stands_free hf, fun s hs => ?_⟩
    cases s with
    | free => rfl
    | pinned => exact absurd hf hs.1
    | evictable => exact absurd hf hs.1
  · have hp := (h.frameOf?_iff p f).mpr hp
    have hf : ¬ b.Stands f .free := fun hs => hs.2.1 p hp
    rcases he : b.replacer.isEvictable f with _ | _
    · refine ⟨.pinned, ⟨h.not_mem_free hp, ⟨p, hp⟩, ?_, he⟩, fun s hs => ?_⟩
      · rw [← Bool.not_eq_true, h.isEvictable_iff_pins hp] at he
        exact UInt32.pos_iff_ne_zero.mpr he
      · cases s with
        | free => exact absurd hs hf
        | pinned => rfl
        | evictable => exact absurd (he.symm.trans hs.2.2.2) (by decide)
    · refine ⟨.evictable, h.stands_evictable_iff.mpr he, fun s hs => ?_⟩
      cases s with
      | free => exact absurd hs hf
      | pinned => exact absurd (he.symm.trans hs.2.2.2) (by decide)
      | evictable => rfl

theorem mem_table_frames : f ∈ b.table.toList.map Prod.snd ↔ ∃ p, b.frameOf? p = some f := by
  simp only [List.mem_map, Prod.exists, Std.ExtTreeMap.mem_toList_iff_getElem?_eq_some,
    exists_eq_right]
  rfl

theorem nodup_table_frames (h : b.Sound) : (b.table.toList.map Prod.snd).Nodup := by
  rw [List.Nodup, List.pairwise_map]
  refine b.table.distinct_keys_toList.imp_of_mem fun {x y} hx hy hne he => hne ?_
  rw [Std.ExtTreeMap.mem_toList_iff_getElem?_eq_some] at hx hy
  rw [Std.LawfulEqCmp.compare_eq_iff_eq]
  exact h.frameOf?_injective (f := y.2) (he ▸ hx) hy

theorem length_free_add_size (h : b.Sound) : b.free.length + b.table.size = n := by
  have hall : (b.free ++ b.table.toList.map Prod.snd).Perm (List.finRange n) := by
    refine (List.perm_ext_iff_of_nodup (h.free_nodup.append h.nodup_table_frames ?_)
      (List.nodup_finRange n)).mpr fun f => iff_of_true ?_ (List.mem_finRange f)
    · intro f hf hv
      obtain ⟨p, hp⟩ := mem_table_frames.mp hv
      exact h.not_mem_free hp hf
    · rw [List.mem_append, mem_table_frames, h.mem_free_iff]
      rcases hp : (b.frames.get f).page with _ | p
      · exact Or.inl rfl
      · exact Or.inr ⟨p, (h.frameOf?_iff p f).mpr hp⟩
  have := hall.length_eq
  rwa [List.length_append, List.length_map, Std.ExtTreeMap.length_toList,
    List.length_finRange] at this

theorem size_replacer (h : b.Sound) :
    b.replacer.size = {f | b.Stands f .evictable}.ncard := by
  obtain ⟨entries, hn, hm, hl⟩ := Replacer.exists_evictable h.replacer
  have hs : {f | b.Stands f .evictable} = (entries.toFinset : Set (Fin n)) := by
    ext f
    rw [Set.mem_ofPred_eq, h.stands_evictable_iff, ← hm f, List.coe_toFinset, Set.mem_ofPred_eq]
  rw [hs, Set.ncard_coe_finset, List.toFinset_card_of_nodup hn, hl]

theorem partitioned (h : b.Sound) : b.Partitioned :=
  ⟨h.exists_unique_standing, fun _ _ => h.page_eq, fun _ _ _ => h.frameOf?_injective,
    h.length_free_add_size, h.size_replacer⟩

end Sound

end BufferPool.Pool
