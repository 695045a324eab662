import BufferPool.Proofs.Disk.Recycling
import BufferPool.Proofs.Session.Allocation

/-! # The search for an unused id

A pool that has a recycling disk to itself caches only ids that were handed out.
So its search for an unused id skips pages that were deleted while they were
pinned, each of them once, and gives their ids back in the order in which they
came up.
-/

namespace BufferPool

open Storage Recycles

namespace Pool

variable {δ : Type} [Device δ] {n : Nat} {b b' b'' : Pool δ n} {f : Fin n} {p : PageId}

section Familiar

variable [Lawful δ]

/-- The books of the device are in order, and the ids of the cached pages were handed out. -/
structure Familiar (b : Pool δ n) : Prop where
  ok : Ok b.device
  known : ∀ p, b.isCached p = true → Known b.device p

/-- From `b` to `b'` no page came into the pool, and no id was handed out. -/
structure Shrinks (b b' : Pool δ n) : Prop where
  steady : Ok b.device → Steady b.device b'.device
  isCached : ∀ p, b'.isCached p = true → b.isCached p = true

theorem Settles.shrinks (h : Settles b b') : Shrinks b b' where
  steady hok := h.keeps (P := Steady b.device) (fun {_ _ _ _ r} hs hw => by
    rcases r with e | _
    · exact hs.trans (Lawful.write_error hs.ok hw).1
    · exact hs.trans (Lawful.write_ok hs.ok hw).1) (.refl hok)
  isCached p hp := by rwa [isCached, frameOf?, h.table] at hp

namespace Shrinks

theorem of_eq (device : b'.device = b.device) (table : b'.table = b.table) : Shrinks b b' where
  steady hok := by
    rw [device]
    exact .refl hok
  isCached p hp := by rwa [Pool.isCached, frameOf?, table] at hp

theorem trans (h : Shrinks b b') (h' : Shrinks b' b'') : Shrinks b b'' where
  steady hok := (h.steady hok).trans (h'.steady (h.steady hok).ok)
  isCached p hp := h.isCached p (h'.isCached p hp)

theorem flushNow {answer : Except PoolError Bool} (h : b.flushNow p = (answer, b')) :
    Shrinks b b' := by
  have hshrinks := (Settles.flushNow b p).shrinks
  rwa [h] at hshrinks

theorem expel (b : Pool δ n) (f : Fin n) (p : PageId) : Shrinks b (b.expel f p) where
  steady hok := .refl hok
  isCached q hq := by
    rw [Pool.isCached, frameOf?_expel] at hq
    split at hq
    · cases hq
    · exact hq

theorem takeFrame {answer : Except PoolError (Option (Fin n))} (h : b.takeFrame = (answer, b')) :
    Shrinks b b' := by
  cases takeFrame_outcome h with
  | free | full => exact .of_eq rfl rfl
  | evicted _ _ hevict =>
    cases hevict with
    | empty => exact .of_eq rfl rfl
    | expelled _ hflush => exact (flushNow hflush).trans (.expel _ _ _)
  | refused _ _ hevict =>
    cases hevict with
    | refused _ hflush => exact flushNow hflush

theorem discard (b : Pool δ n) (f : Fin n) (p : PageId) : Shrinks b (b.discard f p) where
  steady hok := .refl hok
  isCached q hq := by
    rw [Pool.isCached, frameOf?_discard] at hq
    split at hq
    · cases hq
    · exact hq

end Shrinks

namespace Familiar

theorem create (r : Replacer (Fin n)) {d : δ} (hd : Ok d) (log : Option Log) :
    (Pool.create r d log).Familiar where
  ok := hd
  known p hp := by
    rw [isCached, frameOf?_create] at hp
    cases hp

theorem shrinks (h : b.Familiar) (hb : Shrinks b b') : b'.Familiar where
  ok := (hb.steady h.ok).ok
  known p hp := (hb.steady h.ok).known p (h.known p (hb.isCached p hp))

theorem device (h : b.Familiar) {d : δ} (ok : Ok d)
    (known : ∀ p, Known b.device p → Known d p) :
    ({ b with device := d } : Pool δ n).Familiar where
  ok := ok
  known p hp := known p (h.known p hp)

theorem install (h : b.Familiar) (hp : Known b.device p) (f : Fin n) (data : Page) :
    (b.install f p data).Familiar where
  ok := h.ok
  known q hq := by
    rw [isCached, frameOf?_install] at hq
    split at hq
    · rename_i he
      exact he ▸ hp
    · exact h.known q hq

theorem fetch (h : b.Familiar) (p : PageId) : (b.fetch p).2.Familiar := by
  have hmissed : b.missed.Familiar := h.shrinks (.of_eq rfl rfl)
  rcases hf : b.fetch p with ⟨answer, b'⟩
  cases fetch_outcome hf with
  | invalid => exact h
  | hit => exact h.shrinks (.of_eq rfl rfl)
  | refused _ _ ht | full _ _ ht => exact hmissed.shrinks (.takeFrame ht)
  | @loaded f b₁ data d _ _ ht hr =>
    have h₁ := hmissed.shrinks (.takeFrame ht)
    obtain ⟨hsteady, -, hstored⟩ := Lawful.read h₁.ok hr
    have hknown := hsteady.known p (Lawful.known_of_page? h₁.ok (hstored data rfl))
    exact (h₁.device hsteady.ok hsteady.known).install hknown f data
  | missing _ _ ht hr | unread _ _ ht hr =>
    have h₁ := hmissed.shrinks (.takeFrame ht)
    obtain ⟨hsteady, -, -⟩ := Lawful.read h₁.ok hr
    exact (h₁.device hsteady.ok hsteady.known).shrinks (.of_eq rfl rfl)

end Familiar

end Familiar

variable [Lawful δ] [Recycles δ]

/-- What a search for an unused id comes to: the allocations that it makes, the ids that it skips,
the answer, and the pool after it. -/
structure FindsUnused (b : Pool δ n) (calls : Nat) (skipped : List PageId)
    (answer : Except DiskError PageId) (b' : Pool δ n) : Prop where
  ends : ∃ d, Searches b.isCached calls b.device answer skipped d
  allocateUnused_eq : b.allocateUnused = (answer.mapError .allocating, b')
  device_only : b' = { b with device := b'.device }
  calls_le : calls ≤ (b.table.keys.countP fun p => (page? b.device p).isNone) + 1
  unused : ∀ p, answer = .ok p → b.isCached p = false
  stored_iff : ∀ p, (page? b'.device p).isSome = true ↔
    (page? b.device p).isSome = true ∨ answer = .ok p
  queue : ∃ rest, Origin b.device skipped rest answer ∧ queue b'.device = rest ++ skipped

namespace Familiar

variable {d : δ} {calls : Nat} {answer : Except DiskError PageId} {skipped : List PageId}

theorem nodup_skipped (h : b.Familiar) (hs : Searches b.isCached calls b.device answer skipped d) :
    skipped.Nodup ∧ ∀ p ∈ skipped, b.isCached p = true ∧ (page? b.device p).isNone = true := by
  have hfront := (hs.origin h.ok h.known).isPrefix
  refine ⟨hfront.sublist.nodup (Recycles.nodup h.ok), fun p hp => ⟨hs.inUse_of_mem p hp, ?_⟩⟩
  rw [Recycles.absent h.ok (hfront.subset hp)]
  rfl

theorem calls_le (h : b.Familiar) (hs : Searches b.isCached calls b.device answer skipped d) :
    calls ≤ (b.table.keys.countP fun p => (page? b.device p).isNone) + 1 := by
  obtain ⟨hn, hskipped⟩ := h.nodup_skipped hs
  rw [hs.calls_eq]
  exact Nat.succ_le_succ (b.length_le_countP hn hskipped)

/-- The fuel of a search is never used up. -/
theorem searchId_eq (h : b.Familiar) (hs : Searches b.isCached calls b.device answer skipped d) :
    searchId b.isCached (b.table.size + 1) b.device = (answer, skipped, d) :=
  searchId_eq_iff.mpr <|
    hs.bounded (Nat.le_trans (h.calls_le hs) (Nat.succ_le_succ (b.countP_keys_le_size _)))

theorem exists_findsUnused (h : b.Familiar) :
    ∃ calls skipped answer b', b.FindsUnused calls skipped answer b' := by
  obtain ⟨calls, answer, skipped, d, hs⟩ := exists_searches h.ok h.known
  obtain ⟨hn, hskipped⟩ := h.nodup_skipped hs
  have hstored := hs.stored_iff h.ok h.known
  rcases hr : releaseEach skipped d with ⟨r, d'⟩
  obtain ⟨rfl, hqueue, hreleased⟩ := (releaseEach_eq_iff.mp hr).queue_eq hn
    fun p hp => (hstored p).mpr (Or.inr (Or.inl hp))
  refine ⟨calls, skipped, answer, { b with device := d' }, ⟨d, hs⟩, ?_, rfl, h.calls_le hs, ?_,
    fun p => ?_, _, hs.origin h.ok h.known, hqueue⟩
  · simp only [allocateUnused, h.searchId_eq hs, hr]
  · rintro p rfl
    exact hs.unused
  · rw [hreleased, hstored]
    constructor
    · rintro ⟨hp | hp | hp, hn⟩
      · exact Or.inl hp
      · exact absurd hp hn
      · exact Or.inr hp
    · rintro (hp | rfl)
      · refine ⟨Or.inl hp, fun hm => ?_⟩
        rw [Option.isNone_iff_eq_none.mp (hskipped p hm).2] at hp
        cases hp
      · exact ⟨Or.inr (Or.inr rfl), (hs.bounded (Nat.le_refl calls)).not_mem_skipped⟩

theorem books (h : b.Familiar) (ha : b.allocateUnused = (.ok p, b')) :
    b' = { b with device := b'.device } ∧ Ok b'.device ∧
      (∀ q, Known b.device q → Known b'.device q) ∧ Known b'.device p := by
  cases allocateUnused_outcome ha with
  | found search back =>
    obtain ⟨hok, hknown, hp⟩ := search.books h.ok
    obtain ⟨hsteady, -⟩ := back.steady hok
    exact ⟨rfl, hsteady.ok, fun q hq => hsteady.known q (hknown q hq), hsteady.known p hp⟩

theorem new (h : b.Familiar) (hok : b.new.1.isOk = true) : b.new.2.Familiar := by
  rcases hn : b.new with ⟨answer, b'⟩
  rw [hn] at hok
  cases new_outcome hn with
  | refused ht | full ht => exact h.shrinks (.takeFrame ht)
  | unallocated => cases hok
  | @created f p b₁ b₂ ht ha =>
    have h₁ := h.shrinks (.takeFrame ht)
    obtain ⟨hb₂, hok₂, hknown, hp⟩ := h₁.books ha
    have h₂ : b₂.Familiar := hb₂ ▸ h₁.device hok₂ hknown
    exact (h₂.install hp f Page.zero).shrinks (.of_eq rfl rfl)

theorem delete (h : b.Familiar) (p : PageId) : (b.delete p).2.Familiar := by
  have hdevice {r : Except DiskError Unit} {d : δ} (hd : Device.deallocate p b.device = (r, d)) :
      ({ b with device := d } : Pool δ n).Familiar := by
    obtain ⟨rfl, -⟩ := Recycles.deallocate hd
    obtain ⟨hsteady, -⟩ := Lawful.deallocate_ok h.ok hd
    exact h.device hsteady.ok hsteady.known
  rcases hdelete : b.delete p with ⟨answer, b'⟩
  cases delete_outcome hdelete with
  | refused hd | pinned hd => exact hdevice hd
  | uncached hd => exact (hdevice hd).shrinks (.of_eq rfl rfl)
  | @freed f d hd =>
    exact (hdevice hd).shrinks ((Shrinks.discard _ f p).trans (.of_eq rfl rfl))

end Familiar

end Pool

namespace Session

open Pool

variable {δ : Type} [Device δ] {n : Nat} {s : Session δ n} {a : Action n}
  {as : List (Action n)}

def Serves (s : Session δ n) (a : Action n) : Prop := a = .call .new → s.pool.new.1.isOk = true

instance (s : Session δ n) (a : Action n) : Decidable (s.Serves a) :=
  inferInstanceAs (Decidable (a = .call .new → s.pool.new.1.isOk = true))

/-- A pool that has the device `d` to itself and comes up between two actions, or as a new page has
got its frame. No call for a new page has failed. -/
def Reaches (d : δ) (b : Pool δ n) : Prop :=
  ∃ r log as, (start (.create r d log)).Along Serves as ∧
    (b = ((start (.create r d log)).run as).pool ∨
      b = ((start (.create r d log)).run as).pool.takeFrame.2)

variable [Lawful δ] [Recycles δ]

theorem familiar_step (h : s.pool.Familiar) (ha : s.Serves a) : (s.step a).pool.Familiar := by
  rcases settles_step s a with hsettles | rfl | ⟨p, rfl | rfl⟩
  · exact h.shrinks hsettles.shrinks
  · exact h.new (ha rfl)
  · exact h.fetch p
  · exact h.delete p

theorem familiar_run (h : s.pool.Familiar) (has : s.Along Serves as) :
    (s.run as).pool.Familiar := by
  induction as generalizing s with
  | nil => exact h
  | cons a as ih => exact ih (familiar_step h has.1) has.2

theorem Reaches.familiar {d : δ} {b : Pool δ n} (h : Reaches d b) (hd : Ok d) : b.Familiar := by
  obtain ⟨r, log, as, has, rfl | rfl⟩ := h
  · exact familiar_run (.create r hd log) has
  · exact (familiar_run (.create r hd log) has).shrinks (.takeFrame rfl)

/-- A pool that has a new memory disk to itself, or a file disk on an empty file, finds an unused id
after at most one more allocation than it has cached pages that are not on the disk. The id is not
cached, its page is the only one that comes to the disk, and the ids that were skipped are at the
end of the queue in the order in which they came up. Only a lack of ids can make that fail. -/
theorem unused_id_found :
    (∀ b : Pool MemoryDisk n, Reaches .empty b →
      ∃ calls skipped answer b', b.FindsUnused calls skipped answer b') ∧
    ∀ b : Pool FileDisk n, Reaches (.ofBytes []) b →
      ∃ calls skipped answer b', b.FindsUnused calls skipped answer b' := by
  constructor
  · intro b hb
    exact (hb.familiar MemoryDisk.ordered_empty).exists_findsUnused
  · intro b hb
    exact (hb.familiar (FileDisk.ordered_ofBytes (by decide))).exists_findsUnused

def deletingPinned : List (Action 3) :=
  [.call .new, .call .new, .call (.delete 1), .call (.delete 0)]

theorem unused_id_found_deleting_pinned :
    (∃ b : Pool MemoryDisk 3, Reaches .empty b ∧
      (∃ calls skipped answer b', b.FindsUnused calls skipped answer b') ∧
      b.device.freeIds = [1, 0] ∧ b.allocateUnused.1 = .ok 2 ∧
      b.allocateUnused.2.device.freeIds = [1, 0]) ∧
    ∃ b : Pool FileDisk 3, Reaches (.ofBytes []) b ∧
      (∃ calls skipped answer b', b.FindsUnused calls skipped answer b') ∧
      b.device.freeSlots.map Prod.fst = [1, 0] ∧ b.allocateUnused.1 = .ok 2 ∧
      b.allocateUnused.2.device.freeSlots.map Prod.fst = [1, 0] := by
  constructor
  · have hb : Reaches .empty ((start (.create (.lru { capacity := 3 }) MemoryDisk.empty
        none)).run deletingPinned).pool :=
      ⟨_, _, deletingPinned, by decide +kernel, Or.inl rfl⟩
    refine ⟨_, hb, unused_id_found.1 _ hb, ?_⟩
    decide +kernel
  · have hb : Reaches (.ofBytes []) ((start (.create (.lru { capacity := 3 }) (FileDisk.ofBytes [])
        none)).run deletingPinned).pool :=
      ⟨_, _, deletingPinned, by decide +kernel, Or.inl rfl⟩
    refine ⟨_, hb, unused_id_found.2 _ hb, ?_⟩
    decide +kernel

end Session

end BufferPool
