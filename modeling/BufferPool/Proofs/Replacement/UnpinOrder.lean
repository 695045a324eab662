import BufferPool.Proofs.Replacement.Chronicle

/-! # The order of the first unpins

Least-recently-unpinned replacement over whole runs. The evictable entries wait
in the order in which they were unpinned. Unpinning an entry again leaves it in
its place, and being pinned, removed or answered as a victim costs it the place.
-/

namespace BufferPool

open Replacer Event

variable {α : Type} [DecidableEq α] {a b : α}

namespace Replacer.Event

variable {e : Event α} {past : List (Event α)} {i : Nat}

/-- When an entry was first unpinned, since it was last pinned, removed or answered as a victim. The
time of an event is the number of events before it. -/
def firstUnpin (a : α) : List (Event α) → Option Nat
  | [] => none
  | unpin b :: past =>
    if b = a then (firstUnpin a past).or (some past.length) else firstUnpin a past
  | e :: past => if e.target? = some a then none else firstUnpin a past

theorem firstUnpin_cons_of_ne (h : e.target? ≠ some a) :
    firstUnpin a (e :: past) = firstUnpin a past := by
  cases e with
  | unpin b => exact if_neg fun hb => h (congrArg some hb)
  | _ => exact if_neg h

theorem firstUnpin_unpin_self :
    firstUnpin a (unpin a :: past) = (firstUnpin a past).or (some past.length) := if_pos rfl

theorem firstUnpin_cons_self (h : e.target? = some a) (he : e ≠ unpin a) :
    firstUnpin a (e :: past) = none := by
  cases e with
  | unpin b =>
    cases h
    exact absurd rfl he
  | _ => exact if_pos h

theorem lt_of_firstUnpin (h : firstUnpin a past = some i) : i < past.length := by
  induction past with
  | nil => cases h
  | cons e past ih =>
    by_cases htarget : e.target? = some a
    · by_cases he : e = unpin a
      · rw [he, firstUnpin_unpin_self, Option.or_eq_some_iff] at h
        rcases h with h | ⟨-, h⟩
        · exact Nat.lt_succ_of_lt (ih h)
        · cases h
          exact Nat.lt_succ_self _
      · rw [firstUnpin_cons_self htarget he] at h
        cases h
    · rw [firstUnpin_cons_of_ne htarget] at h
      exact Nat.lt_succ_of_lt (ih h)

theorem isSome_firstUnpin_iff : (firstUnpin a past).isSome = true ↔ Evictable a past := by
  induction past with
  | nil => simp [firstUnpin, Evictable, latest]
  | cons e past ih =>
    rw [evictable_cons]
    split
    · rename_i htarget
      by_cases he : e = unpin a
      · simp [he, firstUnpin_unpin_self]
      · simp [he, firstUnpin_cons_self htarget he]
    · rename_i htarget
      rw [firstUnpin_cons_of_ne htarget, ih]

end Replacer.Event

namespace Replacer

theorem line_lru (r : Lru α) : (lru r).line = r.queue := by
  obtain ⟨capacity, queue⟩ := r
  induction queue with
  | nil => rfl
  | cons a queue ih => exact congrArg (a :: ·) ih

end Replacer

namespace Chronicle

variable {s t : Chronicle α}

structure Queued (s : Chronicle α) : Prop extends Told s where
  exists_queue : ∃ r, s.replacer = .lru r ∧
    r.queue.Pairwise fun a b => Earlier (firstUnpin a s.past) (firstUnpin b s.past)

namespace Queued

variable {r : Lru α} {past : List (Event α)} {queue : List α} {e : Event α}

theorem start (capacity : Nat) : Queued (⟨.lru { capacity }, []⟩ : Chronicle α) where
  toTold := by
    have hpolicy : Replacer.ofPolicy capacity .lru = .ok (.lru { capacity } : Replacer α) := rfl
    exact .ofPolicy hpolicy
  exists_queue := ⟨_, rfl, .nil⟩

theorem keep {past' : List (Event α)}
    (h : r.queue.Pairwise fun a b => Earlier (firstUnpin a past) (firstUnpin b past))
    (hsub : queue.Sublist r.queue) (he : ∀ a ∈ queue, firstUnpin a past' = firstUnpin a past) :
    queue.Pairwise fun a b => Earlier (firstUnpin a past') (firstUnpin b past') := by
  apply (h.sublist hsub).imp_of_mem
  intro a b ha hb hab
  rwa [he a ha, he b hb]

theorem leave (hr : r.Sound)
    (h : r.queue.Pairwise fun a b => Earlier (firstUnpin a past) (firstUnpin b past))
    (he : e.target? = some a) : (r.pin a).queue.Pairwise fun b c =>
      Earlier (firstUnpin b (e :: past)) (firstUnpin c (e :: past)) := by
  apply keep h List.erase_sublist
  intro b hb
  apply firstUnpin_cons_of_ne
  intro htarget
  have hne := ((List.Nodup.mem_erase_iff hr).mp hb).1
  exact hne (Option.some.inj (htarget.symm.trans he))

theorem join (hev : ∀ a, r.isEvictable a = true ↔ Evictable a past)
    (h : r.queue.Pairwise fun a b => Earlier (firstUnpin a past) (firstUnpin b past)) :
    (r.unpin a).queue.Pairwise fun b c =>
      Earlier (firstUnpin b (unpin a :: past)) (firstUnpin c (unpin a :: past)) := by
  have hplace : ∀ b ∈ r.queue, ∃ i < past.length, firstUnpin b past = some i ∧
      firstUnpin b (unpin a :: past) = some i := by
    intro b hb
    have hsome := isSome_firstUnpin_iff.mpr ((hev b).mp (Lru.isEvictable_iff.mpr hb))
    obtain ⟨i, hi⟩ := Option.isSome_iff_exists.mp hsome
    refine ⟨i, lt_of_firstUnpin hi, hi, ?_⟩
    rcases eq_or_ne a b with rfl | hab
    · rw [firstUnpin_unpin_self, hi, Option.some_or]
    · rw [firstUnpin_cons_of_ne (by simpa [target?] using hab), hi]
  have hkeep : r.queue.Pairwise fun b c =>
      Earlier (firstUnpin b (unpin a :: past)) (firstUnpin c (unpin a :: past)) := by
    apply keep h (.refl _)
    intro b hb
    obtain ⟨i, -, hi, hi'⟩ := hplace b hb
    rw [hi, hi']
  unfold Lru.unpin
  split
  · exact hkeep
  · rename_i ha
    have hnone : firstUnpin a past = none := by
      rw [← Option.not_isSome_iff_eq_none, isSome_firstUnpin_iff, ← hev, Lru.isEvictable_iff]
      exact ha
    apply List.pairwise_append.mpr ⟨hkeep, List.pairwise_singleton _ _, _⟩
    intro b hb c hc
    obtain rfl := List.mem_singleton.mp hc
    obtain ⟨i, hlt, -, hi⟩ := hplace b hb
    refine ⟨i, hi, past.length, ?_, hlt⟩
    rw [firstUnpin_unpin_self, hnone, Option.none_or]
    rfl

theorem step (h : s.Queued) (hst : Step s t) : t.Queued := by
  refine ⟨h.toTold.step hst, ?_⟩
  obtain ⟨r, hr, hqueue⟩ := h.exists_queue
  have hsound := h.sound
  have hevictable := h.evictable
  rw [hr] at hsound hevictable
  cases hst with
  | pin a =>
    refine ⟨r.pin a, by rw [hr]; rfl, ?_⟩
    exact leave hsound hqueue rfl
  | unpin a =>
    refine ⟨r.unpin a, by rw [hr]; rfl, ?_⟩
    exact join hevictable hqueue
  | forget he =>
    refine ⟨r.remove _, by rw [hr]; rfl, ?_⟩
    apply leave hsound hqueue
    rcases he with rfl | rfl <;> rfl
  | idle he =>
    refine ⟨r, hr, keep hqueue (.refl _) fun b _ => ?_⟩
    apply firstUnpin_cons_of_ne
    simp [he]

theorem run (h : s.Queued) (calls : List (Call α)) : (s.run calls).Queued :=
  run_induction (fun _ _ hst hs => hs.step hst) h calls

end Queued

/-- The evictable entries are the ones that were unpinned, and nothing came after. They wait in line
in the order of their first unpins since anything else, are given up in this order, and then there
is none. Looking at the first of them changes nothing. -/
structure InUnpinOrder (s : Chronicle α) : Prop where
  evictable : ∀ a, s.replacer.isEvictable a = true ↔ Evictable a s.past
  line : ∃ line : List α, line.Nodup ∧ (∀ a, a ∈ line ↔ Evictable a s.past) ∧
    (line.Pairwise fun a b => Earlier (firstUnpin a s.past) (firstUnpin b s.past)) ∧
    s.replacer.size = line.length ∧
    s.call .peek = ⟨s.replacer, .peek line.head? :: s.past⟩ ∧
    ∀ m, s.replacer.answers m = (line.take m).map some ++ List.replicate (m - line.length) none

/-- Whatever its capacity and whatever it is told, a least-recently-unpinned replacer keeps the
entries in the order of their first unpins. -/
theorem evicts_least_recently_unpinned (capacity : Nat) (calls : List (Call α)) :
    InUnpinOrder (run ⟨.lru { capacity }, []⟩ calls) := by
  have h := (Queued.start (α := α) capacity).run calls
  obtain ⟨r, hr, hqueue⟩ := h.exists_queue
  obtain ⟨hnodup, hmem, hsize⟩ := h.toTold.exists_line
  refine ⟨h.evictable, _, hnodup, hmem, ?_, hsize, ?_, answers_eq h.sound⟩
  · rw [hr, line_lru]
    exact hqueue
  · rw [call, peek_eq_head?_line h.sound]

/-- An entry that is unpinned again keeps its place, and one that is pinned in between loses it. -/
example : (run ⟨.lru { capacity := 1 }, []⟩
    [.unpin 3, .unpin 1, .unpin 2, .unpin 3, .pin 1, .unpin 1, .victim]).replacer.answers 3 =
      [some 2, some 1, none] := by
  decide

end Chronicle

end BufferPool
