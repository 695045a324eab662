import Mathlib.Logic.Function.Basic
import BufferPool.Disk.Faulty
import BufferPool.Proofs.Pool.Outcomes

/-! # Lawful devices

What a pool relies on. A request changes the page that it names and no other,
a new id is that of no stored page, and a page that a write cannot find is not
stored. Planned failures keep a device lawful.
-/

namespace BufferPool

/-- An account of what is on a device: the stored bytes of its pages, which ids were handed out,
that so many more never were, what a page may hold before it is written, and that the books are in
order. -/
class Storage (δ : Type) where
  page? : δ → PageId → Option Page
  Known : δ → PageId → Prop
  Room : δ → Nat → Prop
  room_of_le {d : δ} {k m : Nat} : k ≤ m → Room d m → Room d k
  Fresh : Page → Prop
  Ok : δ → Prop

namespace Storage

variable {δ : Type} [Storage δ]

/-- From `d` to `d'` no new id was handed out. -/
structure Steady (d d' : δ) : Prop where
  ok : Ok d'
  known : ∀ p, Known d p → Known d' p
  room : ∀ m, Room d m → Room d' m

/-- From `d` to `d'` no stored page was lost or changed, and one new id was handed out at most. -/
structure Grown (d d' : δ) : Prop where
  ok : Ok d'
  known : ∀ p, Known d p → Known d' p
  room : ∀ m, Room d (m + 1) → Room d' m
  stored : ∀ p x, page? d p = some x → page? d' p = some x

theorem Steady.refl {d : δ} (h : Ok d) : Steady d d := ⟨h, fun _ => id, fun _ => id⟩

theorem Steady.trans {d d' d'' : δ} (h : Steady d d') (h' : Steady d' d'') : Steady d d'' :=
  ⟨h'.ok, fun p hp => h'.known p (h.known p hp), fun m hr => h'.room m (h.room m hr)⟩

theorem Steady.grown {d d' : δ} (h : Steady d d')
    (hstored : ∀ p x, page? d p = some x → page? d' p = some x) : Grown d d' :=
  ⟨h.ok, h.known, fun m hm => h.room m (room_of_le (Nat.le_succ m) hm), hstored⟩

theorem Grown.steady_trans {d d' d'' : δ} (h : Grown d d') (h' : Steady d' d'')
    (hstored : ∀ p x, page? d p = some x → page? d'' p = some x) : Grown d d'' :=
  ⟨h'.ok, fun p hp => h'.known p (h.known p hp), fun m hm => h'.room m (h.room m hm), hstored⟩

theorem Grown.absent {d d' : δ} {p : PageId} (h : Grown d d') (hp : page? d' p = none) :
    page? d p = none := by
  rcases hx : page? d p with _ | x
  · rfl
  · rw [h.stored p x hx] at hp
    cases hp

/-- The page `p`, which was not stored, was put on the device. -/
structure Added (d : δ) (p : PageId) (d' : δ) : Prop where
  ok : Ok d'
  known : ∀ q, Known d q → Known d' q
  known_self : Known d' p
  room : ∀ m, Room d (m + 1) → Room d' m
  absent : page? d p = none
  page? : ∃ x, Fresh δ x ∧ page? d' = Function.update (page? d) p (some x)

theorem Added.grown {d d' : δ} {p : PageId} (h : Added d p d') : Grown d d' := by
  refine ⟨h.ok, h.known, h.room, fun q x hq => ?_⟩
  obtain ⟨y, -, hy⟩ := h.page?
  have hqp : q ≠ p := by
    rintro rfl
    rw [h.absent] at hq
    cases hq
  rw [hy, Function.update_of_ne hqp, hq]

end Storage

open Storage in
/-- What holds of every request to a device whose books are in order. -/
class Lawful (δ : Type) [Device δ] extends Storage δ where
  known_of_page? {d : δ} {p : PageId} {x : Page} : Ok d → page? d p = some x → Known d p
  read {d d' : δ} {p : PageId} {r : Except DiskError Page} :
    Ok d → Device.read p d = (r, d') →
      Steady d d' ∧ page? d' = page? d ∧ ∀ x, r = .ok x → page? d p = some x
  write_ok {d d' : δ} {p : PageId} {x : Page} : Ok d → Device.write p x d = (.ok (), d') →
      Steady d d' ∧ page? d p ≠ none ∧ page? d' = Function.update (page? d) p (some x)
  write_error {d d' : δ} {p : PageId} {x : Page} {e : DiskError} :
    Ok d → Device.write p x d = (.error e, d') →
      Steady d d' ∧ page? d' = page? d ∧ (e.isMissing = true → page? d p = none)
  allocate_ok {d d' : δ} {p : PageId} : Ok d → Room d 1 → Device.allocate d = (.ok p, d') →
      Added d p d' ∧ (Known d p → ∀ m, Room d m → Room d' m)
  allocate_error {d d' : δ} {e : DiskError} :
    Ok d → Room d 1 → Device.allocate d = (.error e, d') → Grown d d'
  deallocate_ok {d d' : δ} {p : PageId} : Ok d → Device.deallocate p d = (.ok (), d') →
      Steady d d' ∧ page? d' = Function.update (page? d) p none
  deallocate_error {d d' : δ} {p : PageId} {e : DiskError} :
    Ok d → Device.deallocate p d = (.error e, d') → Steady d d' ∧ page? d' = page? d

namespace FaultyDisk

variable {δ : Type}

/-- No planned failure of a write makes it look as if its page did not exist. -/
def KeepsPages (d : FaultyDisk δ) : Prop :=
  ∀ i error p, d.writes.plan i = some error → (error p).isMissing = false

instance [Storage δ] : Storage (FaultyDisk δ) where
  page? d := Storage.page? d.device
  Known d := Storage.Known d.device
  Room d := Storage.Room d.device
  room_of_le hkm hroom := Storage.room_of_le hkm hroom
  Fresh := Storage.Fresh δ
  Ok d := Storage.Ok d.device ∧ d.KeepsPages

theorem attempt_cases {α : Type} {kind : Request} {p : PageId}
    {request : δ → Except DiskError α × δ} {d d' : FaultyDisk δ} {r : Except DiskError α}
    (h : d.attempt kind p request = (r, d')) :
    (∀ k, (d'.faults k).plan = (d.faults k).plan) ∧
      ((∃ error, (d.faults kind).next = some error ∧ r = .error (error p) ∧
          d'.device = d.device) ∨
        (d.faults kind).next = none ∧ request d.device = (r, d'.device)) := by
  unfold attempt at h
  cases kind <;> simp only [setFaults] at h <;> split at h <;> cases h
  all_goals
    rename_i hn
    refine ⟨fun k => by cases k <;> rfl, ?_⟩
  all_goals first
    | exact Or.inl ⟨_, hn, rfl, rfl⟩
    | exact Or.inr ⟨hn, rfl⟩

theorem KeepsPages.congr {d d' : FaultyDisk δ} (h : d.KeepsPages)
    (hplan : ∀ k, (d'.faults k).plan = (d.faults k).plan) : d'.KeepsPages := by
  intro i error p hi
  rw [show d'.writes.plan = d.writes.plan from hplan .write] at hi
  exact h i error p hi

theorem keepsPages_burst {d : δ} (skip count : Nat) {error : PageId → DiskError}
    (h : ∀ p, (error p).isMissing = false) :
    KeepsPages { device := d, writes := .burst skip count error } := by
  intro i e p hi
  simp only [Faults.burst] at hi
  split at hi
  · cases hi
    exact h p
  · cases hi

theorem steady [Storage δ] {d d' : FaultyDisk δ} (h : Storage.Steady d.device d'.device)
    (hd : d.KeepsPages) (hplan : ∀ k, (d'.faults k).plan = (d.faults k).plan) :
    Storage.Steady d d' :=
  ⟨⟨h.ok, hd.congr hplan⟩, h.known, h.room⟩

theorem steady_of_eq [Storage δ] {d d' : FaultyDisk δ} (hok : Storage.Ok d)
    (hplan : ∀ k, (d'.faults k).plan = (d.faults k).plan) (hd : d'.device = d.device) :
    Storage.Steady d d' ∧ Storage.page? d' = Storage.page? d := by
  refine ⟨steady ?_ hok.2 hplan, congrArg (Storage.page? (δ := δ)) hd⟩
  rw [hd]
  exact .refl hok.1

instance [Device δ] [Lawful δ] : Lawful (FaultyDisk δ) where
  known_of_page? hok hp := Lawful.known_of_page? hok.1 hp
  read hok h := by
    obtain ⟨hplan, ⟨error, -, rfl, hd⟩ | ⟨-, hr⟩⟩ := attempt_cases h
    · obtain ⟨hs, hpage⟩ := steady_of_eq hok hplan hd
      exact ⟨hs, hpage, fun _ hx => by cases hx⟩
    · obtain ⟨hs, hpage⟩ := Lawful.read hok.1 hr
      exact ⟨steady hs hok.2 hplan, hpage⟩
  write_ok hok h := by
    obtain ⟨hplan, ⟨_, -, hx, -⟩ | ⟨-, hr⟩⟩ := attempt_cases h
    · cases hx
    · obtain ⟨hs, hpage⟩ := Lawful.write_ok hok.1 hr
      exact ⟨steady hs hok.2 hplan, hpage⟩
  write_error {d d' p x e} hok h := by
    obtain ⟨hplan, ⟨error, hn, hx, hd⟩ | ⟨-, hr⟩⟩ := attempt_cases h
    · obtain ⟨hs, hpage⟩ := steady_of_eq hok hplan hd
      refine ⟨hs, hpage, fun he => ?_⟩
      have hkeep : (error p).isMissing = false := hok.2 _ error p hn
      rw [Except.error.inj hx, hkeep] at he
      cases he
    · obtain ⟨hs, hpage⟩ := Lawful.write_error hok.1 hr
      exact ⟨steady hs hok.2 hplan, hpage⟩
  allocate_ok hok hroom h := by
    obtain ⟨hplan, ⟨_, -, hx, -⟩ | ⟨-, hr⟩⟩ := attempt_cases h
    · cases hx
    · obtain ⟨ha, hroom'⟩ := Lawful.allocate_ok hok.1 hroom hr
      exact ⟨⟨⟨ha.ok, hok.2.congr hplan⟩, ha.known, ha.known_self, ha.room, ha.absent, ha.page?⟩,
        hroom'⟩
  allocate_error hok hroom h := by
    obtain ⟨hplan, ⟨error, -, -, hd⟩ | ⟨-, hr⟩⟩ := attempt_cases h
    · obtain ⟨hs, hpage⟩ := steady_of_eq hok hplan hd
      exact hs.grown fun p x hp => by rw [hpage, hp]
    · have hg := Lawful.allocate_error hok.1 hroom hr
      exact ⟨⟨hg.ok, hok.2.congr hplan⟩, hg.known, hg.room, hg.stored⟩
  deallocate_ok hok h := by
    obtain ⟨hplan, ⟨_, -, hx, -⟩ | ⟨-, hr⟩⟩ := attempt_cases h
    · cases hx
    · obtain ⟨hs, hpage⟩ := Lawful.deallocate_ok hok.1 hr
      exact ⟨steady hs hok.2 hplan, hpage⟩
  deallocate_error hok h := by
    obtain ⟨hplan, ⟨error, -, -, hd⟩ | ⟨-, hr⟩⟩ := attempt_cases h
    · exact steady_of_eq hok hplan hd
    · obtain ⟨hs, hpage⟩ := Lawful.deallocate_error hok.1 hr
      exact ⟨steady hs hok.2 hplan, hpage⟩

end FaultyDisk

namespace Pool

open Storage

variable {δ : Type} [Device δ] [Lawful δ] {d d' d'' : δ} {inUse : PageId → Bool} {fuel : Nat}
  {answer : Except DiskError PageId} {skipped : List PageId}

theorem GivesBack.steady {ps : List PageId} {r : Except PoolError Unit}
    (h : GivesBack ps d r d') (hok : Ok d) :
    Steady d d' ∧ ∀ p, p ∉ ps → page? d' p = page? d p := by
  induction h with
  | done => exact ⟨.refl hok, fun _ _ => rfl⟩
  | refused hd =>
    obtain ⟨hs, hpage⟩ := Lawful.deallocate_error hok hd
    exact ⟨hs, fun p _ => by rw [hpage]⟩
  | released hd _ ih =>
    obtain ⟨hs, hpage⟩ := Lawful.deallocate_ok hok hd
    obtain ⟨hs', hpage'⟩ := ih hs.ok
    refine ⟨hs.trans hs', fun p hp => ?_⟩
    rw [List.mem_cons, not_or] at hp
    rw [hpage' p hp.2, hpage, Function.update_of_ne hp.1]

namespace BoundedSearch

theorem grown (h : BoundedSearch inUse fuel d answer skipped d') (hok : Ok d) (hroom : Room d 1)
    (hknown : ∀ p, inUse p → Known d p) : Grown d d' ∧ ∀ q ∈ skipped, page? d q = none := by
  induction h with
  | spent => exact ⟨(Steady.refl hok).grown fun _ _ => id, nofun⟩
  | refused ha => exact ⟨Lawful.allocate_error hok hroom ha, nofun⟩
  | found ha => exact ⟨(Lawful.allocate_ok hok hroom ha).1.grown, nofun⟩
  | skipped ha hused _ ih =>
    obtain ⟨hadd, hroom'⟩ := Lawful.allocate_ok hok hroom ha
    -- An id in use was handed out before, so the search has not used up a new one.
    have hold := hroom' (hknown _ hused)
    obtain ⟨hg, hskip⟩ := ih hadd.ok (hold 1 hroom) fun p hp => hadd.known p (hknown p hp)
    constructor
    · exact ⟨hg.ok, fun p hp => hg.known p (hadd.known p hp), fun m hm => hg.room m (hold _ hm),
        fun p x hp => hg.stored p x (hadd.grown.stored p x hp)⟩
    · exact List.forall_mem_cons.mpr ⟨hadd.absent, fun q hq => hadd.grown.absent (hskip q hq)⟩

theorem found_fresh {p : PageId} (h : BoundedSearch inUse fuel d (.ok p) skipped d') (hok : Ok d)
    (hroom : Room d 1) (hknown : ∀ p, inUse p → Known d p) :
    Known d' p ∧ page? d p = none ∧ ∃ x, Fresh δ x ∧ page? d' p = some x := by
  generalize hp : (Except.ok p : Except DiskError PageId) = answer at h
  induction h with
  | spent | refused => cases hp
  | found ha =>
    cases hp
    obtain ⟨hadd, -⟩ := Lawful.allocate_ok hok hroom ha
    obtain ⟨x, hx, hpage⟩ := hadd.page?
    exact ⟨hadd.known_self, hadd.absent, x, hx, by rw [hpage, Function.update_self]⟩
  | skipped ha hused _ ih =>
    obtain ⟨hadd, hroom'⟩ := Lawful.allocate_ok hok hroom ha
    obtain ⟨hk, hn, hfresh⟩ := ih hadd.ok (hroom' (hknown _ hused) 1 hroom)
      (fun p hp => hadd.known p (hknown p hp)) hp
    exact ⟨hk, hadd.grown.absent hn, hfresh⟩

theorem grown_back {r : Except PoolError Unit} (h : BoundedSearch inUse fuel d answer skipped d')
    (hback : GivesBack skipped d' r d'') (hok : Ok d) (hroom : Room d 1)
    (hknown : ∀ p, inUse p → Known d p) : Grown d d'' := by
  obtain ⟨hg, hskip⟩ := h.grown hok hroom hknown
  obtain ⟨hs, hpage⟩ := hback.steady hg.ok
  apply hg.steady_trans hs
  intro p x hp
  rw [hpage p, hg.stored p x hp]
  intro hm
  rw [hskip p hm] at hp
  cases hp

end BoundedSearch

/-- An allocation puts one page on the device, which was not there and is not cached. -/
theorem allocateUnused_spec {n : Nat} {b b' : Pool δ n} {answer : Except PoolError PageId}
    (hok : Ok b.device) (hroom : Room b.device 1)
    (hknown : ∀ p, b.isCached p → Known b.device p) (h : b.allocateUnused = (answer, b')) :
    Grown b.device b'.device ∧ ∀ p, answer = .ok p → Known b'.device p ∧
      page? b.device p = none ∧ ∃ x, Fresh δ x ∧ page? b'.device p = some x := by
  cases allocateUnused_outcome h with
  | refused search back | unreturned search back =>
    exact ⟨search.grown_back back hok hroom hknown, nofun⟩
  | @found d d' p skipped search back =>
    refine ⟨search.grown_back back hok hroom hknown, ?_⟩
    rintro _ ⟨⟩
    obtain ⟨hg, -⟩ := search.grown hok hroom hknown
    obtain ⟨hk, hn, x, hx, hself⟩ := search.found_fresh hok hroom hknown
    obtain ⟨hs, hpage⟩ := back.steady hg.ok
    exact ⟨hs.known p hk, hn, x, hx, by rw [hpage p search.not_mem_skipped, hself]⟩

end Pool

end BufferPool
