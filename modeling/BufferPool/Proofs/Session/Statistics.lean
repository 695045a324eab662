import BufferPool.Disk.Faulty
import BufferPool.Proofs.Session.Logged
import BufferPool.Proofs.Session.Undisturbed

/-! # Statistics that add up

The counters of a pool agree with what was asked of the pool, with what the
pool asked of its device, and with the number of pages that it holds, whatever
fails.
-/

namespace BufferPool

open Journaled

variable {δ : Type} {n : Nat}

namespace Pool

variable {b b' : Pool δ n} {f : Fin n} {p : PageId}

theorem size_erase (hp : b.frameOf? p = some f) : (b.table.erase p).size + 1 = b.table.size := by
  have hmem : p ∈ b.table := Std.ExtTreeMap.mem_iff_isSome_getElem?.mpr (isCached_of_frameOf? hp)
  have hpos : b.table.size ≠ 0 := by
    rw [Ne, ← Std.ExtTreeMap.eq_empty_iff_size_eq_zero]
    intro hz
    rw [hz] at hmem
    exact Std.ExtTreeMap.not_mem_empty hmem
  rw [Std.ExtTreeMap.size_erase, if_pos (Std.ExtTreeMap.contains_iff_mem.mpr hmem)]
  omega

theorem size_insert (hp : b.frameOf? p = none) (f : Fin n) :
    (b.table.insert p f).size = b.table.size + 1 := by
  have hmem : p ∉ b.table := by
    rw [Std.ExtTreeMap.mem_iff_isSome_getElem?, Option.not_isSome_iff_eq_none]
    exact hp
  rw [Std.ExtTreeMap.size_insert, if_neg (mt Std.ExtTreeMap.contains_iff_mem.mp hmem)]

variable [Device δ]

theorem stats_writeBack (b : Pool δ n) (p : PageId) (data : Page) :
    (b.writeBack p data).2.stats.allocations = b.stats.allocations ∧
      (b.writeBack p data).2.stats.deletions = b.stats.deletions := by
  unfold Pool.writeBack
  rcases Device.write p data b.device with ⟨_ | _, d⟩ <;> exact ⟨rfl, rfl⟩

theorem allocations_flushNow (b : Pool δ n) (p : PageId) :
    (b.flushNow p).2.stats.allocations = b.stats.allocations := by
  rcases flushNow_cases b p with h | ⟨f, data, dirty, h⟩
  · rw [h]
  · rw [h]
    exact (stats_writeBack b p data).1

theorem allocations_takeFrame (b : Pool δ n) :
    b.takeFrame.2.stats.allocations = b.stats.allocations := by
  obtain ⟨b', rfl | ⟨p, rfl⟩, -, hstats⟩ := takeFrame_flushes b
  · exact hstats
  · exact hstats.trans (allocations_flushNow b p)

theorem allocations_new (b : Pool δ n) :
    b.new.2.stats.allocations = b.stats.allocations + (b.new.1.toOption.join.isSome).toNat := by
  have htake := allocations_takeFrame b
  rcases hn : b.new with ⟨answer, b'⟩
  cases new_outcome hn with
  | refused ht | full ht =>
    rw [ht] at htake
    exact htake
  | created ht ha =>
    rw [ht] at htake
    have hallocate := congrArg Pool.stats (eq_of_allocateUnused ha)
    exact congrArg (· + 1) ((congrArg Stats.allocations hallocate).trans htake)
  | unallocated ht ha =>
    rw [ht] at htake
    have hallocate := congrArg Pool.stats (eq_of_allocateUnused ha)
    exact (congrArg Stats.allocations hallocate).trans htake

variable [Journaled δ]

/-- The counters agree with what the device has carried out since its journal was `base`, and with
the number of cached pages, if so many deletions have freed a frame. -/
structure Reconciled (b : Pool δ n) (base : List DiskEvent) (freed : Nat) : Prop where
  fetches : b.stats.fetches = b.stats.hits + b.stats.misses
  writeBacks : b.stats.writeBacks + base.countP DiskEvent.isWrite =
    (journal b.device).countP DiskEvent.isWrite
  cached : b.table.size + b.stats.evictions + freed + base.countP DiskEvent.isRead =
    b.stats.allocations + (journal b.device).countP DiskEvent.isRead

theorem Reconciled.create (r : Replacer (Fin n)) (d : δ) (log : Option Log) :
    (Pool.create r d log).Reconciled (journal d) 0 := by
  constructor <;> simp [Pool.create]

theorem Reconciled.congr {base : List DiskEvent} {freed : Nat} (h : b.Reconciled base freed)
    (table : b'.table = b.table) (stats : b'.stats = b.stats)
    (device : SameTransfers b.device b'.device) : b'.Reconciled base freed where
  fetches := by
    rw [stats]
    exact h.fetches
  writeBacks := by
    rw [stats, device.countP (by simp +contextual [DiskEvent.isTransfer])]
    exact h.writeBacks
  cached := by
    rw [stats, table, device.countP (by simp +contextual [DiskEvent.isTransfer])]
    exact h.cached

theorem Reconciled.writeBacks_eq {base events : List DiskEvent} {freed freed' : Nat}
    (h : b.Reconciled base freed) (h' : b'.Reconciled base freed')
    (hevents : journal b'.device = journal b.device ++ events) :
    b'.stats.writeBacks = b.stats.writeBacks + events.countP DiskEvent.isWrite := by
  have hbefore := h.writeBacks
  have hafter := h'.writeBacks
  rw [hevents, List.countP_append] at hafter
  omega

theorem Reconciled.writeBack {base : List DiskEvent} {freed : Nat} (h : b.Reconciled base freed)
    (p : PageId) (data : Page) : (b.writeBack p data).2.Reconciled base freed := by
  unfold Pool.writeBack
  rcases hw : Device.write p data b.device with ⟨e | _, d⟩
  · have hj : journal d = journal b.device ++ [] := Journaled.write hw
    refine h.congr rfl rfl ?_
    rw [SameTransfers, hj, List.append_nil]
  · have hj : journal d = journal b.device ++ [.write p] := Journaled.write hw
    constructor
    · exact h.fetches
    · have := h.writeBacks
      simp only [modifyStats, hj, List.countP_append, List.countP_singleton, DiskEvent.isWrite,
        if_true]
      omega
    · simp only [modifyStats, hj, List.countP_append, List.countP_singleton, DiskEvent.isRead,
        Bool.false_eq_true, if_false, Nat.add_zero]
      exact h.cached

def frees (b : Pool δ n) (p : PageId) : Bool :=
  b.isCached p && (b.delete p).1.toOption == some true

theorem Reconciled.delete {base : List DiskEvent} {freed : Nat} (h : b.Reconciled base freed)
    (p : PageId) : (b.delete p).2.Reconciled base (freed + (b.frees p).toNat) ∧
      (b.delete p).2.stats.allocations = b.stats.allocations ∧
      (b.delete p).2.stats.deletions =
        b.stats.deletions + ((b.delete p).1.toOption == some true).toNat := by
  have hb {r : Except DiskError Unit} {d : δ} (hd : Device.deallocate p b.device = (r, d)) :
      Reconciled { b with device := d } base freed :=
    h.congr rfl rfl (sameTransfers_deallocate hd)
  unfold frees
  rcases hr : b.delete p with ⟨answer, b'⟩
  cases delete_outcome hr with
  | @refused e d hd =>
    rw [show ((Except.error (.deallocating p e) : Except PoolError Bool).toOption == some true) =
      false from rfl, Bool.and_false]
    exact ⟨hb hd, rfl, rfl⟩
  | uncached hd hp =>
    obtain ⟨hfetches, hwriteBacks, hcached⟩ := hb hd
    rw [isCached_eq_false_iff.mpr hp]
    exact ⟨⟨hfetches, hwriteBacks, hcached⟩, rfl, rfl⟩
  | freed hd hp =>
    obtain ⟨hfetches, hwriteBacks, hcached⟩ := hb hd
    rw [isCached_of_frameOf? hp]
    refine ⟨⟨hfetches, hwriteBacks, ?_⟩, rfl, rfl⟩
    have hsize := size_erase hp
    simp only [modifyStats, discard, modifyFrame] at hcached ⊢
    change _ + _ + (freed + 1) + _ = _
    omega
  | pinned hd hp =>
    rw [isCached_of_frameOf? hp]
    exact ⟨hb hd, rfl, rfl⟩

end Pool

namespace Session

open Pool

variable [Device δ] {s t : Session δ n} {e : Event n} {a : Action n} {as : List (Action n)}
  {base : List DiskEvent} {freed : Nat}

/-- The action is a request for a new page that gets a frame. -/
def creates (s : Session δ n) : Action n → Bool
  | .call .new => s.pool.new.1.toOption.join.isSome
  | _ => false

def deletes (s : Session δ n) : Action n → Bool
  | .call (.delete p) => (s.pool.delete p).1.toOption == some true
  | _ => false

def frees (s : Session δ n) : Action n → Bool
  | .call (.delete p) => s.pool.frees p
  | _ => false

section Map

variable {ε : Type} [Device ε] {φ : δ → ε}

theorem creates_map (hφ : Device.Hom φ) (s : Session δ n) (a : Action n) :
    (s.mapDevice φ).creates a = s.creates a := by
  cases a with
  | call c =>
    cases c with
    | new => simp only [creates, mapDevice, map_new hφ, Prod.map_fst, id_eq]
    | _ => rfl
  | _ => rfl

theorem deletes_map (hφ : Device.Hom φ) (s : Session δ n) (a : Action n) :
    (s.mapDevice φ).deletes a = s.deletes a := by
  cases a with
  | call c =>
    cases c with
    | delete p => simp only [deletes, mapDevice, map_delete hφ, Prod.map_fst, id_eq]
    | _ => rfl
  | _ => rfl

theorem frees_map (hφ : Device.Hom φ) (s : Session δ n) (a : Action n) :
    (s.mapDevice φ).frees a = s.frees a := by
  cases a with
  | call c =>
    cases c with
    | delete p =>
      simp only [frees, Pool.frees, mapDevice, map_delete hφ, Prod.map_fst, id_eq]
      rfl
    | _ => rfl
  | _ => rfl

end Map

theorem Move.stats_eq (hm : Move s e t) :
    (e.allocates = false → t.pool.stats.allocations = s.pool.stats.allocations) ∧
      (e.deallocated? = none → t.pool.stats.deletions = s.pool.stats.deletions) := by
  cases hm with
  | created => exact ⟨nofun, fun _ => rfl⟩
  | deleted | freed => exact ⟨fun _ => rfl, nofun⟩
  | written hi =>
    have hback := stats_writeBack s.pool
    exact ⟨fun _ => (hback ..).1, fun _ => (hback ..).2⟩
  | closed hi =>
    simp only [closeWindow_eq]
    exact ⟨fun _ => rfl, fun _ => rfl⟩
  | _ => exact ⟨fun _ => rfl, fun _ => rfl⟩

variable [Journaled δ]

theorem Move.reconciled (hm : Move s e t) (he : e.deallocated? = none)
    (h : s.pool.Reconciled base freed) : t.pool.Reconciled base freed := by
  cases hm with
  | missed | hit =>
    refine ⟨?_, h.writeBacks, h.cached⟩
    have := h.fetches
    simp only [modifyStats, modifyFrame]
    omega
  | @saved p f d hp hd hw | @dropped p f d e hp hd hw he | @refused p f d e hp hd hw he =>
    have hback := h.writeBack p (s.pool.frames.get f).data
    simp only [Pool.writeBack, hw] at hback
    exact hback.congr rfl rfl rfl
  | @evicted p f hp =>
    refine ⟨h.fetches, h.writeBacks, ?_⟩
    have := h.cached
    have := size_erase hp
    simp only [modifyStats, vacate, modifyFrame]
    omega
  | @loaded p f free data d hp hf hr =>
    have hj : journal d = journal s.pool.device ++ [.read p] := Journaled.read hr
    refine ⟨h.fetches, ?_, ?_⟩
    · simp only [seat, install, modifyFrame, hj, List.countP_append, List.countP_singleton,
        DiskEvent.isWrite, Bool.false_eq_true, if_false, Nat.add_zero]
      exact h.writeBacks
    · have := h.cached
      have := size_insert hp f
      simp only [seat, install, modifyFrame, hj, List.countP_append, List.countP_singleton,
        DiskEvent.isRead, if_true]
      omega
  | @unread p f free e d hp hf hr =>
    have hj : journal d = journal s.pool.device ++ [] := Journaled.read hr
    refine h.congr rfl rfl ?_
    rw [SameTransfers, ← List.append_nil (journal s.pool.device), ← hj]
    rfl
  | @created p f free b hp hf ha =>
    have hb : ({ s.pool with device := b.device } : Pool δ n).Reconciled base freed :=
      h.congr rfl rfl (show SameTransfers s.pool.device b.device from
        sameTransfers_allocateUnused ha)
    refine ⟨hb.fetches, hb.writeBacks, ?_⟩
    have := hb.cached
    have := size_insert hp f
    simp only [modifyStats, seat, install, modifyFrame] at *
    omega
  | @unallocated f free b e hf ha =>
    exact h.congr rfl rfl (show SameTransfers s.pool.device b.device from
      sameTransfers_allocateUnused ha)
  | released | put | opened => exact h.congr rfl rfl rfl
  | undeleted hd => exact h.congr rfl rfl (sameTransfers_deallocate hd)
  | deleted | condemned | freed => cases he
  | written hi => exact h.writeBack ..
  | closed =>
    simp only [closeWindow_eq]
    exact h.congr rfl rfl rfl

omit [Journaled δ] in
theorem Regular.allocations_eq (ha : s.Regular a) : (s.step a).pool.stats.allocations =
    s.pool.stats.allocations + (s.creates a).toNat := by
  by_cases hnew : a = .call .new
  · subst hnew
    exact allocations_new s.pool
  have hcreates : s.creates a = false := by
    cases a with
    | call c =>
      cases c with
      | new => exact absurd rfl hnew
      | _ => rfl
    | _ => rfl
  rw [hcreates]
  refine ha.step_induction (P := fun t => t.pool.stats.allocations = s.pool.stats.allocations)
    ?_ (fun _ _ _ _ => id) rfl
  intro s' e t _ hm he hs
  refine (hm.stats_eq.1 ?_).trans hs
  exact Bool.eq_false_iff.mpr fun hallocates => hnew (he.of_allocates hallocates)

theorem Regular.reconciled (ha : s.Regular a) (h : s.pool.Reconciled base freed) :
    (s.step a).pool.Reconciled base (freed + (s.frees a).toNat) ∧
      (s.step a).pool.stats.allocations =
        s.pool.stats.allocations + (s.creates a).toNat ∧
      (s.step a).pool.stats.deletions = s.pool.stats.deletions + (s.deletes a).toNat := by
  by_cases hdel : ∃ p, a = .call (.delete p)
  · obtain ⟨p, rfl⟩ := hdel
    exact h.delete p
  have hkept : (s.step a).pool.Reconciled base freed ∧
      (s.step a).pool.stats.deletions = s.pool.stats.deletions := by
    refine ha.step_induction (P := fun t => t.pool.Reconciled base freed ∧
      t.pool.stats.deletions = s.pool.stats.deletions) ?_ ?_ ⟨h, rfl⟩
    · rintro s' e t - hm he ⟨h, hd⟩
      have hnone : e.deallocated? = none := Option.eq_none_iff_forall_ne_some.mpr fun p hp =>
        hdel ⟨p, (he.of_deallocated? hp).1⟩
      exact ⟨hm.reconciled hnone h, (hm.stats_eq.2 hnone).trans hd⟩
    · rintro p f - - ⟨h, hd⟩
      refine ⟨⟨?_, h.writeBacks, h.cached⟩, hd⟩
      have := h.fetches
      simp only [hit, modifyStats, modifyFrame]
      omega
  have hfrees : s.frees a = false ∧ s.deletes a = false := by
    cases a with
    | call c =>
      cases c with
      | delete p => exact absurd ⟨p, rfl⟩ hdel
      | _ => exact ⟨rfl, rfl⟩
    | _ => exact ⟨rfl, rfl⟩
  rw [hfrees.1, hfrees.2]
  exact ⟨hkept.1, ha.allocations_eq, hkept.2⟩

theorem reconciled_run (has : s.Along Regular as) (h : s.pool.Reconciled base freed) :
    (s.run as).pool.Reconciled base (freed + tally frees s as) ∧
      (s.run as).pool.stats.allocations = s.pool.stats.allocations + tally creates s as ∧
      (s.run as).pool.stats.deletions = s.pool.stats.deletions + tally deletes s as := by
  induction as generalizing s freed with
  | nil => exact ⟨h, rfl, rfl⟩
  | cons a as ih =>
    obtain ⟨hstep, hallocations, hdeletions⟩ := has.1.reconciled h
    obtain ⟨hrun, hallocations', hdeletions'⟩ := ih has.2 hstep
    rw [hallocations] at hallocations'
    rw [hdeletions] at hdeletions'
    simp only [tally, ← Nat.add_assoc]
    exact ⟨hrun, hallocations', hdeletions'⟩

omit [Journaled δ] in
/-- Whatever fails and whoever acts, the counters agree with what has happened: every fetch was a
hit or a miss, every write-back was a write that succeeded, every allocation a request for a page
that got a frame, and every deletion one that was answered so. Pages came into the pool by
allocations and by reads that succeeded, and went by evictions and deletions. -/
theorem statistics_reconcile {c : Config} {d : δ} {log : Option Log} {b : Pool δ c.poolSize}
    (hb : Pool.ofConfig c d log = .ok b) (as : List (Action c.poolSize))
    (has : (start b).Undisturbed as) (t : Pool δ c.poolSize) (ht : t = ((start b).run as).pool)
    (events : List DiskEvent) (hevents : events = (start b).requests as) :
    t.stats.fetches = t.stats.hits + t.stats.misses ∧ t.stats.hits ≤ t.stats.fetches ∧
      t.stats.writeBacks = events.countP DiskEvent.isWrite ∧
      t.stats.allocations = tally creates (start b) as ∧
      t.stats.deletions = tally deletes (start b) as ∧
      t.table.size + t.stats.evictions + tally frees (start b) as =
        t.stats.allocations + events.countP DiskEvent.isRead := by
  have hregular := (has.along_regular_logged hb).1
  obtain ⟨r, hr, rfl⟩ := exists_create_of_ofConfig hb
  obtain ⟨h, hallocations, hdeletions⟩ :=
    reconciled_run hregular (.create r (⟨d, []⟩ : Logged δ) log)
  rw [tally_logged (creates_map Logged.hom_device)] at hallocations
  rw [tally_logged (deletes_map Logged.hom_device)] at hdeletions
  rw [tally_logged (frees_map Logged.hom_device)] at h
  -- The pool on the device itself has the same counters and the same table.
  obtain rfl : t = ((start (Pool.create r d log)).logged.run as).pool.mapDevice Logged.device :=
    ht.trans (congrArg Session.pool (forget_run _ as)).symm
  have hcached := h.cached
  rw [Nat.zero_add] at hcached
  subst hevents
  refine ⟨h.fetches, ?_, h.writeBacks, ?_, ?_, hcached⟩
  · exact Nat.le.intro h.fetches.symm
  · exact hallocations.trans (Nat.zero_add _)
  · exact hdeletions.trans (Nat.zero_add _)

def unreliable : FaultyDisk MemoryDisk :=
  let faults : Faults := .burst 0 1 fun _ => .io (.other "device unplugged")
  { device := .empty, reads := faults, writes := faults, deallocations := faults }

/-- Pages are lost from the pool by eviction and by deletion, one of them while it is pinned. -/
def losing : List (Action 2) :=
  [.call .new, .call .new, .call (.unpin 0 true), .call .new, .call .new, .call (.unpin 1 false),
    .call (.fetch 0), .call (.fetch 0), .call (.fetch 0), .call (.delete 2), .call (.delete 2),
    .call (.unpin 2 true), .call (.delete 2), .call (.delete 7), .call (.fetch 2)]

theorem statistics_reconcile_losing : ∃ b : Pool (FaultyDisk MemoryDisk) 2,
    Pool.ofConfig ⟨2, .lru⟩ unreliable none = .ok b ∧ (start b).Undisturbed losing ∧
    ∀ t, t = ((start b).run losing).pool → t.stats = ⟨4, 1, 3, 2, 1, 3, 2⟩ ∧
      t.stats.fetches = t.stats.hits + t.stats.misses ∧
      t.stats.writeBacks = ((start b).requests losing).countP DiskEvent.isWrite ∧
      t.stats.allocations = tally creates (start b) losing ∧
      t.stats.deletions = tally deletes (start b) losing ∧
      t.table.size + t.stats.evictions + tally frees (start b) losing =
        t.stats.allocations + ((start b).requests losing).countP DiskEvent.isRead := by
  have hb : Pool.ofConfig ⟨2, .lru⟩ unreliable none =
      .ok (.create (.lru { capacity := 2 }) unreliable none) := rfl
  refine ⟨_, hb, Or.inl (by simp [losing]), fun t ht => ?_⟩
  obtain ⟨hfetches, -, hrest⟩ := statistics_reconcile hb losing (Or.inl (by simp [losing])) t ht _
    rfl
  refine ⟨?_, hfetches, hrest⟩
  rw [ht]
  decide +kernel

end Session

end BufferPool
