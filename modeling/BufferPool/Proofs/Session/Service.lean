import BufferPool.Proofs.Disk.Spared
import BufferPool.Proofs.Pool.Full
import BufferPool.Proofs.Pool.Ledger
import BufferPool.Proofs.Session.Unsaved

/-! # Service

As long as one of its frames does not hold a pinned page, a pool finds a frame
for a page to come. That its disk has refused requests before does not matter.
-/

namespace BufferPool

namespace Pool

open FaultyDisk (Spares later_of_leads request_of_spares)
open MemoryDisk (SameIds)

variable {n : Nat} {b b' : Pool (FaultyDisk MemoryDisk) n} {p : PageId}

theorem writeBack_of_spares {data : Page} {r : Except PoolError Unit}
    (h : b.writeBack p data = (r, b')) (hd : Spares b.device b'.device)
    (hp : p ≠ PageId.invalid) : r = .ok () := by
  unfold writeBack at h
  rcases hw : Device.write p data b.device with ⟨e | _, d⟩ <;> rw [hw] at h <;> cases h
  · have hrequest := congrArg Prod.fst (request_of_spares hw hd)
    exact if_pos (Ledger.isMissing_of_write hp hrequest)
  · rfl

theorem flushNow_of_spares (hd : Spares b.device (b.flushNow p).2.device)
    (hp : p ≠ PageId.invalid) : (b.flushNow p).1.isOk = true := by
  rcases hf : b.frameOf? p with _ | f
  · simp only [flushNow, hf]
    rfl
  rcases hdirty : (b.frames.get f).dirty with _ | _
  · rw [flushNow_of_clean hf hdirty]
    rfl
  · rw [flushNow_of_dirty hf hdirty] at hd ⊢
    rcases hw : b.writeBack p (b.frames.get f).data with ⟨r, b'⟩
    rw [hw] at hd
    rw [writeBack_of_spares hw hd hp]
    rfl

theorem takeFrame_of_spares (hs : b.Sound) (hids : ∀ p, b.isCached p = true → p ≠ PageId.invalid)
    (hd : Spares b.device b.takeFrame.2.device) : b.takeFrame.1.isOk = true := by
  rcases ht : b.takeFrame with ⟨e | f?, b'⟩
  · obtain ⟨p, f, hpage, hflush⟩ := exists_flushNow_of_takeFrame ht
    have hp := (hs.frameOf?_iff p f).mpr hpage
    rw [ht] at hd
    have hok := flushNow_of_spares (b := b) (p := p) (by rwa [hflush])
      (hids p (isCached_of_frameOf? hp))
    rw [hflush] at hok
    cases hok
  · rfl

theorem fetch_of_spares (hs : b.Sound) (hids : ∀ p, b.isCached p = true → p ≠ PageId.invalid)
    (hdisk : b.device.device.ValidIds) (hp : b.device.device.isAllocated p = true)
    (hd : Spares b.device (b.fetch p).2.device) (hfree : b.isCached p = true ∨ ¬b.Full) :
    ∃ f, (b.fetch p).1 = .ok (some f) := by
  have hs₀ : b.missed.Sound := hs.congr rfl rfl rfl rfl
  have htake := takeFrame_of_spares hs₀ hids
  have hlead := leads_takeFrame b.missed
  rcases hf : b.fetch p with ⟨answer, b'⟩
  rw [hf] at hd
  cases fetch_outcome hf with
  | invalid hv => exact absurd hv (hdisk.ne_of_isAllocated p hp)
  | hit | loaded => exact ⟨_, rfl⟩
  | refused _ _ ht =>
    rw [ht] at htake
    cases htake hd
  | full _ hn ht =>
    have hfull : ¬b.Full := hfree.resolve_left (by simp [isCached, hn])
    exact absurd ((takeFrame_eq_none_iff hs₀).mp (congrArg Prod.fst ht)) hfull
  | missing hv _ ht hr | unread hv _ ht hr =>
    rw [ht] at hlead
    have hread := request_of_spares hr (hd.right (later_of_leads hlead))
    have hsame := (takes_of_takeFrame ht).sameIds.isAllocated p
    have hok := MemoryDisk.isOk_read hv (hsame.trans hp)
    rw [show MemoryDisk.read p (OnMemory.memory _) = _ from hread] at hok
    cases hok

theorem new_of_spares (hs : b.Sound) (hids : ∀ p, b.isCached p = true → p ≠ PageId.invalid)
    (hd : Spares b.device b.new.2.device) (hfull : ¬b.Full) :
    (∃ f, b.new.1 = .ok (some f)) ∨ b.new.1 = .error (.allocating .invalidPageId) := by
  have htake := takeFrame_of_spares hs hids
  have hlead := leads_takeFrame b
  rcases hn : b.new with ⟨answer, b'⟩
  rw [hn] at hd
  cases new_outcome hn with
  | refused ht =>
    rw [ht] at htake
    cases htake hd
  | full ht => exact absurd ((takeFrame_eq_none_iff hs).mp (congrArg Prod.fst ht)) hfull
  | created => exact Or.inl ⟨_, rfl⟩
  | unallocated ht ha =>
    rw [ht] at hlead
    rw [allocateUnused_of_spares ha (hd.right (later_of_leads hlead))]
    exact Or.inr rfl

end Pool

namespace Session

open Pool OnMemory

section Ids

variable {δ : Type} [Device δ] [OnMemory δ] {n : Nat} {s t : Session δ n} {a : Action n}
  {as : List (Action n)}

structure ValidIds (s : Session δ n) : Prop where
  disk : (memory s.pool.device).ValidIds
  cached : ∀ p, s.pool.isCached p = true → p ≠ PageId.invalid

namespace ValidIds

theorem create {d : δ} (r : Replacer (Fin n)) (hd : (memory d).ValidIds) (log : Option Log) :
    (start (.create r d log)).ValidIds where
  disk := hd
  cached p hp := by
    rw [start, isCached, frameOf?_create] at hp
    cases hp

theorem move {e : Event n} (h : s.ValidIds) (hm : Move s e t) : t.ValidIds where
  disk := validIds_of_leads hm.leads h.disk
  cached p hp := by
    obtain ⟨f, hf⟩ := Option.isSome_iff_exists.mp hp
    rcases hm.cached hf with hf | rfl | rfl
    · exact h.cached p (isCached_of_frameOf? hf)
    · cases hm with
      | loaded _ _ hr =>
        have hread := (OnMemory.read hr).resolve_left nofun
        exact h.disk.ne_of_isAllocated p (MemoryDisk.isAllocated_of_read hread)
    · cases hm with
      | created _ _ ha => exact ne_invalid_of_allocateUnused h.disk ha

theorem moves {es : List (Event n)} (h : s.ValidIds) (hm : Moves s es t) : t.ValidIds := by
  induction hm with
  | nil => exact h
  | cons hm _ _ ih => exact ih (h.move hm)

theorem step (h : s.ValidIds) (hv : s.Valid) (ha : s.Orderly a) : (s.step a).ValidIds := by
  obtain ⟨es, hes, -⟩ := hv.step_moves ha
  exact h.moves hes

theorem run (h : s.ValidIds) (hv : s.Valid) (has : s.Along Orderly as) : (s.run as).ValidIds := by
  induction as generalizing s with
  | nil => exact h
  | cons a as ih => exact ih (h.step hv has.1) (hv.step has.1) has.2

end ValidIds

end Ids

open FaultyDisk (Spares)

variable {n : Nat}

/-- Whatever failed before, every frame is free, evictable, or that of a pinned page, and only if
all are the last is a request for a frame turned away. That changes nothing, except that a fetch is
counted. As long as no request of the present call fails, a page of the disk is fetched in all other
cases, and a page is created unless there is no id for it. -/
theorem serves_unless_full {capacity : Nat} {policy : Policy} {r : Replacer (Fin n)}
    (hr : Replacer.ofPolicy capacity policy = .ok r) (d : FaultyDisk MemoryDisk)
    (hd : d.device.ValidIds) (log : Option Log) (as : List (Action n)) (s₀ s : Session _ n)
    (hs₀ : s₀ = start (.create r d log)) (hs : s = s₀.run as) (has : s₀.Along Orderly as) :
    (s.pool.new.1 = .ok none ↔ s.pool.Full) ∧
    (s.pool.new.1 = .ok none → s.pool.new.2 = s.pool) ∧
    (Spares s.pool.device s.pool.new.2.device → ¬s.pool.Full →
      (∃ f, s.pool.new.1 = .ok (some f)) ∨ s.pool.new.1 = .error (.allocating .invalidPageId)) ∧
    (∀ p, s.pool.device.device.isAllocated p = true →
      Spares s.pool.device (s.pool.fetch p).2.device →
      ((s.pool.fetch p).1 = .ok none ↔ s.pool.isCached p = false ∧ s.pool.Full) ∧
      ((s.pool.fetch p).1 = .ok none → (s.pool.fetch p).2 = s.pool.modifyStats fun x =>
        { x with fetches := x.fetches + 1, misses := x.misses + 1 }) ∧
      (s.pool.fetch p).1.isOk = true) ∧
    s.pool.freeCount + s.pool.evictableCount + s.pool.pinnedCount = n := by
  obtain ⟨hsound, hnone⟩ := Replacer.ofPolicy_spec hr
  have hvalid₀ : s₀.Valid := hs₀ ▸ .create hsound hnone d log
  have hvalid : s.Valid := hs ▸ hvalid₀.run has
  have hids₀ : s₀.ValidIds := hs₀ ▸ .create r hd log
  have hids : s.ValidIds := hs ▸ hids₀.run hvalid₀ has
  have hnew := new_eq_none_iff hvalid.sound
  refine ⟨hnew, fun h => ?_, new_of_spares hvalid.sound hids.cached, fun p hp hspares => ?_,
    hvalid.sound.counts⟩
  · rw [new_of_full hvalid.sound (hnew.mp h)]
  · have hv := hids.disk.ne_of_isAllocated p hp
    by_cases hfull : s.pool.isCached p = false ∧ s.pool.Full
    · have hfetch := fetch_of_full hvalid.sound hfull.2 hv (isCached_eq_false_iff.mp hfull.1)
      rw [hfetch]
      exact ⟨iff_of_true rfl hfull, fun _ => rfl, rfl⟩
    · rw [not_and_or, Bool.not_eq_false] at hfull
      obtain ⟨f, hf⟩ := fetch_of_spares hvalid.sound hids.cached hids.disk hp hspares hfull
      rw [hf]
      refine ⟨iff_of_false nofun ?_, nofun, rfl⟩
      rintro ⟨hcached, hall⟩
      rcases hfull with h | h
      · rw [hcached] at h
        cases h
      · exact h hall

/-- The first request of every kind fails, a pin is given back that is not out, and a page is
deleted while it is pinned. -/
def mistreating : List (Action 1) :=
  [.call .new, .call .new, .call (.unpin 0 true), .call (.unpin 0 false), .call .new, .call .new,
    .call (.delete 1), .call (.delete 1), .call (.unpin 1 false), .call (.fetch 0)]

theorem serves_unless_full_mistreating :
    let faults : Faults := .burst 0 1 fun _ => .io (.other "device unplugged")
    let d : FaultyDisk MemoryDisk := ⟨.empty, faults, faults, faults, faults⟩
    let r : Replacer (Fin 1) := .lruK { k := 2, k_pos := Nat.two_pos }
    let s₀ : Session _ 1 := start (.create r d none)
    let s := s₀.run mistreating
    d.device.ValidIds ∧ s₀.Along Orderly mistreating ∧
      s.pool.device.device.isAllocated 0 = true ∧
      Spares s.pool.device (s.pool.fetch 0).2.device ∧ (s.pool.fetch 0).1.isOk = true ∧
      ¬s.pool.Full ∧ s.pool.freeCount + s.pool.evictableCount + s.pool.pinnedCount = 1 := by
  intro faults d r s₀ s
  have hr : Replacer.ofPolicy 1 (.lruK 2) = .ok r := rfl
  have has : s₀.Along Orderly mistreating :=
    along_and.mpr ⟨by decide +kernel, along_pinsFit (m := 0) _ (fun _ => Nat.le_refl _) (by decide)⟩
  have hallocated : s.pool.device.device.isAllocated 0 = true := by decide +kernel
  have hspares : Spares s.pool.device (s.pool.fetch 0).2.device := by decide +kernel
  have hcached : s.pool.isCached 0 = false := by decide +kernel
  have hanswered : (s.pool.fetch 0).1 ≠ .ok none := by decide +kernel
  obtain ⟨-, -, -, hfetch, hcount⟩ := serves_unless_full hr d MemoryDisk.validIds_empty none
    mistreating s₀ s rfl rfl has
  obtain ⟨hnone, -, hok⟩ := hfetch 0 hallocated hspares
  exact ⟨MemoryDisk.validIds_empty, has, hallocated, hspares, hok,
    fun hfull => hanswered (hnone.mpr ⟨hcached, hfull⟩), hcount⟩

end Session

end BufferPool
