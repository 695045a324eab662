import BufferPool.Proofs.Pool.Asks
import BufferPool.Proofs.Session.Undisturbed

/-! # Victims that cannot be written

A page that is to go and cannot be written stays, and so does everything else.
The next request for a frame turns to the same page.
-/

namespace BufferPool.Session

open Pool Storage

variable {δ : Type} [Device δ]

/-- If the victim is dirty and the device refuses to write it, a new page and a page to be fetched
are answered with the error, and the write was the only request. But for the device, which holds the
same pages, and the counters of a fetch, the pool is as it was, and so is the order in which it
would evict its pages. The same victim is written first when the call is made again. -/
theorem failed_write_back_changes_nothing [Storage δ] [Pagewise δ] {c : Config} {d d' : δ}
    {log : Option Log} {b : Pool δ c.poolSize} (hb : Pool.ofConfig c d log = .ok b)
    (as : List (Action c.poolSize)) (has : (start b).Undisturbed as) {s : Session δ c.poolSize}
    (hs : s = (start b).run as) {v : PageId} {f : Fin c.poolSize} {e : DiskError}
    (hv : s.pool.IsVictim v) (hp : s.pool.frameOf? v = some f)
    (hd : (s.pool.frames.get f).dirty = true)
    (hw : Device.write v (s.pool.frames.get f).data s.pool.device = (.error e, d'))
    (he : e.isMissing = false) :
    s.pool.new = (.error (.writingBack v e), { s.pool with device := d' }) ∧
    (∀ p, p ≠ PageId.invalid → s.pool.frameOf? p = none →
      s.pool.fetch p = (.error (.writingBack v e), { s.pool.missed with device := d' })) ∧
    page? d' = page? s.pool.device ∧
    ∀ call, s.pool.NeedsFrame call → s.pool.asks call = [.write v (s.pool.frames.get f).data] ∧
      (s.pool.after call).IsVictim v ∧ (s.pool.after call).lineup = s.pool.lineup ∧
      ∀ retry, (s.pool.after call).NeedsFrame retry →
        ∃ later, (s.pool.after call).asks retry = .write v (s.pool.frames.get f).data :: later := by
  have ht : s.pool.Tidy :=
    hs ▸ (has.along_regular (.start hb) rfl).2.tidy
  have hnew := new_refused (takeFrame_refused ht hv hp hd hw he)
  have hfetch (p : PageId) (hvalid : p ≠ PageId.invalid) (hq : s.pool.frameOf? p = none) :=
    fetch_refused hvalid hq (takeFrame_refused ht.missed hv hp hd hw he)
  refine ⟨hnew, hfetch, Pagewise.write_error hw, fun call hcall => ?_⟩
  refine ⟨asks_refused ht hcall hv hp hd hw he, ?_⟩
  have hsame : ∃ stats, s.pool.after call = { s.pool with device := d', stats } := by
    cases call with
    | new => exact ⟨_, congrArg Prod.snd hnew⟩
    | fetch p => exact ⟨_, congrArg Prod.snd (hfetch p hcall.1 hcall.2)⟩
    | _ => exact hcall.elim
  obtain ⟨stats, hsame⟩ := hsame
  rw [hsame]
  have ht' : Tidy { s.pool with device := d', stats } := ht.congr rfl rfl rfl fun _ => rfl
  exact ⟨hv, rfl, fun retry hretry => asks_of_needsFrame ht' hretry hv hp hd⟩

def unready : FaultyDisk MemoryDisk where
  device := .empty
  writes := .burst 0 1 fun _ => .io (.other "device unplugged")

def filled : List (Action 2) :=
  [.call .new, .call .new, .put ⟨0, Nat.two_pos⟩ 0 [7], .call (.unpin 0 true),
    .call (.unpin 1 true)]

theorem failed_write_back_changes_nothing_filled : ∃ b : Pool (FaultyDisk MemoryDisk) 2,
    Pool.ofConfig ⟨2, .lruK 2⟩ unready none = .ok b ∧ (start b).Undisturbed filled ∧
    ∀ s, s = (start b).run filled → ∃ d, s.pool.IsVictim 0 ∧
      s.pool.new = (.error (.writingBack 0 (.io (.other "device unplugged"))),
        { s.pool with device := d }) ∧
      s.pool.lineup = [0, 1] ∧ (s.pool.after (.fetch 5)).lineup = [0, 1] ∧
      s.pool.asks .new = [.write 0 (s.pool.frames.get 0).data] ∧
      ((s.pool.frames.get 0).data.bytes.head? = some 7) := by
  have hb : Pool.ofConfig ⟨2, .lruK 2⟩ unready none =
      .ok (.create (.lruK { k := 2, k_pos := by decide }) unready none) := rfl
  have has : (start (.create (.lruK { k := 2, k_pos := by decide }) unready none)).Undisturbed
      filled := Or.inl (by simp [filled])
  refine ⟨_, hb, has, fun s hs => ?_⟩
  have hv : s.pool.IsVictim 0 :=
    hs.symm ▸ ⟨by decide +kernel, 0, by decide +kernel, by decide +kernel⟩
  have hp : s.pool.frameOf? 0 = some 0 := hs.symm ▸ by decide +kernel
  have hd : (s.pool.frames.get 0).dirty = true := hs.symm ▸ by decide +kernel
  have hw : Device.write 0 (s.pool.frames.get 0).data s.pool.device =
      (.error (.io (.other "device unplugged")),
        (Device.write 0 (s.pool.frames.get 0).data s.pool.device).2) :=
    Prod.ext (hs.symm ▸ by decide +kernel) rfl
  have hmiss : s.pool.NeedsFrame (.fetch 5) := hs.symm ▸ ⟨by decide, by decide +kernel⟩
  have hline : s.pool.lineup = [0, 1] := hs.symm ▸ by decide +kernel
  obtain ⟨hnew, -, -, hcalls⟩ :=
    failed_write_back_changes_nothing hb filled has hs hv hp hd hw rfl
  exact ⟨_, hv, hnew, hline, (hcalls _ hmiss).2.2.1.trans hline, (hcalls .new trivial).1,
    hs.symm ▸ by decide +kernel⟩

end BufferPool.Session
