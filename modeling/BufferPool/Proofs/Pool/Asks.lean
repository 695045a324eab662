import BufferPool.Proofs.Disk.Traced
import BufferPool.Proofs.Pool.Secured
import BufferPool.Proofs.Session.Logged

/-! # What a call asks of the device

The requests that a call of a pool makes, granted or not, as the trace that it
leaves on a traced device. A flush writes once if the page is dirty. A request
for a frame begins with the write of the victim, if that is dirty.
-/

namespace BufferPool.Pool

variable {δ : Type} {n : Nat} {b : Pool δ n} {f : Fin n} {p v : PageId}

def traced (b : Pool δ n) : Pool (Traced δ) n := b.mapDevice fun d => ⟨d, []⟩

theorem Tidy.traced (h : b.Tidy) : b.traced.Tidy := by
  obtain ⟨frames, hs, hpage⟩ := h
  exact ⟨frames, ⟨hs.replacer, hs.free_nodup, hs.mem_free_iff, hs.frameOf?_iff, hs.idle,
    hs.isEvictable_iff⟩, hpage⟩

variable [Device δ]

/-- The requests that a call makes. -/
def asks (b : Pool δ n) (c : Call) : List DiskCall := (b.traced.after c).device.calls

def NeedsFrame (b : Pool δ n) : Call → Prop
  | .new => True
  | .fetch p => p ≠ PageId.invalid ∧ b.frameOf? p = none
  | _ => False

theorem device_writeBack (b : Pool δ n) (p : PageId) (x : Page) :
    (b.writeBack p x).2.device = (Device.write p x b.device).2 := by
  simp only [writeBack]
  rcases Device.write p x b.device with ⟨_ | _, d⟩ <;> rfl

theorem device_flushNow_of_dirty (hp : b.frameOf? p = some f) (hd : (b.frames.get f).dirty = true) :
    (b.flushNow p).2.device = (Device.write p (b.frames.get f).data b.device).2 := by
  rw [flushNow_of_dirty hp hd, device_modifyFrame, device_writeBack]

theorem asks_flush (hp : b.frameOf? p = some f) : b.asks (.flush p) =
    if (b.frames.get f).dirty = true then [.write p (b.frames.get f).data] else [] := by
  rw [asks, after, flush_eq_flushNow]
  have hp' : b.traced.frameOf? p = some f := hp
  split
  · rename_i hd
    rw [device_flushNow_of_dirty hp' hd]
    rfl
  · rename_i hd
    rw [flushNow_of_clean hp' (Bool.eq_false_iff.mpr hd)]
    rfl

theorem device_takeFrame (h : b.Tidy) (hv : b.IsVictim v) (hp : b.frameOf? v = some f)
    (hd : (b.frames.get f).dirty = true) :
    b.takeFrame.2.device = (Device.write v (b.frames.get f).data b.device).2 := by
  rw [← device_flushNow_of_dirty hp hd]
  simp only [takeFrame, hv.1, hv.peek_eq h hp, evict, h.page_eq hp]
  rcases b.flushNow v with ⟨_ | _, b'⟩ <;> rfl

theorem leads_new (b : Pool δ n) : Device.Leads b.takeFrame.2.device b.new.2.device := by
  rcases hn : b.new with ⟨answer, b'⟩
  cases new_outcome hn with
  | refused ht | full ht => rw [ht]
  | created ht ha | unallocated ht ha =>
    have hleads := leads_allocateUnused ha
    rw [ht]
    exact hleads

theorem leads_fetch (hp : p ≠ PageId.invalid) (hq : b.frameOf? p = none) :
    Device.Leads b.missed.takeFrame.2.device (b.fetch p).2.device := by
  rcases hf : b.fetch p with ⟨answer, b'⟩
  cases fetch_outcome hf with
  | invalid hv => exact absurd hv hp
  | hit _ hg => cases hq.symm.trans hg
  | refused _ _ ht | full _ _ ht => rw [ht]
  | loaded _ _ ht hr | missing _ _ ht hr | unread _ _ ht hr =>
    rw [ht]
    exact .single (.read hr)

/-- Whether or not it is granted, the first request is to write the victim. -/
theorem leads_of_needsFrame {c : Call} (h : b.Tidy) (hc : b.NeedsFrame c) (hv : b.IsVictim v)
    (hp : b.frameOf? v = some f) (hd : (b.frames.get f).dirty = true) :
    Device.Leads (Device.write v (b.frames.get f).data b.device).2 (b.after c).device := by
  cases c with
  | new =>
    rw [← device_takeFrame h hv hp hd]
    exact leads_new b
  | fetch q =>
    have htake : b.missed.takeFrame.2.device = (Device.write v (b.frames.get f).data b.device).2 :=
      device_takeFrame h.missed hv hp hd
    rw [← htake]
    exact leads_fetch hc.1 hc.2
  | _ => exact hc.elim

theorem asks_of_needsFrame {c : Call} (h : b.Tidy) (hc : b.NeedsFrame c) (hv : b.IsVictim v)
    (hp : b.frameOf? v = some f) (hd : (b.frames.get f).dirty = true) :
    ∃ later, b.asks c = .write v (b.frames.get f).data :: later :=
  Traced.calls_of_leads (leads_of_needsFrame h.traced hc hv hp hd)

theorem asks_refused {c : Call} {e : DiskError} {d : δ} (h : b.Tidy) (hc : b.NeedsFrame c)
    (hv : b.IsVictim v) (hp : b.frameOf? v = some f) (hd : (b.frames.get f).dirty = true)
    (hw : Device.write v (b.frames.get f).data b.device = (.error e, d))
    (he : e.isMissing = false) : b.asks c = [.write v (b.frames.get f).data] := by
  have hw' : Device.write v (b.traced.frames.get f).data b.traced.device =
      (.error e, ⟨d, [.write v (b.frames.get f).data]⟩) :=
    congrArg (Prod.map id fun d => (⟨d, [.write v (b.frames.get f).data]⟩ : Traced δ)) hw
  cases c with
  | new => rw [asks, after, new_refused (takeFrame_refused h.traced hv hp hd hw' he)]
  | fetch q =>
    have htake := takeFrame_refused h.traced.missed hv hp hd hw' he
    rw [asks, after, fetch_refused (b := b.traced) hc.1 hc.2 htake]
  | _ => exact hc.elim

end BufferPool.Pool
