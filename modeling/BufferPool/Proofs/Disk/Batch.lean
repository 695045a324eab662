import BufferPool.Proofs.Disk.Pagewise
import BufferPool.Proofs.Disk.Traced

/-! # Batches of writes

Writes that follow one another, none of which fails. A page that the device does
not know does not count as a failure: its bytes have no place to go to.
-/

namespace BufferPool

open Storage

variable {δ ε : Type} [Device δ] [Device ε] {d d' : δ} {ws : List (PageId × Page)} {p : PageId}

/-- The device is asked for the writes `ws` in this order and grants them, but for those of pages
that it does not know. -/
inductive Device.Batch : δ → List (PageId × Page) → δ → Prop where

  | nil {d : δ} : Batch d [] d

  | cons {d d₁ d' : δ} {w : PageId × Page} {ws : List (PageId × Page)} {r : Except DiskError Unit}
      (hw : Device.write w.1 w.2 d = (r, d₁)) (hr : ∀ e, r = .error e → e.isMissing = true)
      (h : Batch d₁ ws d') : Batch d (w :: ws) d'

namespace Device.Batch

theorem append {d₁ : δ} {vs : List (PageId × Page)} (h : Batch d vs d₁) (h' : Batch d₁ ws d') :
    Batch d (vs ++ ws) d' := by
  induction h with
  | nil => exact h'
  | cons hw hr _ ih => exact .cons hw hr (ih h')

theorem map {φ : δ → ε} (hφ : Hom φ) (h : Batch d ws d') : Batch (φ d) ws (φ d') := by
  induction h with
  | nil => exact .nil
  | cons hw hr _ ih => exact .cons ((hφ.write _ _ _).trans (congrArg (Prod.map id φ) hw)) hr ih

variable [Storage δ] [Pagewise δ]

theorem page?_eq (h : Batch d ws d') (hd : Pagewise.InOrder d) (hp : p ∉ ws.map Prod.fst) :
    page? d' p = page? d p := by
  induction h with
  | nil => rfl
  | @cons d d₁ d' w ws r hw hr _ ih =>
    rw [List.map_cons, List.mem_cons, not_or] at hp
    rw [ih (Pagewise.request (.write hw) hd) hp.2]
    cases r with
    | error e => exact congrFun (Pagewise.write_error hw) p
    | ok _ => rw [(Pagewise.write_ok hd hw).2, Function.update_of_ne hp.1]

theorem stored (h : Batch d ws d') (hd : Pagewise.InOrder d) (hws : (ws.map Prod.fst).Nodup)
    {w : PageId × Page} (hw : w ∈ ws) (hplace : page? d w.1 ≠ none) : page? d' w.1 = some w.2 := by
  induction h with
  | nil => cases hw
  | @cons d d₁ d' v ws r hv hr h ih =>
    rw [List.map_cons, List.nodup_cons] at hws
    have hd₁ := Pagewise.request (.write hv) hd
    rcases List.mem_cons.mp hw with rfl | hw
    · rw [h.page?_eq hd₁ hws.1]
      cases r with
      | error e => exact absurd (Pagewise.missing hd hv (hr e rfl)) hplace
      | ok _ => rw [(Pagewise.write_ok hd hv).2, Function.update_self]
    · have hne : w.1 ≠ v.1 := fun he => hws.1 (he ▸ List.mem_map_of_mem hw)
      apply ih hd₁ hws.2 hw
      cases r with
      | error e => rwa [Pagewise.write_error hv]
      | ok _ => rwa [(Pagewise.write_ok hd hv).2, Function.update_of_ne hne]

end Device.Batch

def DiskCall.writes (ws : List (PageId × Page)) : List DiskCall := ws.map fun w => .write w.1 w.2

theorem Traced.calls_of_batch {d d' : Traced δ} (h : Device.Batch d ws d') :
    d'.calls = d.calls ++ DiskCall.writes ws := by
  induction h with
  | nil => exact (List.append_nil _).symm
  | @cons d d₁ d' w ws r hw _ _ ih =>
    cases hw
    rw [ih]
    exact List.append_assoc d.calls [.write w.1 w.2] (DiskCall.writes ws)

end BufferPool
