import BufferPool.Proofs.Disk.Logged
import BufferPool.Proofs.Pool.Flush
import BufferPool.Proofs.Session.Basic

/-! # What a run asks of the device

A run on a logged device is the run on the device itself, and its log is what
the run asked of the device with success.
-/

namespace BufferPool

variable {δ ε : Type} {n : Nat}

namespace Pool

def mapDevice (φ : δ → ε) (b : Pool δ n) : Pool ε n where
  frames := b.frames
  table := b.table
  free := b.free
  replacer := b.replacer
  device := φ b.device
  log := b.log
  stats := b.stats

theorem map_closeWindow (φ : δ → ε) (b : Pool δ n) (w : Window n)
    (written : Except PoolError Unit) :
    (b.mapDevice φ).closeWindow w written = (b.closeWindow w written).mapDevice φ := by
  simp only [closeWindow_eq]
  rfl

theorem map_unpin (φ : δ → ε) (b : Pool δ n) (p : PageId) (dirty : Bool) :
    (b.mapDevice φ).unpin p dirty = Prod.map id (mapDevice φ) (b.unpin p dirty) := by
  simp only [unpin, show (b.mapDevice φ).frameOf? p = b.frameOf? p from rfl,
    show (b.mapDevice φ).frames = b.frames from rfl]
  rcases b.frameOf? p with _ | f
  · rfl
  simp only
  split
  · rfl
  · split <;> rfl

variable [Device δ] [Device ε] {φ : δ → ε}

theorem map_writeBack (hφ : Device.Hom φ) (b : Pool δ n) (p : PageId) (data : Page) :
    (b.mapDevice φ).writeBack p data = Prod.map id (mapDevice φ) (b.writeBack p data) := by
  simp only [writeBack, mapDevice, hφ.write]
  rcases Device.write p data b.device with ⟨_ | _, d⟩ <;> rfl

theorem map_flushNow (hφ : Device.Hom φ) (b : Pool δ n) (p : PageId) :
    (b.mapDevice φ).flushNow p = Prod.map id (mapDevice φ) (b.flushNow p) := by
  have hw := map_writeBack hφ b p
  simp only [flushNow, show (b.mapDevice φ).frameOf? p = b.frameOf? p from rfl]
  rcases b.frameOf? p with _ | f
  · rfl
  simp only [show (b.mapDevice φ).frames = b.frames from rfl, hw]
  split
  · rcases b.writeBack p (b.frames.get f).data with ⟨_ | _, b'⟩ <;> rfl
  · rfl

theorem map_beginFlush (hφ : Device.Hom φ) (b : Pool δ n) (p : PageId) :
    (b.mapDevice φ).beginFlush p = Prod.map id (mapDevice φ) (b.beginFlush p) := by
  simp only [beginFlush, show (b.mapDevice φ).frameOf? p = b.frameOf? p from rfl]
  rcases b.frameOf? p with _ | f
  · rfl
  simp only [show (b.mapDevice φ).frames = b.frames from rfl, map_flushNow hφ]
  split
  · rfl
  · split <;> rfl

theorem map_flushEach (hφ : Device.Hom φ) (b : Pool δ n) (ps : List PageId) :
    (b.mapDevice φ).flushEach ps = Prod.map id (mapDevice φ) (b.flushEach ps) := by
  induction ps generalizing b with
  | nil => rfl
  | cons p ps ih =>
    simp only [flushEach, flush_eq_flushNow, map_flushNow hφ]
    rcases b.flushNow p with ⟨_ | _, b'⟩
    · rfl
    · exact ih b'

theorem map_evict (hφ : Device.Hom φ) (b : Pool δ n) (f : Fin n) :
    (b.mapDevice φ).evict f = Prod.map id (mapDevice φ) (b.evict f) := by
  simp only [evict, show (b.mapDevice φ).frames = b.frames from rfl, map_flushNow hφ]
  rcases (b.frames.get f).page with _ | p
  · rfl
  · rcases hr : b.flushNow p with ⟨_ | _, b'⟩ <;> simp only [hr] <;> rfl

theorem map_takeFrame (hφ : Device.Hom φ) (b : Pool δ n) :
    (b.mapDevice φ).takeFrame = Prod.map id (mapDevice φ) b.takeFrame := by
  simp only [takeFrame, show (b.mapDevice φ).free = b.free from rfl,
    show (b.mapDevice φ).replacer = b.replacer from rfl, map_evict hφ]
  rcases b.free with _ | ⟨f, rest⟩
  · rcases b.replacer.peek with _ | f
    · rfl
    · rfl
  · rfl

theorem map_fetch (hφ : Device.Hom φ) (b : Pool δ n) (p : PageId) :
    (b.mapDevice φ).fetch p = Prod.map id (mapDevice φ) (b.fetch p) := by
  unfold fetch
  split
  · rfl
  simp only [show (b.mapDevice φ).frameOf? p = b.frameOf? p from rfl]
  rcases b.frameOf? p with _ | f
  · simp only [show ∀ g, (b.mapDevice φ).modifyStats g = (b.modifyStats g).mapDevice φ from
      fun _ => rfl, map_takeFrame hφ]
    rcases (b.modifyStats _).takeFrame with ⟨_ | _ | f, b'⟩
    · rfl
    · rfl
    · simp only [Prod.map_apply, id_eq, hφ.read,
        show (b'.mapDevice φ).device = φ b'.device from rfl]
      rcases Device.read p b'.device with ⟨_ | _, d⟩ <;> rfl
  · rfl

theorem map_searchId (hφ : Device.Hom φ) (inUse : PageId → Bool) (fuel : Nat) (d : δ) :
    searchId inUse fuel (φ d) = Prod.map id (Prod.map id φ) (searchId inUse fuel d) := by
  induction fuel generalizing d with
  | zero => rfl
  | succ fuel ih =>
    simp only [searchId, hφ.allocate]
    rcases Device.allocate d with ⟨_ | p, d'⟩
    · rfl
    · simp only [Prod.map_apply, id_eq, ih]
      split <;> rfl

theorem map_releaseEach (hφ : Device.Hom φ) (ps : List PageId) (d : δ) :
    releaseEach ps (φ d) = Prod.map id φ (releaseEach ps d) := by
  induction ps generalizing d with
  | nil => rfl
  | cons p ps ih =>
    simp only [releaseEach, hφ.deallocate]
    rcases Device.deallocate p d with ⟨_ | _, d'⟩
    · rfl
    · exact ih d'

theorem map_allocateUnused (hφ : Device.Hom φ) (b : Pool δ n) :
    (b.mapDevice φ).allocateUnused = Prod.map id (mapDevice φ) b.allocateUnused := by
  simp only [allocateUnused, show (b.mapDevice φ).isCached = b.isCached from rfl,
    show (b.mapDevice φ).table = b.table from rfl,
    show (b.mapDevice φ).device = φ b.device from rfl, map_searchId hφ]
  rcases searchId b.isCached (b.table.size + 1) b.device with ⟨answer, skipped, d⟩
  simp only [Prod.map_apply, id_eq, map_releaseEach hφ]
  rcases releaseEach skipped d with ⟨_ | _, d'⟩ <;> rfl

theorem map_new (hφ : Device.Hom φ) (b : Pool δ n) :
    (b.mapDevice φ).new = Prod.map id (mapDevice φ) b.new := by
  simp only [new, map_takeFrame hφ]
  rcases b.takeFrame with ⟨_ | _ | f, b'⟩
  · rfl
  · rfl
  · simp only [Prod.map_apply, id_eq, map_allocateUnused hφ]
    rcases b'.allocateUnused with ⟨_ | p, b''⟩ <;> rfl

theorem map_delete (hφ : Device.Hom φ) (b : Pool δ n) (p : PageId) :
    (b.mapDevice φ).delete p = Prod.map id (mapDevice φ) (b.delete p) := by
  simp only [delete, show (b.mapDevice φ).device = φ b.device from rfl, hφ.deallocate]
  rcases Device.deallocate p b.device with ⟨_ | _, d⟩
  · rfl
  have hb : { b.mapDevice φ with device := φ d } =
      ({ b with device := d } : Pool δ n).mapDevice φ := rfl
  simp only [Prod.map_apply, id_eq, hb, show ∀ c : Pool δ n, (c.mapDevice φ).frameOf? p =
    c.frameOf? p from fun _ => rfl]
  rcases hp : ({ b with device := d } : Pool δ n).frameOf? p with _ | f
  · rfl
  · simp only [show (b.mapDevice φ).frames = b.frames from rfl]
    split <;> rfl

theorem map_after (hφ : Device.Hom φ) (b : Pool δ n) (c : Call) :
    (b.mapDevice φ).after c = (b.after c).mapDevice φ := by
  cases c with
  | new => simp only [after, map_new hφ, Prod.map_snd]
  | fetch p => simp only [after, map_fetch hφ, Prod.map_snd]
  | unpin p dirty => simp only [after, map_unpin φ, Prod.map_snd]
  | flush p => simp only [after, flush_eq_flushNow, map_flushNow hφ, Prod.map_snd]
  | flushAll =>
    simp only [after, flushAll, show (b.mapDevice φ).cachedPages = b.cachedPages from rfl,
      map_flushEach hφ, Prod.map_snd]
  | delete p => simp only [after, map_delete hφ, Prod.map_snd]

theorem map_account (hφ : Device.Hom φ) (b : Pool δ n) (pins : PageId → Pins) (c : Call) :
    (b.mapDevice φ).account pins c = b.account pins c := by
  cases c with
  | new =>
    simp only [account, map_new hφ]
    rcases b.new with ⟨_ | _ | f, b'⟩ <;> rfl
  | fetch p => simp only [account, map_fetch hφ, Prod.map_fst, id_eq]; rfl
  | unpin p dirty => simp only [account, map_unpin φ, Prod.map_fst, id_eq]
  | flush | flushAll | delete => rfl

end Pool

namespace Session

open Pool

def mapDevice (φ : δ → ε) (s : Session δ n) : Session ε n where
  pool := s.pool.mapDevice φ
  flights := s.flights
  pins := s.pins

variable [Device δ] [Device ε] {φ : δ → ε}

theorem map_step (hφ : Device.Hom φ) (s : Session δ n) (a : Action n) :
    (s.mapDevice φ).step a = (s.step a).mapDevice φ := by
  cases a with
  | call c =>
    simp only [step, mapDevice, map_after hφ, map_account hφ]
  | put f offset new => rfl
  | beginFlush p =>
    simp only [step, mapDevice, map_beginFlush hφ]
    rcases s.pool.beginFlush p with ⟨_ | _, b⟩ <;> rfl
  | writeWindow i =>
    simp only [step, show (s.mapDevice φ).flights = s.flights from rfl]
    split
    · rename_i w hi
      have hw := map_writeBack hφ s.pool w.page (s.pool.frames.get w.frame).data
      simp only [mapDevice, writeWindow, show (s.pool.mapDevice φ).frames = s.pool.frames from rfl,
        hw]
      rfl
    · rfl
  | closeWindow i =>
    simp only [step, show (s.mapDevice φ).flights = s.flights from rfl]
    split
    · simp only [mapDevice, map_closeWindow]
    · rfl

theorem map_run (hφ : Device.Hom φ) (s : Session δ n) (as : List (Action n)) :
    (s.mapDevice φ).run as = (s.run as).mapDevice φ := by
  induction as generalizing s with
  | nil => rfl
  | cons a as ih => rw [run_cons, run_cons, map_step hφ, ih]

def logged (s : Session δ n) : Session (Logged δ) n := s.mapDevice fun d => ⟨d, []⟩

/-- What a run asks of the device with success, in order. -/
def requests (s : Session δ n) (as : List (Action n)) : List DiskEvent :=
  (s.logged.run as).pool.device.log

theorem forget_run (s : Session δ n) (as : List (Action n)) :
    (s.logged.run as).mapDevice Logged.device = s.run as :=
  (map_run Logged.hom_device s.logged as).symm

def tally (k : Session δ n → Action n → Bool) : Session δ n → List (Action n) → Nat
  | _, [] => 0
  | s, a :: as => (k s a).toNat + tally k (s.step a) as

theorem tally_map (hφ : Device.Hom φ) (k : Session ε n → Action n → Bool) (s : Session δ n)
    (as : List (Action n)) :
    tally k (s.mapDevice φ) as = tally (fun s a => k (s.mapDevice φ) a) s as := by
  induction as generalizing s with
  | nil => rfl
  | cons a as ih => rw [tally, tally, map_step hφ, ih]

theorem along_map (hφ : Device.Hom φ) {P : Session ε n → Action n → Prop} {s : Session δ n}
    {as : List (Action n)} :
    Along P (s.mapDevice φ) as ↔ Along (fun s a => P (s.mapDevice φ) a) s as := by
  induction as generalizing s with
  | nil => rfl
  | cons a as ih => rw [Along, Along, map_step hφ, ih]

theorem orderly_map (hφ : Device.Hom φ) {s : Session δ n} {a : Action n} :
    (s.mapDevice φ).Orderly a ↔ s.Orderly a := by
  rw [Orderly, Orderly, map_step hφ]
  refine and_congr ?_ Iff.rfl
  cases a with
  | call c => cases c <;> rfl
  | _ => rfl

theorem along_orderly_logged {s : Session δ n} {as : List (Action n)} :
    s.logged.Along Orderly as ↔ s.Along Orderly as := by
  have hmap : (s.logged.mapDevice Logged.device).Along Orderly as ↔ _ :=
    along_map Logged.hom_device
  simp only [orderly_map Logged.hom_device] at hmap
  exact hmap.symm

theorem tally_logged {k : Session δ n → Action n → Bool}
    {k' : Session (Logged δ) n → Action n → Bool}
    (hk : ∀ (t : Session (Logged δ) n) a, k (t.mapDevice Logged.device) a = k' t a)
    (s : Session δ n) (as : List (Action n)) : tally k' s.logged as = tally k s as := by
  have hmap := tally_map Logged.hom_device k s.logged as
  simp only [hk] at hmap
  exact hmap.symm

end Session

end BufferPool
