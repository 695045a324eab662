import BufferPool.Proofs.Guard.Journal

/-! # A pool on a reopened file

Clients work on a new file, drop their guards and flush everything. Another
pool on the same file serves every page that was written, and every page before
the end of the file that was blank and left so.
-/

namespace BufferPool

open Pool Storage

section Fetch

variable {n : Nat} {s : Session FileDisk n} {p q : PageId}

theorem isOk_flushNow {b : Pool FileDisk n} (hok : b.device.Ordered)
    (hknown : ∀ f, b.frameOf? p = some f → p ∈ b.device.slots) : (b.flushNow p).1.isOk = true := by
  rcases hp : b.frameOf? p with _ | f
  · simp only [flushNow, hp]
    rfl
  rcases hd : (b.frames.get f).dirty with _ | _
  · rw [flushNow_of_clean hp hd]
    rfl
  · simp only [flushNow, hp, hd, if_true, writeBack]
    rcases hw : Device.write p (b.frames.get f).data b.device with ⟨e | _, d⟩
    · have he : e.isMissing = true := by
        change FileDisk.write p _ b.device = _ at hw
        unfold FileDisk.write at hw
        split at hw <;> cases hw
        rename_i hl
        exact hok.isMissing_of_locate (hknown f hp) hl
      simp only [he, if_true]
      rfl
    · rfl

theorem exists_takeFrame (hs : s.pool.Sound) (hb : s.Backed) {f : Fin n}
    (hf : (s.pool.frames.get f).pins = 0) : ∃ g b, s.pool.takeFrame = (.ok (some g), b) := by
  rcases ht : s.pool.takeFrame with ⟨e | _ | g, b⟩
  · obtain ⟨q, _, -, hflush⟩ := exists_flushNow_of_takeFrame ht
    have hok := isOk_flushNow hb.ok fun f hf => hb.known q f hf
    rw [hflush] at hok
    cases hok
  · obtain ⟨q, -, hpins⟩ := (takeFrame_eq_none_iff hs).mp (congrArg Prod.fst ht) f
    exact absurd hf hpins
  · exact ⟨g, b, rfl⟩

theorem exists_fetch (hv : s.Valid) (hb : s.Backed) (hp : page? s.pool.device p ≠ none)
    (hf : s.pool.isCached p = true ∨ ∃ f : Fin n, (s.pool.frames.get f).pins = 0) :
    ∃ f, (s.pool.fetch p).1 = .ok (some f) := by
  obtain ⟨x, hx⟩ := Option.ne_none_iff_exists'.mp hp
  have hinvalid : p ≠ PageId.invalid :=
    FileDisk.Ordered.ne_invalid hb.ok (Lawful.known_of_page? hb.ok hx)
  rcases hc : s.pool.frameOf? p with _ | f
  · obtain ⟨f, hf⟩ := hf.resolve_left (by simp [isCached, hc])
    have hm := Session.Move.missed hc
    have hv' := hv.move hm
    have hb' := hb.move hm fun _ => trivial
    obtain ⟨g, b, htake⟩ := exists_takeFrame hv'.sound hb' hf
    rcases Session.takeFrame_moves hv'.sound.tidy with
      ⟨e, b, es, he, -⟩ | he | ⟨g, b, frames, es, he, hes, hplain, -⟩
    · rw [he] at htake
      cases htake
    · rw [he] at htake
      cases htake
    · have hdel : ∀ e ∈ es, e.deallocated? ≠ some p := by
        intro e he
        have := hplain e he
        cases e <;> simp_all
      obtain ⟨y, hy⟩ := Option.ne_none_iff_exists'.mp (hes.stored hv' hb' trivial hdel hp)
      have hread : (Device.read p b.device).1 =
          .ok (Page.ofStart (b.device.bytes.drop (FileDisk.offset p))) := by
        change (FileDisk.read p b.device).1 = _
        rw [FileDisk.read, FileDisk.Ordered.locate_of_stored (hb'.moves hes trivial).1.ok hy]
      simp only [fetch, if_neg hinvalid, hc, he]
      rcases hr : Device.read p b.device with ⟨e | data, d⟩
      · rw [hr] at hread
        cases hread
      · exact ⟨g, rfl⟩
  · simp only [fetch, if_neg hinvalid, hc]
    exact ⟨f, rfl⟩

end Fetch

namespace Clients

/-- Nothing has happened yet, and a page holds what it held before. -/
def resume {n : Nat} (b : Pool FileDisk n) (p : PageId) (x : Page) : Clients FileDisk n :=
  { start b with contents := Function.update (fun _ => none) p (some x) }

/-- Guards of the page show these bytes, it can be guarded as long as it is cached or a frame is
unpinned, and no new page gets its id. -/
structure Serves {n : Nat} (s : Clients FileDisk n) (p : PageId) (x : Page) : Prop where
  shown : ∀ g, some g ∈ s.guards → g.page = p → g.data s.session.pool = x
  guarded : ∀ access, access.dirty = false → s.Fits (.read p) →
    (s.session.pool.isCached p = true ∨
      ∃ f : Fin n, (s.session.pool.frames.get f).pins = 0) →
    ∃ g b, s.session.pool.fetchGuarded p access = (.ok (some g), b) ∧ g.page = p ∧ g.data b = x
  spared : ∀ g b, s.session.pool.newGuard = (.ok (some g), b) → g.page ≠ p

namespace Recorded

variable {n : Nat} {s : Clients FileDisk n} {j : Journal} {p : PageId} {e : Entry}

theorem start {c : Config} {log : Option Log} {b : Pool FileDisk c.poolSize}
    (hb : Pool.ofConfig c (FileDisk.ofBytes []) log = .ok b) :
    (start b).Recorded fun _ => none where
  clear :=
    have h := Clear.start hb FileDisk.Whole.ofBytes_nil.ordered
    ⟨h.valid, h.backed, nofun, fun _ => rfl, nofun⟩
  whole := by
    obtain ⟨r, -, rfl⟩ := exists_create_of_ofConfig hb
    exact .ofBytes_nil
  live _ hp := absurd rfl hp
  due := nofun
  created _ := by simp [Clients.start]
  contents := nofun

theorem resume {c : Config} {d : FileDisk} {log : Option Log} {b : Pool FileDisk c.poolSize}
    (hb : Pool.ofConfig c d log = .ok b) (hd : d.Whole) {x : Page} (hp : d.stored p = some x)
    (hin : d.InFile p) :
    (resume b p x).Recorded (Function.update (fun _ => none) p (some ⟨true, some x⟩)) := by
  have h := Clear.start hb hd.ordered
  obtain ⟨r, -, rfl⟩ := exists_create_of_ofConfig hb
  have hself : ∀ {q e}, Function.update (fun _ => none) p (some (⟨true, some x⟩ : Entry)) q =
      some e → q = p ∧ e = ⟨true, some x⟩ := by
    intro q e he
    by_cases hq : q = p
    · rw [hq, Function.update_self] at he
      exact ⟨hq, (Option.some.inj he).symm⟩
    · rw [Function.update_of_ne hq] at he
      cases he
  refine ⟨⟨h.valid, h.backed, nofun, fun _ => rfl, fun q y hy => ?_⟩, hd, fun q hq => ?_,
    fun q e he _ => ?_, fun q => ?_, fun q e he _ => ?_⟩
  · obtain ⟨e, he, hy⟩ := Option.bind_eq_some_iff.mp hy
    obtain ⟨rfl, rfl⟩ := hself he
    cases hy
    refine ⟨fun f hf => ?_, ⟨x, hp, Or.inl rfl⟩, nofun⟩
    simp [recalled, Clients.resume, Clients.start, Session.start, Pool.create, frameOf?] at hf
  · obtain ⟨e, he⟩ := Option.ne_none_iff_exists'.mp hq
    obtain ⟨rfl, -⟩ := hself he
    exact fun hn => absurd (hp.symm.trans hn) (by simp)
  · obtain ⟨rfl, -⟩ := hself he
    exact Or.inl hin
  · by_cases hq : q = p
    · simp [Clients.resume, hq]
    · simp [Clients.resume, Function.update_of_ne hq]
  · obtain ⟨rfl, rfl⟩ := hself he
    simp [Clients.resume, Entry.bytes?]

/-- A page whose place was blank is served with what was written to it. -/
theorem serves (h : s.Recorded j) (he : j p = some e) (hb : e.blank = true) :
    ∃ x, s.contents p = some x ∧ s.Serves p x := by
  have hlive := h.live p (by simp [he])
  obtain ⟨x, hx⟩ := Entry.exists_bytes hb
  refine ⟨x, (h.contents p e he hb).trans hx, ?_, ?_, ?_⟩
  · rintro g hg rfl
    exact h.clear.data_eq hg (by simp only [recalled, he, Option.bind_some, hx])
  · intro access haccess hfits hfree
    obtain ⟨f, hf⟩ :=
      exists_fetch (s := s.session) h.clear.valid h.clear.backed hlive hfree
    have ht := h.clear.fetch haccess ⟨⟨trivial, hfits.1⟩, hfits.2⟩
    rcases hr : s.session.pool.fetchGuarded p access with ⟨answer, b⟩
    have hanswer : answer = .ok (some ⟨p, f, access⟩) := by
      have hr := congrArg Prod.fst hr
      simp only [fetchGuarded] at hr
      rw [← hr, hf]
      rfl
    subst hanswer
    refine ⟨_, b, rfl, rfl, ?_⟩
    rw [show (s.recalled j).session.pool.fetchGuarded p access = _ from hr] at ht
    refine ht.data_eq (List.mem_append_right _ (List.mem_singleton_self _)) ?_
    simp only [take, recalled, he, Option.bind_some, hx]
  · rintro g b hnew rfl
    rcases s.step_create with ⟨q, f, hn, hpage, -, hguard, -⟩ | ⟨-, hnone, -⟩
    · rw [hnew] at hguard
      cases hguard
      exact Session.page_new_ne h.clear.valid h.clear.backed trivial hn hlive hpage
    · exact hnone g (congrArg Prod.fst hnew)

theorem stored_flushAll (h : s.Recorded j) (hd : s.Fits .flushAll)
    (hguards : ∀ g, some g ∉ s.guards) (hwindows : ∀ w ∈ s.session.flights, w.isOpen = false)
    (hflush : s.session.pool.flushAll.1 = .ok ()) (he : j p = some e) {x : Page}
    (hx : e.bytes? = some x)
    (hin : e.last ≠ none ∨ s.session.pool.flushAll.2.device.InFile p) :
    s.session.pool.flushAll.2.device.InFile p ∧
      s.session.pool.flushAll.2.device.slot p = x := by
  have ht := h.step hd
  have hv : s.session.Valid := h.clear.valid
  have hun : ¬(s.step .flushAll).session.Unsaved p :=
    Session.not_unsaved_flushAll hv h.clear.backed hwindows hflush (h.live p (by simp [he]))
  have howed : ¬(s.step .flushAll).Owed p := fun ⟨g, hg, _⟩ => hguards g hg
  constructor
  · exact hin.elim
      (fun hl => (ht.due p e he hl).resolve_right (not_or.mpr ⟨hun, howed⟩)) id
  · have hkept := ht.clear.kept p x (by simp only [recalled, note, he, Option.bind_some, hx])
    obtain ⟨y, rfl, hy⟩ := hkept.settled (fun _ => hun) howed
    exact FileDisk.slot_of_stored ht.whole.ordered hy

end Recorded

/-- Clients work on a new file, and everything is flushed with success when their guards are gone
and no flush is in its window. Then every page that they created and did not delete has an entry in
the journal, which tells what it showed after the last write through a guard. If the page was
written, or its place was blank and lies in the file, a pool on the reopened file serves it until it
is deleted: with these bytes, or with zeros if it was never written, and with what is written to it
from then on. On a place that was blank they are what was written to the page since its creation. -/
theorem reopened {c c' : Config} {log log' : Option Log} {b : Pool FileDisk c.poolSize}
    (hb : Pool.ofConfig c (FileDisk.ofBytes []) log = .ok b) {ds : List Deed}
    (hds : (start b).Along Fits (ds ++ [.flushAll])) {s : Clients FileDisk c.poolSize}
    (hs : s = (start b).run ds) (hguards : ∀ g, some g ∉ s.guards)
    (hwindows : ∀ w ∈ s.session.flights, w.isOpen = false)
    (hflush : s.session.pool.flushAll.1 = .ok ()) {d : FileDisk}
    (hd : d = s.session.pool.flushAll.2.device) {b' : Pool FileDisk c'.poolSize}
    (hb' : Pool.ofConfig c' (FileDisk.ofBytes d.bytes) log' = .ok b') (p : PageId)
    (hp : s.contents p ≠ none) :
    ∃ e, (start b).journal (fun _ => none) ds p = some e ∧
      (e.blank = true → s.contents p = e.bytes?) ∧
      ∀ x, e.bytes? = some x → e.last ≠ none ∨ d.InFile p →
        ∀ ds', (resume b' p x).Along (fun s d => s.Fits d ∧ d ≠ .delete p) ds' →
          ∃ y, ((resume b' p x).run ds').contents p = some y ∧
            ((resume b' p x).run ds').Serves p y := by
  obtain ⟨hrun, hlast, -⟩ := along_append.mp hds
  have h := (Recorded.start hb).run hrun
  rw [← hs] at h hlast
  obtain ⟨e, he⟩ := Option.ne_none_iff_exists'.mp (mt (h.created p).mp hp)
  refine ⟨e, he, h.contents p e he, fun x hx hin ds' hds' => ?_⟩
  have hin' : e.last ≠ none ∨ s.session.pool.flushAll.2.device.InFile p := hd ▸ hin
  obtain ⟨hfile, hslot⟩ := h.stored_flushAll hlast hguards hwindows hflush he hx hin'
  have hwhole : d.Whole := hd ▸ (h.step hlast).whole
  rw [← hd] at hfile hslot
  have hresume := Recorded.resume hb' hwhole.ofBytes
    (hslot ▸ hwhole.stored_ofBytes hfile) hfile
  obtain ⟨hrun', e', he', hblank⟩ := hresume.journal_eq_some hds' (Function.update_self ..)
  exact hrun'.serves he' hblank

def writing : List Deed := [.create, .put 0 0 [7], .drop 0]

theorem reopened_writing : ∃ b : Pool FileDisk 1,
    Pool.ofConfig ⟨1, .lru⟩ (FileDisk.ofBytes []) none = .ok b ∧
    ∀ s, s = (start b).run writing → ∃ b' : Pool FileDisk 1,
      Pool.ofConfig ⟨1, .lruK 2⟩ (FileDisk.ofBytes s.session.pool.flushAll.2.device.bytes) none =
        .ok b' ∧
      ∃ g b'', b'.readGuard 0 = (.ok (some g), b'') ∧ g.data b'' = Page.zero.write 0 [7] := by
  refine ⟨_, rfl, fun s hs => ⟨_, rfl, ?_⟩⟩
  have h := Recorded.start (show Pool.ofConfig ⟨1, .lru⟩ _ none = .ok _ from rfl)
  have hfits : (start _).Along Fits (writing ++ [.flushAll]) :=
    h.along_fits (fun _ => Nat.le_refl 0) (by decide)
  have hguards : s.guards = [none] := by rw [hs]; rfl
  have hcontents : s.contents 0 = some (Page.zero.write 0 [7]) := by rw [hs]; rfl
  have hflights : s.session.flights = [] := by rw [hs]; rfl
  have hflush : s.session.pool.flushAll.1 = .ok () := by rw [hs]; rfl
  obtain ⟨e, he, -, hserves⟩ := reopened rfl hfits hs (by simp [hguards]) (by simp [hflights])
    hflush rfl (show Pool.ofConfig ⟨1, .lruK 2⟩ _ none = .ok _ from rfl) 0 (by simp [hcontents])
  have hlast : e.last = some (Page.zero.write 0 [7]) :=
    (congrArg (fun e? => e?.bind Entry.last) he).symm
  obtain ⟨y, hy, hserved⟩ := hserves _ (by rw [Entry.bytes?, hlast, Option.some_or])
    (Or.inl (by simp [hlast])) [] trivial
  obtain rfl := Option.some.inj hy
  have hread : ∀ b : Pool FileDisk 1, (resume b 0 (Page.zero.write 0 [7])).Fits (.read 0) :=
    fun b => ⟨fun p => (Session.held_add_windowsOn_step _ (.call (.fetch 0)) p).trans_lt
      (show 0 + 0 + 1 < UInt32.size by decide), trivial⟩
  obtain ⟨g, b, hg, -, hdata⟩ := hserved.guarded .read rfl (hread _) (Or.inr ⟨0, rfl⟩)
  exact ⟨g, b, hg, hdata⟩

def leaving : List Deed := [.create, .drop 0]

/-- The page is not in the file, and its id is handed out again. -/
theorem not_reopened_leaving : ∃ b : Pool FileDisk 1,
    Pool.ofConfig ⟨1, .lru⟩ (FileDisk.ofBytes []) none = .ok b ∧
    ∀ s, s = (start b).run leaving →
      s.contents 0 = some Page.zero ∧ (∀ g, some g ∉ s.guards) ∧
      s.session.pool.flushAll.1 = .ok () ∧
      ∃ b' : Pool FileDisk 1,
        Pool.ofConfig ⟨1, .lru⟩ (FileDisk.ofBytes s.session.pool.flushAll.2.device.bytes) none =
          .ok b' ∧
        (b'.readGuard 0).1 = .ok none ∧
        b'.newGuard.1 = .ok (some ⟨0, 0, .write false⟩) := by
  refine ⟨_, rfl, ?_⟩
  rintro s rfl
  refine ⟨rfl, fun g => ?_, rfl, _, rfl, rfl, rfl⟩
  rw [show ((start _).run leaving).guards = [none] from rfl]
  simp

end Clients

end BufferPool
