import BufferPool.Proofs.Pool.Sweep
import BufferPool.Proofs.Session.RolledBack

/-! # Flushing everything

A flush of all pages writes each dirty one once, in the order of their frames.
If a write fails, the pages before it have been flushed, and nothing has
happened to the others.
-/

namespace BufferPool.Session

open Pool Storage

variable {δ : Type} [Device δ]

/-- Flushing all pages moves nothing but marks. It writes the dirty pages with their bytes, each of
them once and in the order of their frames, and makes no other request. If all goes well, then no
cached page is dirty, and the bytes of every page that was dirty are on the device, if it has a
place there. Otherwise the last write is the one that the device has failed. The pages in the frames
before are flushed, and from there on every frame is as it was, and so is the device. -/
theorem flushAll_writes_dirty_pages [Storage δ] [Pagewise δ] {c : Config} {d : δ}
    {log : Option Log} {b : Pool δ c.poolSize} (hb : Pool.ofConfig c d log = .ok b)
    (hd : Pagewise.InOrder d) (as : List (Action c.poolSize)) (has : (start b).Undisturbed as)
    {s : Session δ c.poolSize} (hs : s = (start b).run as) :
    ∃ b', s.pool.Remarked (List.finRange c.poolSize) b' ∧
      ((s.pool.flushAll = (.ok (), b') ∧ s.pool.FlushedAll b') ∨
        ∃ f before w e, e.isMissing = false ∧
          s.pool.flushAll = (.error (.writingBack w.1 e), b') ∧
          s.pool.FlushedUpTo f before w b') := by
  obtain ⟨htidy, -, hdevice⟩ := has.ends hb hd
  rw [← hs] at htidy hdevice
  rcases flushAll_cases htidy with ⟨b', hswept, hflush, hasks⟩ |
    ⟨before, f, after, b₁, w, e, d', hfs, hswept, hf, hw, he, hflush, hasks⟩
  · exact ⟨b', hswept.toRemarked, Or.inl ⟨hflush, hswept.flushedAll htidy hdevice hasks⟩⟩
  · have hmarks := hswept.toRemarked.mono fun g _ => List.mem_finRange g
    exact ⟨_, hmarks.of_device, Or.inr ⟨f, _, w, e, he, hflush,
      hswept.flushedUpTo hfs htidy hdevice hf hw hasks⟩⟩

def interrupted : FaultyDisk MemoryDisk where
  device := .empty
  writes := .burst 1 1 fun _ => .io (.other "device unplugged")

/-- The pages 0 and 2 are dirty, and the second of them is pinned. The page 1 between them is
clean. -/
def mixed : List (Action 3) :=
  [.call .new, .put 0 0 [7], .call (.unpin 0 true), .call .new, .call (.unpin 1 false), .call .new,
    .put 2 0 [9], .call (.unpin 2 true), .call (.fetch 2)]

theorem flushAll_writes_dirty_pages_mixed : ∃ b : Pool (FaultyDisk MemoryDisk) 3,
    Pool.ofConfig ⟨3, .lruK 2⟩ interrupted none = .ok b ∧ Pagewise.InOrder interrupted ∧
    (start b).Undisturbed mixed ∧ ∀ s, s = (start b).run mixed →
      ∃ b', s.pool.flushAll =
          (.error (.writingBack 2 (.io (.other "device unplugged"))), b') ∧
        s.pool.asks .flushAll =
          [.write 0 (s.pool.frames.get 0).data, .write 2 (s.pool.frames.get 2).data] ∧
        page? b'.device 0 = some (s.pool.frames.get 0).data ∧
        (b'.frames.get 0).dirty = false ∧ b'.frames.get 2 = s.pool.frames.get 2 ∧
        page? b'.device 2 = page? s.pool.device 2 ∧
        (s.pool.frames.get 0).data.bytes.head? = some 7 ∧
        (s.pool.frames.get 2).dirty = true := by
  have hb : Pool.ofConfig ⟨3, .lruK 2⟩ interrupted none =
      .ok (.create (.lruK { k := 2, k_pos := by decide }) interrupted none) := rfl
  have hd : Pagewise.InOrder interrupted :=
    ⟨trivial, FaultyDisk.keepsPages_burst 1 1 fun _ => rfl⟩
  have has : (start (.create (.lruK { k := 2, k_pos := by decide }) interrupted none)).Undisturbed
      mixed := Or.inl (by simp [mixed])
  refine ⟨_, hb, hd, has, ?_⟩
  rintro s rfl
  obtain ⟨b', -, hends⟩ := flushAll_writes_dirty_pages hb hd mixed has rfl
  generalize hs : (start (.create (.lruK { k := 2, k_pos := by decide }) interrupted none)).run
    mixed = s at *
  have hfirst : s.pool.dirtyIn 0 = some (0, (s.pool.frames.get 0).data) :=
    dirtyIn_of_dirty (hs ▸ by decide +kernel) (hs ▸ by decide +kernel)
  have hsecond : s.pool.dirtyIn 1 = none := dirtyIn_of_clean (hs ▸ by decide +kernel)
  have hthird : s.pool.dirtyIn 2 = some (2, (s.pool.frames.get 2).data) :=
    dirtyIn_of_dirty (hs ▸ by decide +kernel) (hs ▸ by decide +kernel)
  have hdirty : s.pool.dirtyPages =
      [(0, (s.pool.frames.get 0).data), (2, (s.pool.frames.get 2).data)] := by
    simp only [dirtyPages, show List.finRange 3 = [0, 1, 2] from rfl, List.filterMap_cons, hfirst,
      hsecond, hthird, List.filterMap_nil]
  have hanswer : s.pool.flushAll.1 =
      .error (.writingBack 2 (.io (.other "device unplugged"))) := hs ▸ by decide +kernel
  have hframe : ∀ f, (s.pool.frames.get f).page = some 2 → f = 2 := hs ▸ by decide +kernel
  have hplace : page? s.pool.device 0 ≠ none := hs ▸ by decide +kernel
  have hpage : (s.pool.frames.get 0).page ≠ none := hs ▸ by decide +kernel
  rcases hends with ⟨hflush, -⟩ | ⟨f, before, w, e, -, hflush, hupto⟩
  · rw [hflush] at hanswer
    cases hanswer
  rw [hflush] at hanswer
  obtain ⟨hw, rfl⟩ := PoolError.writingBack.inj (Except.error.inj hanswer)
  obtain rfl := hframe f (hw ▸ fst_of_dirtyIn hupto.failing)
  obtain ⟨after, hpages⟩ := hupto.pages
  rw [hdirty] at hpages
  rcases before with _ | ⟨v, _ | ⟨v', before⟩⟩
  · cases hpages
    cases hw
  · cases hpages
    have hother : (2 : PageId) ∉ [(0 : PageId)] := by decide
    exact ⟨b', hflush, hupto.asks, hupto.stored _ List.mem_cons_self hplace,
      hupto.clean 0 (by decide) hpage, hupto.frames 2 le_rfl, hupto.device 2 hother,
      hs ▸ by decide +kernel, hs ▸ by decide +kernel⟩
  · exact absurd (congrArg List.length hpages) (by simp)

end BufferPool.Session
