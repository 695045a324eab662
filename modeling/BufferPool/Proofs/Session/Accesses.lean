import BufferPool.Proofs.Pool.Accesses
import BufferPool.Proofs.Session.Order

/-! # Eviction by accesses

A diary is a session with the accesses of every page since it last came in.
Nothing else counts: not how often a page was given back, not its flushes, and
not what was in its frame before. A pool with LRU-K evicts by the diary.
-/

namespace BufferPool

open Pool

/-- A session, and the accesses of its pages since they came in, the latest first. They are numbered
as they happen. -/
structure Diary (δ : Type) (n : Nat) where
  session : Session δ n
  next : Nat := 0
  accesses : PageId → List Nat := fun _ => []

namespace Session

variable {δ : Type} [Device δ] {n : Nat} {s : Session δ n} {a : Action n} {p : PageId}

def accessed? (s : Session δ n) : Action n → Option PageId
  | .call .new => s.pool.created?
  | .call (.fetch p) =>
    match (s.pool.fetch p).1 with
    | .ok (some _) => some p
    | _ => none
  | _ => none

def hits (s : Session δ n) : Action n → Bool
  | .call (.fetch p) => s.pool.isCached p
  | _ => false

theorem recalls_step {k clock : Nat} {accesses : PageId → List Nat} (hv : s.Valid)
    (h : s.pool.Recalls k clock accesses) (a : Action n) :
    (∃ p, s.accessed? a = some p ∧ (s.step a).pool.Recalls k (clock + 1)
      (Function.update accesses p (clock :: if s.hits a then accesses p else []))) ∨
    s.accessed? a = none ∧ (s.step a).pool.Recalls k clock accesses := by
  cases a with
  | call c =>
    cases c with
    | new => exact h.new hv.sound
    | fetch p =>
      rcases h.fetch hv.sound p with ⟨f, hok, hfetch⟩ | ⟨hnone, hfetch⟩
      · exact Or.inl ⟨p, by simp only [accessed?, hok], hfetch⟩
      · exact Or.inr ⟨by simp only [accessed?], hfetch⟩
    | unpin p dirty => exact Or.inr ⟨rfl, h.unpin p dirty⟩
    | flush p =>
      refine Or.inr ⟨rfl, ?_⟩
      simpa only [step, after, flush_eq_flushNow] using h.flushNow p
    | flushAll => exact Or.inr ⟨rfl, h.flushEach _⟩
    | delete p => exact Or.inr ⟨rfl, h.delete hv.sound p⟩
  | put f offset new => exact Or.inr ⟨rfl, h.congr rfl rfl⟩
  | beginFlush p =>
    refine Or.inr ⟨rfl, ?_⟩
    have hbegin := h.beginFlush p
    simp only [step]
    split
    all_goals
      rename_i hb
      rwa [hb] at hbegin
  | writeWindow i =>
    refine Or.inr ⟨rfl, ?_⟩
    simp only [step]
    split
    · rename_i w _
      exact h.congr (writeBack_books s.pool w.page _).1 (writeBack_books s.pool w.page _).2.2
    · exact h
  | closeWindow i =>
    refine Or.inr ⟨rfl, ?_⟩
    simp only [step]
    split
    · rename_i hi
      exact h.closeWindow (hv.inFrame _ (List.mem_of_getElem? hi) rfl) _
    · exact h

end Session

namespace Diary

open Session

variable {δ : Type} {n : Nat} {x : Diary δ n} {a : Action n} {as : List (Action n)}
  {k : Nat} {p q : PageId}

section Step

variable [Device δ]

def step (x : Diary δ n) (a : Action n) : Diary δ n :=
  match x.session.accessed? a with
  | none => { x with session := x.session.step a }
  | some p => {
    session := x.session.step a
    next := x.next + 1
    accesses := Function.update x.accesses p
      (x.next :: if x.session.hits a then x.accesses p else []) }

def run (x : Diary δ n) (as : List (Action n)) : Diary δ n := as.foldl step x

theorem session_step (x : Diary δ n) (a : Action n) :
    (x.step a).session = x.session.step a := by
  unfold step
  split <;> rfl

theorem session_run (x : Diary δ n) (as : List (Action n)) :
    (x.run as).session = x.session.run as := by
  induction as generalizing x with
  | nil => rfl
  | cons a as ih => exact (ih (x.step a)).trans (congrArg (·.run as) (session_step x a))

end Step

def Unpinned (x : Diary δ n) (p : PageId) : Prop := x.session.pool.pinCount? p = some 0

instance : Decidable (x.Unpinned p) := inferInstanceAs (Decidable (_ = _))

def accessesIn (x : Diary δ n) (f : Fin n) : List Nat :=
  (x.session.pool.frames.get f).page.elim [] x.accesses

theorem accessesIn_eq {f : Fin n} (hp : (x.session.pool.frames.get f).page = some p) :
    x.accessesIn f = x.accesses p := by
  rw [accessesIn, hp, Option.elim_some]

theorem exists_page_of_mem {f : Fin n} {i : Nat} (hi : i ∈ x.accessesIn f) :
    ∃ p, (x.session.pool.frames.get f).page = some p ∧ i ∈ x.accesses p := by
  unfold accessesIn at hi
  cases hp : (x.session.pool.frames.get f).page with
  | none =>
    rw [hp] at hi
    cases hi
  | some p =>
    rw [hp] at hi
    exact ⟨p, rfl, hi⟩

/-- By their accesses, `p` is the next of the unpinned pages to go. -/
def Due (x : Diary δ n) (k : Nat) (p : PageId) : Prop := Replacer.Due k x.accesses x.Unpinned p

/-- The diary is what the replacer goes by. Its entries are in order, and no access is that of two
pages. -/
structure Faithful (x : Diary δ n) (k : Nat) : Prop where
  valid : x.session.Valid
  recalls : x.session.pool.Recalls k x.next x.accesses
  lt_next : ∀ p, ∀ i ∈ x.accesses p, i < x.next
  descending : ∀ p, (x.accesses p).Pairwise (· > ·)
  apart : ∀ p q i, i ∈ x.accesses p → i ∈ x.accesses q → p = q

namespace Faithful

theorem create (k_pos : 0 < k) (d : δ) (log : Option Log) :
    Faithful { session := start (.create (n := n) (.lruK { k, k_pos }) d log) } k where
  valid := by
    have hpolicy : Replacer.ofPolicy 0 (.lruK k) =
        .ok (.lruK { k, k_pos } : Replacer (Fin n)) := dif_pos k_pos
    obtain ⟨hsound, hnone⟩ := Replacer.ofPolicy_spec hpolicy
    exact .create hsound hnone d log
  recalls := .create k_pos d log
  lt_next _ _ hi := by cases hi
  descending _ := .nil
  apart _ _ _ hi := by cases hi

theorem step [Device δ] (h : x.Faithful k) (ha : x.session.Orderly a) : (x.step a).Faithful k := by
  have hvalid := h.valid.step ha
  unfold Diary.step
  rcases recalls_step h.valid h.recalls a with ⟨p, hp, hrecalls⟩ | ⟨hp, hrecalls⟩
  all_goals simp only [hp]
  · generalize hpast : (if x.session.hits a then x.accesses p else []) = past at hrecalls
    have hold : ∀ i ∈ past, i ∈ x.accesses p := by
      rw [← hpast]
      split
      · exact fun _ hi => hi
      · exact nofun
    have hcases : ∀ q, ∀ i ∈ Function.update x.accesses p (x.next :: past) q,
        i = x.next ∧ q = p ∨ i ∈ x.accesses q := by
      intro q i hi
      by_cases hq : q = p
      · subst hq
        rw [Function.update_self, List.mem_cons] at hi
        exact hi.imp (fun he => ⟨he, rfl⟩) (hold i)
      · rw [Function.update_of_ne hq] at hi
        exact Or.inr hi
    refine ⟨hvalid, hrecalls, fun q i hi => ?_, fun q => ?_, fun q q' i hi hi' => ?_⟩
    · rcases hcases q i hi with ⟨rfl, -⟩ | hi
      · exact Nat.lt_succ_self _
      · exact Nat.lt_succ_of_lt (h.lt_next q i hi)
    · by_cases hq : q = p
      · subst hq
        dsimp only
        rw [Function.update_self, List.pairwise_cons]
        refine ⟨fun i hi => h.lt_next q i (hold i hi), ?_⟩
        rw [← hpast]
        split
        · exact h.descending q
        · exact .nil
      · dsimp only
        rw [Function.update_of_ne hq]
        exact h.descending q
    · have hne : ∀ r, x.next ∉ x.accesses r := fun r hr => Nat.lt_irrefl _ (h.lt_next r _ hr)
      rcases hcases q i hi with ⟨rfl, rfl⟩ | hq
      · rcases hcases q' _ hi' with ⟨-, rfl⟩ | hq'
        · rfl
        · exact absurd hq' (hne q')
      · rcases hcases q' i hi' with ⟨rfl, -⟩ | hq'
        · exact absurd hq (hne q)
        · exact h.apart q q' i hq hq'
  · exact ⟨hvalid, hrecalls, h.lt_next, h.descending, h.apart⟩

theorem run [Device δ] (h : x.Faithful k) (has : x.session.Along Orderly as) :
    (x.run as).Faithful k := by
  induction as generalizing x with
  | nil => exact h
  | cons a as ih =>
    apply ih (h.step has.1)
    rw [session_step]
    exact has.2

theorem remembers (h : x.Faithful k) :
    x.session.pool.replacer.Remembers k x.next x.accessesIn := by
  have hs := h.valid.sound
  have hpage : ∀ f, x.session.pool.replacer.isEvictable f = true →
      ∃ p, x.session.pool.frameOf? p = some f ∧ x.accessesIn f = x.accesses p := by
    intro f hf
    obtain ⟨hp, -⟩ := (hs.isEvictable_iff f).mp hf
    obtain ⟨p, hp⟩ := Option.ne_none_iff_exists'.mp hp
    exact ⟨p, (hs.frameOf?_iff p f).mpr hp, accessesIn_eq hp⟩
  constructor
  · exact h.recalls.isLruK
  · intro f hf
    obtain ⟨p, hp, hin⟩ := hpage f hf
    rw [hin]
    exact h.recalls.history p f hp
  · intro f hf
    obtain ⟨p, hp, hin⟩ := hpage f hf
    rw [hin]
    exact h.recalls.accessed p f hp
  · intro f i hi
    obtain ⟨p, -, hi⟩ := exists_page_of_mem hi
    exact h.lt_next p i hi
  · intro f g i hi hi'
    obtain ⟨p, hp, hi⟩ := exists_page_of_mem hi
    obtain ⟨q, hq, hi'⟩ := exists_page_of_mem hi'
    obtain rfl := h.apart p q i hi hi'
    rw [← hs.frameOf?_iff] at hp hq
    exact Option.some.inj (hp.symm.trans hq)

theorem exists_frame (h : x.Faithful k) (hp : x.Unpinned p) : ∃ f,
    x.session.pool.frameOf? p = some f ∧ x.session.pool.replacer.isEvictable f = true ∧
      x.accessesIn f = x.accesses p := by
  have hs := h.valid.sound
  obtain ⟨f, hf, hpins⟩ := Option.map_eq_some_iff.mp hp
  exact ⟨f, hf, (hs.isEvictable_iff_pins hf).mpr hpins, accessesIn_eq (hs.page_eq hf)⟩

theorem due_of_isVictim (h : x.Faithful k) (hp : x.session.pool.IsVictim p) :
    x.Unpinned p ∧ x.Due k p := by
  obtain ⟨-, f, hv, hpage⟩ := hp
  have hs := h.valid.sound
  have hf := (hs.frameOf?_iff p f).mpr hpage
  constructor
  · rw [Unpinned, pinCount?, hf, Option.map_some, (hs.of_peek hv).2]
  · refine (h.remembers.due_of_peek hs.replacer hv).transfer (accessesIn_eq hpage) fun q hq => ?_
    obtain ⟨g, hg, hev, hgin⟩ := h.exists_frame hq
    exact ⟨g, hev, hgin, fun hne => hs.frame_ne hne hg hf⟩

end Faithful

/-- Whatever its users and its device do, a pool with LRU-K evicts the page that is due by the
accesses of the pages since they came in, and only for a page that is not cached, when no frame is
free. -/
theorem evicts_by_accesses [Device δ] (k_pos : 0 < k) (d : δ) (log : Option Log)
    (as : List (Action n)) (a : Action n) (x₀ x : Diary δ n)
    (hx₀ : x₀ = { session := start (.create (.lruK { k, k_pos }) d log) }) (hx : x = x₀.run as)
    (has : x₀.session.Along Orderly (as ++ [a])) :
    x.session = x₀.session.run as ∧
    (∀ p, x.session.pool.isCached p = true →
      x.accesses p ≠ [] ∧ (x.accesses p).Pairwise (· > ·)) ∧
    ∀ p, x.session.Evicts a p → x.session.pool.free = [] ∧ x.Unpinned p ∧ x.Due k p ∧
      ∀ q, a = .call (.fetch q) → x.session.pool.isCached q = false := by
  obtain ⟨hrun, -⟩ := along_append.mp has
  have hfaithful₀ : x₀.Faithful k := hx₀ ▸ .create k_pos d log
  have hfaithful : x.Faithful k := hx ▸ hfaithful₀.run hrun
  refine ⟨hx ▸ session_run x₀ as, fun p hp => ?_, fun p hp => ?_⟩
  · obtain ⟨f, hf⟩ := Option.isSome_iff_exists.mp hp
    exact ⟨hfaithful.recalls.accessed p f hf, hfaithful.descending p⟩
  · obtain ⟨hvictim, hmiss⟩ := victim_of_evicts hp
    obtain ⟨hunpinned, hdue⟩ := hfaithful.due_of_isVictim hvictim
    exact ⟨hvictim.1, hunpinned, hdue, hmiss⟩

/-- Page 1 is evicted, at the second try, and comes back. Page 0 was accessed twice before that, and
given back twice. -/
def returning : List (Action 2) :=
  [.call .new, .call (.unpin 0 true), .call (.fetch 0), .call (.unpin 0 true), .call .new,
    .call (.unpin 1 true), .call .new, .call .new, .call (.unpin 2 false), .call (.fetch 1),
    .call (.unpin 1 false)]

theorem evicts_by_accesses_returning :
    let d : FaultyDisk MemoryDisk :=
      { device := .empty, writes := .burst 0 1 fun _ => .io (.other "device unplugged") }
    let x₀ : Diary _ 2 :=
      { session := start (.create (.lruK { k := 2, k_pos := Nat.two_pos }) d none) }
    x₀.session.Along Orderly (returning ++ [.call .new]) ∧
      (x₀.run returning).session.Evicts (.call .new) 1 ∧
      (x₀.run returning).accesses 1 = [4] ∧ (x₀.run returning).accesses 0 = [1, 0] ∧
      (x₀.run returning).Due 2 1 := by
  intro d x₀
  have has : x₀.session.Along Orderly (returning ++ [.call .new]) :=
    along_and.mpr ⟨by decide +kernel, along_pinsFit (m := 0) _ (fun _ => Nat.le_refl _) (by decide)⟩
  have hevicts : (x₀.run returning).session.Evicts (.call .new) 1 :=
    ⟨by decide +kernel, Or.inl rfl, Or.inl (by decide +kernel)⟩
  obtain ⟨-, -, hall⟩ :=
    evicts_by_accesses Nat.two_pos d none returning (.call .new) x₀ _ rfl rfl has
  exact ⟨has, hevicts, by decide +kernel, by decide +kernel, (hall 1 hevicts).2.2.1⟩

end Diary

end BufferPool
