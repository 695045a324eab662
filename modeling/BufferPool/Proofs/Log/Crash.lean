import BufferPool.Proofs.Log.Recovery

/-! # Logs through crashes

A log is opened, called, closed and lost in crashes, any number of times. A crash
leaves a beginning of the bytes that were written, which reaches at least to
where the file ended after the last flush or opening. Every opening finds as many
of the records as are whole, with all that were reported persistent among them,
and their numbers never have a gap.
-/

namespace BufferPool

namespace Record

variable {bs : Bytes} {rs xs : List Record}

theorem prefix_decodeAll (h : ∀ r ∈ xs, r.Fits) (hxs : encodeAll xs <+: bs) :
    xs <+: (decodeAll bs).1 := by
  obtain ⟨rest, rfl⟩ := hxs
  rw [decodeAll_encodeAll_append h]
  exact List.prefix_append _ _

theorem decodeAll_prefix (h : ∀ r ∈ rs, r.Fits) (hbs : bs <+: encodeAll rs) :
    (decodeAll bs).1 <+: rs := by
  have hintact : IntactPrefix bs _ _ := decodeAll_eq_iff.mp rfl
  have hframes : encodeAll (decodeAll bs).1 <+: encodeAll rs := by
    rw [← hintact.take_eq]
    exact (List.take_prefix _ _).trans hbs
  have hrs : decodeAll (encodeAll rs) = (rs, (encodeAll rs).length) :=
    decodeAll_eq_iff.mpr (intactPrefix_encodeAll h)
  have hprefix := prefix_decodeAll hintact.fits hframes
  rwa [hrs] at hprefix

theorem prefix_encodeAll (rs : List Record) (j : Nat) :
    encodeAll (rs.take j) <+: encodeAll rs :=
  ⟨encodeAll (rs.drop j), by rw [← encodeAll_append, List.take_append_drop]⟩

theorem le_length_decodeAll (h : ∀ r ∈ rs, r.Fits) (hbs : bs <+: encodeAll rs) {j : Nat}
    (hj : j ≤ rs.length) (hlength : (encodeAll (rs.take j)).length ≤ bs.length) :
    j ≤ (decodeAll bs).1.length := by
  have hframes : encodeAll (rs.take j) <+: bs :=
    List.prefix_of_prefix_length_le (prefix_encodeAll rs j) hbs hlength
  have hprefix := prefix_decodeAll (fun r hr => h r (List.mem_of_mem_take hr)) hframes
  have hle := hprefix.length_le
  rwa [List.length_take, Nat.min_eq_left hj] at hle

end Record

def Place.cut (n : Nat) : Place → Place
  | file contents => file (contents.take n)
  | place => place

/-- What is done with a log, and what befalls it. In a crash an open log is lost, and the file keeps
what is secured and at most `more` of the bytes behind that. -/
inductive LogEvent where
  | opens
  | calls (c : Log.Call)
  | closes
  | crashes (more : Nat)
  deriving DecidableEq

def LogEvent.isAppend : LogEvent → Bool
  | calls (.append _) => true
  | _ => false

/-- A log over time. What is at its place counts as long as it is not open. Its records are those
found at the last opening and those added since, and the file was `secured` up to its length after
the last successful flush or opening. The log has `reported` a number as the last persistent one. -/
structure Logbook where
  place : Place := .vacant
  log : Option Log := none
  records : List Record := []
  secured : Nat := 0
  reported : Lsn := Lsn.invalid

namespace Logbook

open Log Record

/-- What closing the log leaves at the place: the file with all that was written. -/
def leaves (s : Logbook) : Place :=
  match s.log with
  | some l => .file l.close
  | none => s.place

def close (s : Logbook) : Logbook := { s with place := s.leaves, log := none }

def reopen (s : Logbook) : Logbook :=
  match Log.openAt s.leaves with
  | (.ok l, place) => {
      place
      log := some l
      records := (decodeAll l.file).1
      secured := l.file.length
      reported := l.persistent }
  | (.error _, place) => { s.close with place }

def call (s : Logbook) (c : Call) : Logbook :=
  match s.log with
  | some l => { s with
      log := some (l.call c).2
      records := s.records ++ l.added c
      secured := match c, (l.call c).1 with
        | .flush, .ok _ => (l.call c).2.file.length
        | _, _ => s.secured
      reported := (l.call c).2.persistent }
  | none => s

def step (s : Logbook) : LogEvent → Logbook
  | .opens => s.reopen
  | .calls c => s.call c
  | .closes => s.close
  | .crashes more => { s.close with place := s.leaves.cut (s.secured + more) }

def run (s : Logbook) (es : List LogEvent) : Logbook := es.foldl step s

/-- An open log holds the records, and a closed one has left a beginning of their frames. -/
structure Sound (s : Logbook) : Prop where
  fits : ∀ r ∈ s.records, r.Fits
  numbered : s.records.map (·.lsn.toNat) = List.range' 1 s.records.length
  reported_le : s.reported.toNat ≤ s.records.length
  secured_eq : s.secured = (encodeAll (s.records.take s.reported.toNat)).length
  holds : ∀ l, s.log = some l → l.Holds s.records ∧ l.persistent = s.reported
  left : ∃ bs, s.leaves.openOrCreate = .ok bs ∧ bs <+: encodeAll s.records ∧ s.secured ≤ bs.length

/-- Opening the log finds the first `m` of its records, and every one whose frame lies wholly in the
bytes that are there. -/
structure Finds (s : Logbook) (l : Log) (m : Nat) : Prop where
  openAt_eq : Log.openAt s.leaves = (.ok l, .file l.file)
  le_length : m ≤ s.records.length
  file_eq : l.file = encodeAll (s.records.take m)
  recordsAt_eq : recordsAt (.file l.file) = .ok (s.records.take m)
  numbered : (s.records.take m).map (·.lsn.toNat) = List.range' 1 m
  reported_le : s.reported.toNat ≤ m
  whole : ∃ bs, s.leaves.openOrCreate = .ok bs ∧
    ∀ j ≤ s.records.length, (encodeAll (s.records.take j)).length ≤ bs.length → j ≤ m
  persistent_eq : l.persistent.toNat = m
  next_eq : l.next.toNat = m + 1

variable {s : Logbook} {l : Log} {bs : Bytes} {rs : List Record}

theorem toNat_lastLsn_append (first : List Record)
    (h : rs.map (·.lsn.toNat) = List.range' ((lastLsn first).toNat + 1) rs.length) :
    (lastLsn (first ++ rs)).toNat = (lastLsn first).toNat + rs.length := by
  rcases List.eq_nil_or_concat rs with rfl | ⟨init, r, rfl⟩
  · rw [List.append_nil]
    rfl
  · rw [List.concat_eq_append, List.map_append, List.length_append, List.length_singleton,
      List.range'_1_concat] at h
    obtain ⟨-, hlast⟩ := List.append_inj h (by simp)
    have hr : r.lsn.toNat = (lastLsn first).toNat + 1 + init.length := List.singleton_inj.mp hlast
    rw [List.concat_eq_append, ← List.append_assoc, lastLsn_append_singleton, List.length_append,
      List.length_singleton, hr]
    omega

theorem toNat_lastLsn (h : rs.map (·.lsn.toNat) = List.range' 1 rs.length) :
    (lastLsn rs).toNat = rs.length :=
  (toNat_lastLsn_append [] h).trans (Nat.zero_add _)

theorem openOrCreate_cut {place : Place} (h : place.openOrCreate = .ok bs) (n : Nat) :
    (place.cut n).openOrCreate = .ok (bs.take n) := by
  cases place <;> cases h
  · rfl
  · rw [List.take_nil]
    rfl

theorem records_call (hl : s.log = some l) (c : Call) :
    (s.call c).records = s.records ++ l.added c := by
  rw [call, hl]

theorem length_records_call (s : Logbook) (c : Call) :
    (s.call c).records.length ≤ s.records.length + (LogEvent.calls c).isAppend.toNat := by
  rcases hl : s.log with _ | l
  · rw [call, hl]
    exact Nat.le_add_right _ _
  · rw [records_call hl, List.length_append]
    apply Nat.add_le_add_left
    cases c with
    | append payload =>
      by_cases hfits : payload.length < UInt32.size
      · rw [added_append hfits]
        exact Nat.le_refl _
      · rw [added_append_of_not_fits hfits]
        exact Nat.zero_le _
    | flush => exact Nat.le_refl _

theorem openAt_eq {place : Place} (h : place.openOrCreate = .ok bs) :
    Log.openAt place = Log.openAt (.file bs) := by
  cases place <;> cases h
  · rfl
  · have hd : decodeAll [] = ([], 0) := decodeAll_of_decode?_eq_none rfl
    rw [Log.openAt, Log.openAt, hd]
    rfl

namespace Sound

theorem close (h : s.Sound) : s.close.Sound :=
  { h with holds := fun _ hl => nomatch hl }

theorem crash (h : s.Sound) (more : Nat) : (s.step (.crashes more)).Sound := by
  obtain ⟨bs, hbs, hprefix, hle⟩ := h.left
  refine { h with holds := fun _ hl => (nomatch hl), left := ?_ }
  refine ⟨bs.take (s.secured + more), openOrCreate_cut hbs _, ?_, ?_⟩
  · exact (List.take_prefix _ bs).trans hprefix
  · change s.secured ≤ _
    rw [List.length_take]
    omega

theorem numbered_take (h : s.Sound) {m : Nat} (hm : m ≤ s.records.length) :
    (s.records.take m).map (·.lsn.toNat) = List.range' 1 m := by
  rw [List.map_take, h.numbered, List.take_range'_of_length_ge hm]

theorem toNat_lastLsn_take (h : s.Sound) {m : Nat} (hm : m ≤ s.records.length) :
    (lastLsn (s.records.take m)).toNat = m := by
  have hlength : (s.records.take m).length = m := by
    rw [List.length_take, Nat.min_eq_left hm]
  rw [toNat_lastLsn, hlength]
  rw [hlength, h.numbered_take hm]

theorem finds (h : s.Sound) (hfew : s.records.length < UInt64.size - 1) :
    ∃ m, s.Finds (opened (s.records.take m)) m := by
  obtain ⟨bs, hbs, hprefix, hle⟩ := h.left
  -- The bytes that are there are a beginning of the frames, so their records are the first ones.
  have hintact : IntactPrefix bs (decodeAll bs).1 (decodeAll bs).2 := decodeAll_eq_iff.mp rfl
  have hfound := decodeAll_prefix h.fits hprefix
  have hm := hfound.length_le
  have hrs := List.prefix_iff_eq_take.mp hfound
  have hwhole : ∀ j ≤ s.records.length, (encodeAll (s.records.take j)).length ≤ bs.length →
      j ≤ (decodeAll bs).1.length := fun j hj => le_length_decodeAll h.fits hprefix hj
  have hlast := h.toNat_lastLsn_take hm
  rw [← hrs] at hlast
  have hopened := opened_holds hintact.fits
  have hnext : (opened (decodeAll bs).1).next.toNat = (decodeAll bs).1.length + 1 := by
    rw [opened, toNat_lastLsn_add_one (by omega), hlast]
  have hne : (opened (decodeAll bs).1).next ≠ 0 := ne_zero_of_toNat_pos (by omega)
  refine ⟨(decodeAll bs).1.length, ?_⟩
  rw [← hrs]
  constructor
  · rw [openAt_eq hbs, openAt_file hne, hintact.take_eq]
    rfl
  · exact hm
  · rw [← hrs]
    rfl
  · rw [← hrs, ← hopened.recordsAt_close, hopened.close_eq]
    rfl
  · exact h.numbered_take hm
  · exact hwhole _ h.reported_le (h.secured_eq ▸ hle)
  · exact ⟨bs, hbs, hwhole⟩
  · exact hlast
  · exact hnext

theorem of_holds (hl : s.log = some l) (hholds : l.Holds s.records)
    (hpersistent : l.persistent = s.reported)
    (hnumbered : s.records.map (·.lsn.toNat) = List.range' 1 s.records.length)
    (hle : s.reported.toNat ≤ s.records.length)
    (hsecured : s.secured = (encodeAll (s.records.take s.reported.toNat)).length) : s.Sound where
  fits := hholds.fits
  numbered := hnumbered
  reported_le := hle
  secured_eq := hsecured
  holds l' hl' := by
    obtain rfl := Option.some.inj (hl.symm.trans hl')
    exact ⟨hholds, hpersistent⟩
  left := by
    refine ⟨l.close, by rw [leaves, hl]; rfl, hholds.close_eq ▸ List.prefix_rfl, ?_⟩
    rw [hholds.close_eq, hsecured]
    exact (prefix_encodeAll _ _).length_le

theorem of_opened (place : Place) (hfits : ∀ r ∈ rs, r.Fits)
    (hnumbered : rs.map (·.lsn.toNat) = List.range' 1 rs.length) :
    Sound ⟨place, some (opened rs), rs, (encodeAll rs).length, lastLsn rs⟩ := by
  have hlast := toNat_lastLsn hnumbered
  refine of_holds rfl (opened_holds hfits) rfl hnumbered (Nat.le_of_eq hlast) ?_
  rw [hlast, List.take_length]

theorem reopen (h : s.Sound) (hfew : s.records.length < UInt64.size - 1) :
    s.reopen.Sound ∧ ∃ l m, s.Finds l m ∧ s.reopen.log = some l ∧
      s.reopen.records = s.records.take m := by
  obtain ⟨m, hfinds⟩ := h.finds hfew
  have hread : (decodeAll (opened (s.records.take m)).file).1 = s.records.take m :=
    Except.ok.inj hfinds.recordsAt_eq
  have heq : s.reopen = ⟨.file (encodeAll (s.records.take m)), some (opened (s.records.take m)),
      s.records.take m, (encodeAll (s.records.take m)).length, lastLsn (s.records.take m)⟩ := by
    rw [Logbook.reopen, hfinds.openAt_eq]
    simp only [hread]
    rfl
  have hlength : (s.records.take m).length = m := by
    rw [List.length_take, Nat.min_eq_left hfinds.le_length]
  refine ⟨?_, _, m, hfinds, by rw [heq], by rw [heq]⟩
  rw [heq]
  apply of_opened
  · exact fun r hr => h.fits r (List.mem_of_mem_take hr)
  · rw [hlength, hfinds.numbered]

theorem toNat_next (h : s.Sound) (hl : s.log = some l) (hfew : s.records.length < UInt64.size - 1) :
    l.next.toNat = s.records.length + 1 := by
  have hlast := toNat_lastLsn h.numbered
  rw [(h.holds l hl).1.next_eq, toNat_lastLsn_add_one (by omega), hlast]

theorem numbered_added (h : s.Sound) (hl : s.log = some l)
    (hfew : s.records.length < UInt64.size - 1) (payload : Bytes) :
    (s.records ++ l.added (.append payload)).map (·.lsn.toNat) =
      List.range' 1 (s.records ++ l.added (.append payload)).length := by
  by_cases hfits : payload.length < UInt32.size
  · have hnext := h.toNat_next hl hfew
    rw [added_append hfits, List.map_append, h.numbered, List.length_append,
      List.length_singleton, List.range'_1_concat, Nat.add_comm 1, ← hnext]
    rfl
  · rw [added_append_of_not_fits hfits, List.append_nil, h.numbered]

theorem append (h : s.Sound) (hfew : s.records.length < UInt64.size - 1) (payload : Bytes) :
    (s.call (.append payload)).Sound := by
  rcases hl : s.log with _ | l
  · rwa [Logbook.call, hl]
  obtain ⟨hholds, hpersistent⟩ := h.holds l hl
  have hreported : (l.append payload).2.persistent = s.reported :=
    (persistent_append l payload).trans hpersistent
  rw [Logbook.call, hl]
  refine of_holds rfl (hholds.append payload) rfl (h.numbered_added hl hfew payload) ?_ ?_
  · change (l.append payload).2.persistent.toNat ≤ (s.records ++ _).length
    rw [hreported, List.length_append]
    exact Nat.le_add_right_of_le h.reported_le
  · change s.secured =
      (encodeAll ((s.records ++ _).take (l.append payload).2.persistent.toNat)).length
    rw [hreported, List.take_append_of_le_length h.reported_le]
    exact h.secured_eq

theorem flush (h : s.Sound) (hfew : s.records.length < UInt64.size - 1) :
    (s.call .flush).Sound := by
  rcases hl : s.log with _ | l
  · rwa [Logbook.call, hl]
  obtain ⟨hholds, -⟩ := h.holds l hl
  have hne : l.next ≠ 0 := ne_zero_of_toNat_pos (by rw [h.toNat_next hl hfew]; omega)
  have hlast : (l.next - 1).toNat = s.records.length := by
    rw [hholds.next_eq, UInt64.add_sub_cancel, toNat_lastLsn h.numbered]
  have hcall : s.call .flush = { s with
      log := some { l.drain with persistent := l.next - 1 }
      secured := l.close.length
      reported := l.next - 1 } := by
    rw [Logbook.call, hl]
    simp only [Log.call, added, flush_of_next_ne hne, Call.record?, Option.toList_none,
      List.append_nil]
    rfl
  rw [hcall]
  have hflush := hholds.flush
  rw [flush_of_next_ne hne] at hflush
  refine of_holds rfl hflush rfl h.numbered (Nat.le_of_eq hlast) ?_
  change l.close.length = (encodeAll (s.records.take (l.next - 1).toNat)).length
  rw [hlast, List.take_length, hholds.close_eq]

theorem step (h : s.Sound) (hfew : s.records.length < UInt64.size - 1) (e : LogEvent) :
    (s.step e).Sound ∧ (s.step e).records.length ≤ s.records.length + e.isAppend.toNat := by
  cases e with
  | opens =>
    obtain ⟨hsound, l, m, hfinds, -, hrecords⟩ := h.reopen hfew
    refine ⟨hsound, ?_⟩
    rw [Logbook.step, hrecords]
    exact List.length_take_le' _ _
  | calls c =>
    refine ⟨?_, length_records_call s c⟩
    cases c with
    | append payload => exact h.append hfew payload
    | flush => exact h.flush hfew
  | closes => exact ⟨h.close, Nat.le_refl _⟩
  | crashes more => exact ⟨h.crash more, Nat.le_refl _⟩

theorem run (h : s.Sound) (es : List LogEvent)
    (hfew : s.records.length + es.countP LogEvent.isAppend < UInt64.size - 1) :
    (s.run es).Sound ∧
      (s.run es).records.length ≤ s.records.length + es.countP LogEvent.isAppend := by
  induction es generalizing s with
  | nil => exact ⟨h, Nat.le_refl _⟩
  | cons e es ih =>
    obtain ⟨hstep, hle⟩ := h.step (by omega) e
    have hcount : (e :: es).countP LogEvent.isAppend =
        e.isAppend.toNat + es.countP LogEvent.isAppend := by
      rw [List.countP_cons, Nat.add_comm]
      cases e.isAppend <;> rfl
    rw [hcount] at hfew ⊢
    obtain ⟨hrun, hle'⟩ := ih hstep (by omega)
    exact ⟨hrun, Nat.le_trans hle' (by omega)⟩

theorem start : Sound {} where
  fits := by simp
  numbered := rfl
  reported_le := Nat.le_refl _
  secured_eq := rfl
  holds _ hl := nomatch hl
  left := ⟨[], rfl, List.prefix_rfl, Nat.le_refl _⟩

end Sound

/-- However often the log is lost, it never has a gap. Its records are numbered from 1 on, an append
gets the number behind them, and opening finds the first of them: with none missing that was
reported persistent, and none that is whole. -/
theorem crash_safe (es : List LogEvent) (hfew : es.countP LogEvent.isAppend < UInt64.size - 1) :
    let s := run {} es
    s.records.map (·.lsn.toNat) = List.range' 1 s.records.length ∧
      (∀ l, s.log = some l → l.next.toNat = s.records.length + 1 ∧
        ∀ payload, payload.length < UInt32.size → (l.append payload).1 = .ok l.next ∧
          (s.step (.calls (.append payload))).records = s.records ++ [⟨l.next, payload⟩]) ∧
      ∃ l m, s.Finds l m ∧ (s.step .opens).log = some l ∧
        (s.step .opens).records = s.records.take m := by
  intro s
  obtain ⟨hsound, hle⟩ := Sound.start.run es (by simpa using hfew)
  have hlt : s.records.length < UInt64.size - 1 := by
    refine Nat.lt_of_le_of_lt hle ?_
    simpa using hfew
  refine ⟨hsound.numbered, fun l hl => ⟨hsound.toNat_next hl hlt, fun payload hfits => ?_⟩,
    (hsound.reopen hlt).2⟩
  constructor
  · rw [append_of_fits hfits]
  · rw [step, records_call hl, added_append hfits]

/-- A crash in the middle of the second frame, after the first record was flushed. -/
def tearing : List LogEvent :=
  [.opens, .calls (.append [7]), .calls .flush, .calls (.append [8]), .crashes 16]

theorem crash_safe_tearing : tearing.countP LogEvent.isAppend < UInt64.size - 1 ∧
    (run {} tearing).leaves = .file ((encode ⟨1, [7]⟩ ++ encode ⟨2, [8]⟩).take 33) ∧
    ∃ l, (run {} tearing).Finds l 1 := by
  have hfew : tearing.countP LogEvent.isAppend < UInt64.size - 1 := by decide
  have hleaves : (run {} tearing).leaves =
      .file ((encode ⟨1, [7]⟩ ++ encode ⟨2, [8]⟩).take 33) := rfl
  have hcut : (encode ⟨1, [7]⟩ ++ encode ⟨2, [8]⟩).take 33 =
      encodeAll [⟨1, [7]⟩] ++ (encode ⟨2, [8]⟩).take 16 := by
    rw [encodeAll_cons, encodeAll_nil, List.append_nil, ← List.take_length_add_append,
      length_encode]
    rfl
  obtain ⟨-, -, l, m, hfinds, -, -⟩ := crash_safe tearing hfew
  have htorn : decode? ((encode ⟨2, [8]⟩).take 16) = none := by decide +kernel
  have hdecode : (decodeAll (encodeAll [⟨1, [7]⟩] ++ (encode ⟨2, [8]⟩).take 16)).1 =
      [⟨1, [7]⟩] := by
    rw [decodeAll_encodeAll_append (by decide), decodeAll_of_decode?_eq_none htorn]
    rfl
  have hopen := hfinds.openAt_eq
  rw [hleaves, hcut, openAt_file (by rw [hdecode]; decide), hdecode] at hopen
  obtain ⟨hl, -⟩ := Prod.mk.inj hopen
  have hm := hfinds.persistent_eq
  rw [← Except.ok.inj hl] at hm
  obtain rfl : 1 = m := hm
  exact ⟨hfew, hleaves, l, hfinds⟩

end Logbook

end BufferPool
