import BufferPool.Proofs.Log.Crash

/-! # Numbers of records

A log without crashes counts on from the last record in the file that it was
given, whatever bytes the file had. The numbers that it hands out grow, and so
does the one that it reports as persistent, until there are none left.
-/

namespace BufferPool

def LogEvent.isCrash : LogEvent → Bool
  | crashes _ => true
  | _ => false

namespace Log

open Record

theorem add_one_eq_zero {lsn : Lsn} (h : lsn.toNat = UInt64.size - 1) : lsn + 1 = 0 := by
  rw [← UInt64.toNat_inj, UInt64.toNat_add, h]
  rfl

/-- A file is opened unless its last record has the largest number, after which there is none. -/
theorem openAt_file_eq (bs : Bytes) : (openAt (.file bs)).1 =
    if (lastLsn (decodeAll bs).1).toNat < UInt64.size - 1 then .ok (opened (decodeAll bs).1)
    else .error .lsnOverflow := by
  have hlt : (lastLsn (decodeAll bs).1).toNat < UInt64.size := UInt64.toNat_lt _
  split
  · have hnext : (lastLsn (decodeAll bs).1 + 1).toNat = (lastLsn (decodeAll bs).1).toNat + 1 :=
      toNat_lastLsn_add_one (by omega)
    rw [openAt_file (ne_zero_of_toNat_pos (by omega))]
  · have hzero : lastLsn (decodeAll bs).1 + 1 = 0 := add_one_eq_zero (by omega)
    simp only [openAt, hzero, if_true]

end Log

namespace Logbook

open Log Record

/-- The numbers of the records follow that of the last of the first ones. -/
def Follow (first rs : List Record) : Prop :=
  rs.map (·.lsn.toNat) = List.range' ((lastLsn first).toNat + 1) rs.length

/-- The log has the records `first`, and has counted on from them with the records `rs`. -/
structure Counts (s : Logbook) (first rs : List Record) : Prop where
  left : ∃ bs, s.leaves = .file bs ∧ (decodeAll bs).1 = first ++ rs
  follow : Follow first rs
  reported_le : s.reported ≤ lastLsn (first ++ rs)
  holds : ∀ l, s.log = some l → l.Holds (first ++ rs) ∧ l.persistent = s.reported

variable {s : Logbook} {l : Log} {bs : Bytes} {first rs : List Record} {e : LogEvent}
  {es : List LogEvent}

theorem log_reopen {place : Place} (h : openAt s.leaves = (.ok l, place)) :
    s.reopen.log = some l := by
  rw [reopen, h]

theorem log_call (hl : s.log = some l) (c : Call) : (s.call c).log = some (l.call c).2 := by
  rw [call, hl]

namespace Follow

theorem toNat_lastLsn (h : Follow first rs) :
    (lastLsn (first ++ rs)).toNat = (lastLsn first).toNat + rs.length :=
  toNat_lastLsn_append first h

theorem toNat_next (h : Follow first rs) (hl : l.Holds (first ++ rs))
    (hroom : (lastLsn first).toNat + rs.length < UInt64.size - 1) :
    l.next.toNat = (lastLsn first).toNat + rs.length + 1 := by
  have hlast := h.toNat_lastLsn
  rw [hl.next_eq, toNat_lastLsn_add_one (by omega), hlast]

theorem next_ne_zero (h : Follow first rs) (hl : l.Holds (first ++ rs))
    (hroom : (lastLsn first).toNat + rs.length < UInt64.size - 1) : l.next ≠ 0 := by
  have hnext := h.toNat_next hl hroom
  exact ne_zero_of_toNat_pos (by omega)

theorem append (h : Follow first rs) (hl : l.Holds (first ++ rs))
    (hroom : (lastLsn first).toNat + rs.length < UInt64.size - 1) (payload : Bytes) :
    Follow first (rs ++ l.added (.append payload)) := by
  by_cases hfits : payload.length < UInt32.size
  · rw [added_append hfits, Follow, List.map_append, h, List.length_append, List.length_singleton,
      List.range'_1_concat, Nat.add_right_comm, ← h.toNat_next hl hroom]
    rfl
  · rwa [added_append_of_not_fits hfits, List.append_nil]

theorem mem_lt (h : Follow first rs) (hl : l.Holds (first ++ rs))
    (hroom : (lastLsn first).toNat + rs.length < UInt64.size - 1) {r : Record} (hr : r ∈ rs) :
    lastLsn first < r.lsn ∧ r.lsn < l.next := by
  have hnext := h.toNat_next hl hroom
  have hmem : r.lsn.toNat ∈ List.range' ((lastLsn first).toNat + 1) rs.length := by
    rw [← h]
    exact List.mem_map_of_mem hr
  rw [List.mem_range'_1] at hmem
  rw [UInt64.lt_iff_toNat_lt, UInt64.lt_iff_toNat_lt]
  omega

end Follow

namespace Counts

theorem start (bs : Bytes) : Counts { place := .file bs } (decodeAll bs).1 [] where
  left := ⟨bs, rfl, (List.append_nil _).symm⟩
  follow := rfl
  reported_le := UInt64.zero_le
  holds _ hl := nomatch hl

theorem of_holds (hl : s.log = some l) (hholds : l.Holds (first ++ rs))
    (hfollow : Follow first rs) (hreported : s.reported ≤ lastLsn (first ++ rs))
    (hpersistent : l.persistent = s.reported) : s.Counts first rs where
  left := by
    refine ⟨l.close, ?_, ?_⟩
    · rw [leaves, hl]
    · rw [hholds.decodeAll_close]
  follow := hfollow
  reported_le := hreported
  holds l' hl' := by
    obtain rfl := Option.some.inj (hl.symm.trans hl')
    exact ⟨hholds, hpersistent⟩

theorem openAt_leaves (h : s.Counts first rs)
    (hroom : (lastLsn first).toNat + rs.length < UInt64.size - 1) :
    openAt s.leaves = (.ok (opened (first ++ rs)), .file (opened (first ++ rs)).file) ∧
      ∀ r ∈ first ++ rs, r.Fits := by
  obtain ⟨bs, hleaves, hrs⟩ := h.left
  have hintact : IntactPrefix bs (decodeAll bs).1 (decodeAll bs).2 := decodeAll_eq_iff.mp rfl
  have hlast := h.follow.toNat_lastLsn
  have hnext : (lastLsn (decodeAll bs).1 + 1).toNat = (lastLsn first).toNat + rs.length + 1 := by
    rw [hrs, toNat_lastLsn_add_one (by omega), hlast]
  rw [hleaves, openAt_file (ne_zero_of_toNat_pos (by omega)), hintact.take_eq, ← hrs]
  exact ⟨rfl, hintact.fits⟩

theorem reopen (h : s.Counts first rs)
    (hroom : (lastLsn first).toNat + rs.length < UInt64.size - 1) :
    s.reopen.Counts first rs ∧ s.reported ≤ s.reopen.reported := by
  obtain ⟨hopen, hfits⟩ := h.openAt_leaves hroom
  rw [Logbook.reopen, hopen]
  exact ⟨of_holds rfl (opened_holds hfits) h.follow (UInt64.le_refl _) rfl, h.reported_le⟩

theorem close (h : s.Counts first rs) : s.close.Counts first rs :=
  { h with holds := fun _ hl => nomatch hl }

theorem append (h : s.Counts first rs)
    (hroom : (lastLsn first).toNat + rs.length < UInt64.size - 1) (hl : s.log = some l)
    (payload : Bytes) : (s.call (.append payload)).Counts first (rs ++ l.added (.append payload)) ∧
      s.reported ≤ (s.call (.append payload)).reported := by
  obtain ⟨hholds, hpersistent⟩ := h.holds l hl
  have hreported : (l.append payload).2.persistent = s.reported :=
    (persistent_append l payload).trans hpersistent
  have hfollow := h.follow.append hholds hroom payload
  have hgrown : lastLsn (first ++ rs) ≤ lastLsn (first ++ (rs ++ l.added (.append payload))) := by
    rw [UInt64.le_iff_toNat_le, h.follow.toNat_lastLsn, hfollow.toNat_lastLsn, List.length_append]
    omega
  have hholds' := hholds.append payload
  rw [List.append_assoc] at hholds'
  rw [Logbook.call, hl]
  constructor
  · apply of_holds rfl hholds' hfollow _ rfl
    change (l.append payload).2.persistent ≤ _
    rw [hreported]
    exact UInt64.le_trans h.reported_le hgrown
  · exact UInt64.le_of_eq hreported.symm

theorem flush (h : s.Counts first rs)
    (hroom : (lastLsn first).toNat + rs.length < UInt64.size - 1) (hl : s.log = some l) :
    (s.call .flush).Counts first rs ∧ s.reported ≤ (s.call .flush).reported := by
  obtain ⟨hholds, -⟩ := h.holds l hl
  have hflush := hholds.flush
  have hlast : l.next - 1 = lastLsn (first ++ rs) := by
    rw [hholds.next_eq, UInt64.add_sub_cancel]
  rw [flush_of_next_ne (h.follow.next_ne_zero hholds hroom)] at hflush
  rw [Logbook.call, hl]
  simp only [Log.call, flush_of_next_ne (h.follow.next_ne_zero hholds hroom)]
  constructor
  · exact of_holds rfl hflush h.follow (UInt64.le_of_eq hlast) rfl
  · exact hlast ▸ h.reported_le

theorem step (h : s.Counts first rs)
    (hroom : (lastLsn first).toNat + rs.length < UInt64.size - 1) (he : e.isCrash = false) :
    ∃ more, (s.step e).Counts first (rs ++ more) ∧ more.length ≤ e.isAppend.toNat ∧
      s.reported ≤ (s.step e).reported := by
  have still : s.Counts first (rs ++ []) := by rwa [List.append_nil]
  cases e with
  | opens =>
    obtain ⟨hcounts, hle⟩ := h.reopen hroom
    exact ⟨[], by rwa [List.append_nil], Nat.le_refl 0, hle⟩
  | closes => exact ⟨[], still.close, Nat.le_refl 0, UInt64.le_refl _⟩
  | crashes => cases he
  | calls c =>
    rcases hl : s.log with _ | l
    · refine ⟨[], ?_, Nat.zero_le _, ?_⟩
      · rwa [Logbook.step, call, hl]
      · rw [Logbook.step, call, hl]
        exact UInt64.le_refl _
    cases c with
    | append payload =>
      obtain ⟨hcounts, hle⟩ := h.append hroom hl payload
      refine ⟨_, hcounts, ?_, hle⟩
      by_cases hfits : payload.length < UInt32.size
      · rw [added_append hfits]
        exact Nat.le_refl 1
      · rw [added_append_of_not_fits hfits]
        exact Nat.zero_le _
    | flush =>
      obtain ⟨hcounts, hle⟩ := h.flush hroom hl
      exact ⟨[], by rwa [List.append_nil], Nat.le_refl 0, hle⟩

theorem run (h : s.Counts first rs) (hes : ∀ e ∈ es, e.isCrash = false)
    (hroom : (lastLsn first).toNat + rs.length + es.countP LogEvent.isAppend < UInt64.size - 1) :
    ∃ more, (s.run es).Counts first (rs ++ more) ∧
      more.length ≤ es.countP LogEvent.isAppend ∧ s.reported ≤ (s.run es).reported := by
  induction es generalizing s rs with
  | nil => exact ⟨[], by rwa [List.append_nil], Nat.le_refl 0, UInt64.le_refl _⟩
  | cons e es ih =>
    obtain ⟨he, hes⟩ := List.forall_mem_cons.mp hes
    have hcount : (e :: es).countP LogEvent.isAppend =
        e.isAppend.toNat + es.countP LogEvent.isAppend := by
      rw [List.countP_cons, Nat.add_comm]
      cases e.isAppend <;> rfl
    rw [hcount] at hroom ⊢
    obtain ⟨more, hstep, hmore, hle⟩ := h.step (by omega) he
    obtain ⟨more', hrun, hmore', hle'⟩ := ih hstep hes (by rw [List.length_append]; omega)
    refine ⟨more ++ more', ?_, ?_, UInt64.le_trans hle hle'⟩
    · rwa [← List.append_assoc]
    · rw [List.length_append]
      omega

end Counts

/-- As long as there is a number for one more record, the log can be opened and flushed, and takes
back nothing that it has reported. It numbers a record higher than the last one that was in the file
at first, and higher than all that were added: so higher than every record in the log, unless one of
the first was numbered higher than the last of them. -/
theorem numbers_grow (bs : Bytes) (es : List LogEvent) (hes : ∀ e ∈ es, e.isCrash = false)
    (hfew : (lastLsn (decodeAll bs).1).toNat + es.countP LogEvent.isAppend < UInt64.size - 1) :
    let first := (decodeAll bs).1
    let s := run { place := .file bs } es
    (∃ l, openAt s.leaves = (.ok l, .file l.file)) ∧
      (∀ past, past <+: es → (run { place := .file bs } past).reported ≤ s.reported) ∧
      ∀ l, s.log = some l → l.persistent = s.reported ∧ l.flush.1.isOk ∧ l.next ≠ Lsn.invalid ∧
        (∀ payload, (l.append payload).1 =
          if payload.length < UInt32.size then .ok l.next else .error .recordTooLarge) ∧
        ∃ added, (decodeAll l.close).1 = first ++ added ∧ Follow first added ∧
          lastLsn first < l.next ∧ (∀ r ∈ added, r.lsn < l.next) ∧
          ((∀ r ∈ first, r.lsn ≤ lastLsn first) → ∀ r ∈ first ++ added, r.lsn < l.next) := by
  intro first s
  have hstart : Counts { place := .file bs } first [] := .start bs
  change (lastLsn first).toNat + _ < _ at hfew
  obtain ⟨added, hs, hadded, -⟩ := hstart.run hes hfew
  rw [List.nil_append] at hs
  change s.Counts first added at hs
  have hroom : (lastLsn first).toNat + added.length < UInt64.size - 1 := by omega
  refine ⟨⟨_, (hs.openAt_leaves hroom).1⟩, ?_, fun l hl => ?_⟩
  · rintro past ⟨rest, rfl⟩
    obtain ⟨hpast, hrest⟩ := List.forall_mem_append.mp hes
    rw [List.countP_append] at hfew
    obtain ⟨more, hmore, hlength, -⟩ := hstart.run hpast (by
      rw [List.length_nil]
      omega)
    obtain ⟨-, -, -, hle⟩ := hmore.run hrest (by
      rw [List.nil_append]
      omega)
    simpa only [s, run, List.foldl_append] using hle
  · obtain ⟨hholds, hpersistent⟩ := hs.holds l hl
    have hne := hs.follow.next_ne_zero hholds hroom
    have hlast : lastLsn first < l.next := by
      have hnext := hs.follow.toNat_next hholds hroom
      rw [UInt64.lt_iff_toNat_lt]
      omega
    have hlower : ∀ r ∈ added, r.lsn < l.next := fun r hr => (hs.follow.mem_lt hholds hroom hr).2
    refine ⟨hpersistent, ?_, hne, fun payload => ?_, added, ?_, hs.follow, hlast, hlower, ?_⟩
    · rw [flush_of_next_ne hne]
      rfl
    · split
      · rw [append_of_fits ‹_›]
      · rw [append_of_not_fits ‹_›]
    · rw [hholds.decodeAll_close]
    · intro hfirst
      exact List.forall_mem_append.mpr
        ⟨fun r hr => UInt64.lt_of_le_of_lt (hfirst r hr) hlast, hlower⟩

def unordered : List Record := [⟨9, []⟩, ⟨3, []⟩]

theorem openAt_unordered : openAt (.file (encodeAll unordered)) =
    (.ok (opened unordered), .file (encodeAll unordered)) := by
  have hholds : (opened unordered).Holds unordered := opened_holds (by decide)
  have hopen := hholds.openAt_close (by decide)
  rwa [hholds.close_eq] at hopen

theorem numbers_grow_unordered :
    (∀ e ∈ [LogEvent.opens, .calls (.append [7])], e.isCrash = false) ∧
      (lastLsn (decodeAll (encodeAll unordered)).1).toNat +
        [LogEvent.opens, .calls (.append [7])].countP LogEvent.isAppend < UInt64.size - 1 ∧
      (∃ l, openAt (run { place := .file (encodeAll unordered) }
        [.opens, .calls (.append [7])]).leaves = (.ok l, .file l.file)) ∧
      ∃ l, (run { place := .file (encodeAll unordered) } [.opens, .calls (.append [7])]).log =
          some l ∧ l.flush.1.isOk ∧ (l.append [8]).1 = .ok 5 ∧
        (decodeAll l.close).1 = unordered ++ [⟨4, [7]⟩] ∧ lastLsn unordered < 5 := by
  have hdecode : (decodeAll (encodeAll unordered)).1 = unordered :=
    congrArg Prod.fst (decodeAll_eq_iff.mpr (intactPrefix_encodeAll (by decide)))
  have hes : ∀ e ∈ [LogEvent.opens, .calls (.append [7])], e.isCrash = false := by decide
  have hfew : (lastLsn (decodeAll (encodeAll unordered)).1).toNat +
      [LogEvent.opens, .calls (.append [7])].countP LogEvent.isAppend < UInt64.size - 1 := by
    rw [hdecode]
    decide
  have hlog : (run { place := .file (encodeAll unordered) } [.opens, .calls (.append [7])]).log =
      some ((opened unordered).append [7]).2 := by
    have hopened : (reopen { place := .file (encodeAll unordered) }).log =
        some (opened unordered) := log_reopen openAt_unordered
    exact log_call hopened _
  obtain ⟨hopen, -, hall⟩ := numbers_grow _ _ hes hfew
  obtain ⟨-, hflush, -, happend, -, -, -, hlast, -⟩ := hall _ hlog
  rw [hdecode] at hlast
  have hnext : ((opened unordered).append [7]).2.next = 5 := by
    rw [append_of_fits (by decide)]
    rfl
  rw [hnext] at happend hlast
  refine ⟨hes, hfew, hopen, _, hlog, hflush, ?_, ?_, hlast⟩
  · rw [happend, if_pos (by decide)]
  · have hholds : (opened unordered).Holds unordered := opened_holds (by decide)
    have hholds' := hholds.append [7]
    rw [added_append (by decide)] at hholds'
    rw [hholds'.decodeAll_close]
    rfl

/-- The log goes on with 4 behind the numbers 9 and 3. -/
theorem not_highest_unordered : ∃ l lsn r, openAt (.file (encodeAll unordered)) =
      (.ok l, .file (encodeAll unordered)) ∧ (l.append []).1 = .ok lsn ∧
    r ∈ (decodeAll l.close).1 ∧ ¬r.lsn < lsn := by
  have hholds : (opened unordered).Holds unordered := opened_holds (by decide)
  refine ⟨opened unordered, 4, ⟨9, []⟩, openAt_unordered, ?_, ?_, by decide⟩
  · rw [append_of_fits (by decide)]
    rfl
  · rw [hholds.decodeAll_close]
    decide

/-- The bound is needed: once a record has the last number, the log can neither be flushed nor
opened again. -/
theorem numbers_used_up (bs : Bytes) (es : List LogEvent) (hes : ∀ e ∈ es, e.isCrash = false)
    (hfew : (lastLsn (decodeAll bs).1).toNat + es.countP LogEvent.isAppend < UInt64.size - 1)
    (hl : (run { place := .file bs } es).log = some l) (hnext : l.next.toNat = UInt64.size - 1)
    {payload : Bytes} (hfits : payload.length < UInt32.size) :
    let s := run { place := .file bs } (es ++ [.calls (.append payload)])
    (openAt s.leaves).1 = .error .lsnOverflow ∧
      ∃ l', s.log = some l' ∧ l'.flush.1 = .error .lsnUnderflow := by
  intro s
  have hs : s = (run { place := .file bs } es).call (.append payload) := by
    simp only [s, run, List.foldl_append]
    rfl
  obtain ⟨added, hcounts, hadded, -⟩ := (Counts.start bs).run hes hfew
  rw [List.nil_append] at hcounts
  have hroom : (lastLsn (decodeAll bs).1).toNat + added.length < UInt64.size - 1 := by omega
  have hnext' := hcounts.follow.toNat_next (hcounts.holds l hl).1 hroom
  obtain ⟨hcounts', -⟩ := hcounts.append hroom hl payload
  rw [added_append hfits, ← hs] at hcounts'
  have hlast := hcounts'.follow.toNat_lastLsn
  rw [List.length_append, List.length_singleton] at hlast
  constructor
  · obtain ⟨bs', hleaves, hdecode⟩ := hcounts'.left
    rw [hleaves, openAt_file_eq, hdecode, if_neg (by omega)]
  · have hlog : s.log = some (l.append payload).2 := hs ▸ log_call hl _
    have hzero : (l.append payload).2.next = 0 := by
      rw [(hcounts'.holds _ hlog).1.next_eq]
      exact add_one_eq_zero (by omega)
    exact ⟨_, hlog, by rw [flush_of_next_eq hzero]⟩

end Logbook

end BufferPool
