import BufferPool.Proofs.Log.Frames

/-! # Logs in use

An open log holds records: their frames are in its file and its buffer, and the
next number follows that of the last record. Whatever bytes a file has, it opens
as a log that holds its intact records, goes on after them, and opens again with
all that was added.
-/

namespace BufferPool

namespace Log

open Record

inductive Call where
  | append (payload : Bytes)
  | flush
  deriving DecidableEq

def Call.payload? : Call → Option Bytes
  | append payload => some payload
  | flush => none

def Call.record? : Call → Except LogError Lsn → Option Record
  | append payload, .ok lsn => some ⟨lsn, payload⟩
  | _, _ => none

def payloads (cs : List Call) : List Bytes := cs.filterMap Call.payload?

def call (l : Log) : Call → Except LogError Lsn × Log
  | .append payload => l.append payload
  | .flush => l.flush

def run (l : Log) (cs : List Call) : Log := cs.foldl (fun l c => (l.call c).2) l

def answers (l : Log) : List Call → List (Except LogError Lsn)
  | [] => []
  | c :: cs => (l.call c).1 :: (l.call c).2.answers cs

def added (l : Log) (c : Call) : List Record := (c.record? (l.call c).1).toList

/-- The records that the calls add, with the numbers that they were answered. -/
def appended (l : Log) : List Call → List Record
  | [] => []
  | c :: cs => l.added c ++ (l.call c).2.appended cs

/-- The records are in the file and in the buffer, and the next number follows the last. -/
structure Holds (l : Log) (rs : List Record) : Prop where
  fits : ∀ r ∈ rs, r.Fits
  close_eq : l.close = encodeAll rs
  next_eq : l.next = lastLsn rs + 1

def opened (rs : List Record) : Log where
  file := encodeAll rs
  next := lastLsn rs + 1
  persistent := lastLsn rs

variable {l : Log} {rs : List Record} {c : Call} {cs : List Call} {payload : Bytes}

@[simp] theorem lastLsn_append_singleton (rs : List Record) (r : Record) :
    lastLsn (rs ++ [r]) = r.lsn := by
  simp [lastLsn]

theorem append_of_fits (h : payload.length < UInt32.size) : l.append payload =
    (.ok l.next, { l.emit (encode ⟨l.next, payload⟩) with next := l.next + 1 }) := if_pos h

theorem append_of_not_fits (h : ¬payload.length < UInt32.size) :
    l.append payload = (.error .recordTooLarge, l) := if_neg h

theorem added_append (h : payload.length < UInt32.size) :
    l.added (.append payload) = [⟨l.next, payload⟩] := by
  rw [added, call, append_of_fits h]
  rfl

theorem added_append_of_not_fits (h : ¬payload.length < UInt32.size) :
    l.added (.append payload) = [] := by
  rw [added, call, append_of_not_fits h]
  rfl

theorem persistent_emit (l : Log) (bs : Bytes) : (l.emit bs).persistent = l.persistent := by
  simp only [emit]
  split
  · rfl
  · split <;> split <;> rfl

theorem persistent_append (l : Log) (payload : Bytes) :
    (l.append payload).2.persistent = l.persistent := by
  by_cases h : payload.length < UInt32.size
  · rw [append_of_fits h]
    exact persistent_emit l _
  · rw [append_of_not_fits h]

theorem flush_of_next_ne (h : l.next ≠ 0) :
    l.flush = (.ok (l.next - 1), { l.drain with persistent := l.next - 1 }) := if_neg h

theorem flush_of_next_eq (h : l.next = 0) : l.flush = (.error .lsnUnderflow, l.drain) := if_pos h

theorem close_drain (l : Log) : l.drain.close = l.close := List.append_nil _

theorem close_flush (l : Log) : l.flush.2.close = l.close := by
  by_cases h : l.next = 0
  · rw [flush_of_next_eq h, close_drain]
  · rw [flush_of_next_ne h]
    exact close_drain l

theorem next_flush (l : Log) : l.flush.2.next = l.next := by
  by_cases h : l.next = 0
  · rw [flush_of_next_eq h]
    rfl
  · rw [flush_of_next_ne h]
    rfl

namespace Holds

theorem append (h : l.Holds rs) (payload : Bytes) :
    (l.append payload).2.Holds (rs ++ l.added (.append payload)) := by
  by_cases hfits : payload.length < UInt32.size
  · rw [added_append hfits]
    constructor
    · exact List.forall_mem_append.mpr ⟨h.fits, List.forall_mem_singleton.mpr hfits⟩
    · rw [close_append l hfits, h.close_eq, encodeAll_append, encodeAll_cons, encodeAll_nil,
        List.append_nil]
    · rw [append_of_fits hfits, lastLsn_append_singleton]
  · rw [added_append_of_not_fits hfits, List.append_nil, append_of_not_fits hfits]
    exact h

theorem flush (h : l.Holds rs) : l.flush.2.Holds rs where
  fits := h.fits
  close_eq := by rw [close_flush, h.close_eq]
  next_eq := by rw [next_flush, h.next_eq]

theorem call (h : l.Holds rs) (c : Call) : (l.call c).2.Holds (rs ++ l.added c) := by
  cases c with
  | append payload => exact h.append payload
  | flush =>
    rw [show l.added .flush = [] from rfl, List.append_nil]
    exact h.flush

theorem run (h : l.Holds rs) (cs : List Call) : (l.run cs).Holds (rs ++ l.appended cs) := by
  induction cs generalizing l rs with
  | nil =>
    rw [appended, List.append_nil]
    exact h
  | cons c cs ih =>
    rw [appended, ← List.append_assoc]
    exact ih (h.call c)

end Holds

theorem ne_zero_of_toNat_pos {lsn : Lsn} (h : 0 < lsn.toNat) : lsn ≠ 0 := by
  rintro rfl
  exact absurd h (Nat.lt_irrefl 0)

/-- The payloads fit their headers, and the numbers suffice for them. -/
structure Room (l : Log) (cs : List Call) : Prop where
  fits : ∀ payload ∈ payloads cs, payload.length < UInt32.size
  next_pos : 0 < l.next.toNat
  next_lt : l.next.toNat + (payloads cs).length < UInt64.size

theorem payloads_cons (c : Call) (cs : List Call) :
    payloads (c :: cs) = c.payload?.toList ++ payloads cs := by
  cases c <;> rfl

namespace Room

theorem call (h : l.Room (c :: cs)) :
    (l.call c).1.isOk ∧ l.added c = c.payload?.toList.map (⟨l.next, ·⟩) ∧
      (l.call c).2.next.toNat = l.next.toNat + c.payload?.toList.length := by
  have hlt := h.next_lt
  rw [payloads_cons, List.length_append] at hlt
  cases c with
  | append payload =>
    have hfits : payload.length < UInt32.size := h.fits payload List.mem_cons_self
    rw [added_append hfits, Log.call, append_of_fits hfits]
    have hsucc : l.next.toNat + 1 < UInt64.size := by
      simp only [Call.payload?, Option.toList_some, List.length_singleton] at hlt
      omega
    exact ⟨rfl, rfl, (UInt64.toNat_add _ _).trans (Nat.mod_eq_of_lt hsucc)⟩
  | flush =>
    have hne : l.next ≠ 0 := ne_zero_of_toNat_pos h.next_pos
    refine ⟨?_, rfl, congrArg UInt64.toNat (next_flush l)⟩
    rw [Log.call, flush_of_next_ne hne]
    rfl

theorem tail (h : l.Room (c :: cs)) : (l.call c).2.Room cs := by
  obtain ⟨-, -, hnext⟩ := h.call
  obtain ⟨hfits, hpos, hlt⟩ := h
  rw [payloads_cons] at hfits hlt
  rw [List.length_append] at hlt
  constructor
  · exact (List.forall_mem_append.mp hfits).2
  · omega
  · omega

theorem next_run (h : l.Room cs) :
    (l.run cs).next.toNat = l.next.toNat + (payloads cs).length := by
  induction cs generalizing l with
  | nil => rfl
  | cons c cs ih =>
    obtain ⟨-, -, hnext⟩ := h.call
    rw [payloads_cons, List.length_append, ← Nat.add_assoc, ← hnext]
    exact ih h.tail

theorem isOk_of_mem_answers (h : l.Room cs) : ∀ answer ∈ l.answers cs, answer.isOk := by
  induction cs generalizing l with
  | nil => simp [answers]
  | cons c cs ih => exact List.forall_mem_cons.mpr ⟨h.call.1, ih h.tail⟩

theorem map_appended (h : l.Room cs) : (l.appended cs).map (fun r => (r.lsn.toNat, r.payload)) =
    (List.range' l.next.toNat (payloads cs).length).zip (payloads cs) := by
  induction cs generalizing l with
  | nil => rfl
  | cons c cs ih =>
    obtain ⟨-, hadded, hnext⟩ := h.call
    rw [appended, List.map_append, ih h.tail, hadded, hnext, payloads_cons]
    cases c with
    | append payload => rfl
    | flush => rfl

theorem map_lsn_appended (h : l.Room cs) :
    (l.appended cs).map (·.lsn.toNat) = List.range' l.next.toNat (payloads cs).length := by
  have hfst := congrArg (List.map Prod.fst) h.map_appended
  rwa [List.map_map, List.map_fst_zip (Nat.le_of_eq List.length_range')] at hfst

theorem map_payload_appended (h : l.Room cs) :
    (l.appended cs).map Record.payload = payloads cs := by
  have hsnd := congrArg (List.map Prod.snd) h.map_appended
  rwa [List.map_map, List.map_snd_zip (Nat.le_of_eq List.length_range'.symm)] at hsnd

end Room

theorem opened_holds (h : ∀ r ∈ rs, r.Fits) : (opened rs).Holds rs where
  fits := h
  close_eq := List.append_nil _
  next_eq := rfl

theorem openAt_file {bs : Bytes} (h : lastLsn (decodeAll bs).1 + 1 ≠ 0) :
    openAt (.file bs) =
      (.ok (opened (decodeAll bs).1), .file (bs.take (decodeAll bs).2)) := by
  have htake := (decodeAll_eq_iff.mp (rfl : decodeAll bs = (_, _))).take_eq
  simp only [openAt, if_neg h, opened, htake]

theorem Holds.decodeAll_close (h : l.Holds rs) : decodeAll l.close = (rs, l.close.length) := by
  rw [h.close_eq]
  exact decodeAll_eq_iff.mpr (intactPrefix_encodeAll h.fits)

theorem Holds.recordsAt_close (h : l.Holds rs) : recordsAt (.file l.close) = .ok rs := by
  change Except.ok (decodeAll l.close).1 = _
  rw [h.decodeAll_close]

theorem Holds.openAt_close (h : l.Holds rs) (hne : l.next ≠ 0) :
    openAt (.file l.close) = (.ok (opened rs), .file l.close) := by
  have hdecode := h.decodeAll_close
  rw [openAt_file, hdecode, List.take_length]
  rwa [hdecode, ← h.next_eq]

theorem toNat_lastLsn_add_one (h : (lastLsn rs).toNat + 1 < UInt64.size) :
    (lastLsn rs + 1).toNat = (lastLsn rs).toNat + 1 :=
  (UInt64.toNat_add _ _).trans (Nat.mod_eq_of_lt h)

/-- A file of any bytes opens as its intact prefix, and the numbers go on after its last record.
With the records that are then appended it is read back, and opens as it is. -/
theorem continues (bs : Bytes) (cs : List Call)
    (hfits : ∀ payload ∈ payloads cs, payload.length < UInt32.size)
    (hroom : (lastLsn (decodeAll bs).1).toNat + (payloads cs).length < UInt64.size - 1) :
    let rs := (decodeAll bs).1
    let n := (decodeAll bs).2
    IntactPrefix bs rs n ∧ ∃ l, openAt (.file bs) = (.ok l, .file (bs.take n)) ∧
      l.file = bs.take n ∧ l.persistent = lastLsn rs ∧
      (∀ answer ∈ l.answers cs, answer.isOk) ∧
      (l.appended cs).map (·.lsn.toNat) =
        List.range' ((lastLsn rs).toNat + 1) (payloads cs).length ∧
      (l.appended cs).map Record.payload = payloads cs ∧
      recordsAt (.file (l.run cs).close) = .ok (rs ++ l.appended cs) ∧
      ∃ l', openAt (.file (l.run cs).close) = (.ok l', .file (l.run cs).close) ∧
        l'.file = (l.run cs).close ∧
        l'.next.toNat = (lastLsn rs).toNat + (payloads cs).length + 1 := by
  intro rs n
  change (lastLsn rs).toNat + _ < _ at hroom
  have hintact : IntactPrefix bs rs n := decodeAll_eq_iff.mp rfl
  have hnext : (opened rs).next.toNat = (lastLsn rs).toNat + 1 := toNat_lastLsn_add_one (by omega)
  have hspace : (opened rs).Room cs := ⟨hfits, by omega, by omega⟩
  have hnext' := hspace.next_run
  have hopen : openAt (.file bs) = (.ok (opened rs), .file (bs.take n)) :=
    openAt_file (ne_zero_of_toNat_pos hspace.next_pos)
  have hrun := (opened_holds hintact.fits).run cs
  refine ⟨hintact, opened rs, hopen, hintact.take_eq.symm, rfl, hspace.isOk_of_mem_answers, ?_,
    hspace.map_payload_appended, hrun.recordsAt_close, _,
    hrun.openAt_close (ne_zero_of_toNat_pos (by omega)), hrun.close_eq.symm, ?_⟩
  · rw [hspace.map_lsn_appended, hnext]
  · rw [opened, ← hrun.next_eq, hnext', hnext]
    omega

theorem continues_torn :
    let bs := encode ⟨5, [1]⟩ ++ [0, 0, 0, 9, 0, 0]
    let cs := [.append [7], .flush, .append []]
    (∀ payload ∈ payloads cs, payload.length < UInt32.size) ∧
      (lastLsn (decodeAll bs).1).toNat + (payloads cs).length < UInt64.size - 1 ∧
      ∃ l, openAt (.file bs) = (.ok l, .file (encode ⟨5, [1]⟩)) ∧
        (l.appended cs).map (·.lsn.toNat) = [6, 7] ∧
        recordsAt (.file (l.run cs).close) = .ok (⟨5, [1]⟩ :: l.appended cs) := by
  intro bs cs
  have htorn : decode? [0, 0, 0, 9, 0, 0] = none := by decide
  have hdecode : decodeAll bs = ([⟨5, [1]⟩], 17) := by
    change decodeAll (encodeAll [⟨5, [1]⟩] ++ [0, 0, 0, 9, 0, 0]) = _
    rw [decodeAll_encodeAll_append (by decide), decodeAll_of_decode?_eq_none htorn]
    rfl
  have hfits : ∀ payload ∈ payloads cs, payload.length < UInt32.size := by decide
  have hroom : (lastLsn (decodeAll bs).1).toNat + (payloads cs).length < UInt64.size - 1 := by
    rw [hdecode]
    decide
  obtain ⟨-, l, hopen, -, -, -, hlsn, -, hrecords, -⟩ := continues bs cs hfits hroom
  rw [hdecode] at hopen hlsn hrecords
  exact ⟨hfits, hroom, l, hopen, hlsn, hrecords⟩

end Log

end BufferPool
