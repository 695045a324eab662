import BufferPool.Log.Basic

/-! # Intact prefixes

Decoding finds the one prefix of a byte string that consists of intact frames
and is followed by none, and with it the records of these frames. Appending to
a log adds the frame of the new record to the bytes it leaves.
-/

namespace BufferPool

namespace Record

def Fits (r : Record) : Prop := r.payload.length < UInt32.size

instance (r : Record) : Decidable r.Fits := inferInstanceAs (Decidable (_ < _))

def encodeAll (rs : List Record) : Bytes := rs.flatMap encode

/-- The first `n` bytes are the frames of the records `rs`, and no complete frame follows them. -/
structure IntactPrefix (bs : Bytes) (rs : List Record) (n : Nat) : Prop where
  le_length : n ≤ bs.length
  fits : ∀ r ∈ rs, r.Fits
  take_eq : bs.take n = encodeAll rs
  maximal : ∀ r : Record, r.Fits → ¬r.encode <+: bs.drop n

variable {bs rest : Bytes} {r : Record} {rs : List Record} {n : Nat}

@[simp] theorem encodeAll_nil : encodeAll [] = [] := rfl

@[simp] theorem encodeAll_cons : encodeAll (r :: rs) = r.encode ++ encodeAll rs :=
  List.flatMap_cons

@[simp] theorem encodeAll_append (rs rs' : List Record) :
    encodeAll (rs ++ rs') = encodeAll rs ++ encodeAll rs' :=
  List.flatMap_append

theorem encode_ne_nil (r : Record) : r.encode ≠ [] := by
  intro h
  have hlength := length_encode r
  rw [h, List.length_nil, encodedLength, headerSize] at hlength
  omega

theorem decode?_eq_some_iff : decode? bs = some (r, rest) ↔ bs = r.encode ++ rest ∧ r.Fits := by
  constructor
  · exact eq_encode_append_of_decode?
  · rintro ⟨rfl, h⟩
    exact decode?_encode_append r h rest

theorem decode?_eq_none_iff : decode? bs = none ↔ ∀ r : Record, r.Fits → ¬r.encode <+: bs := by
  constructor
  · rintro h r hr ⟨rest, rfl⟩
    rw [decode?_encode_append r hr] at h
    cases h
  · intro h
    rcases hd : decode? bs with _ | ⟨r, rest⟩
    · rfl
    · obtain ⟨rfl, hr⟩ := decode?_eq_some_iff.mp hd
      exact absurd (List.prefix_append r.encode rest) (h r hr)

namespace IntactPrefix

theorem nil_iff : IntactPrefix bs [] n ↔ n = 0 ∧ decode? bs = none := by
  constructor
  · intro h
    have hn : n = 0 := by
      have hlength := congrArg List.length h.take_eq
      rw [List.length_take, encodeAll_nil, List.length_nil] at hlength
      have := h.le_length
      omega
    subst hn
    exact ⟨rfl, decode?_eq_none_iff.mpr h.maximal⟩
  · rintro ⟨rfl, h⟩
    exact ⟨Nat.zero_le _, by simp, rfl, decode?_eq_none_iff.mp h⟩

theorem cons_iff : IntactPrefix bs (r :: rs) n ↔
    ∃ rest m, decode? bs = some (r, rest) ∧ IntactPrefix rest rs m ∧ n = r.encodedLength + m := by
  constructor
  · intro h
    have htake := h.take_eq
    rw [encodeAll_cons] at htake
    have hlength := congrArg List.length htake
    rw [List.length_take, List.length_append, length_encode] at hlength
    have hn := h.le_length
    have hbs : bs = r.encode ++ (encodeAll rs ++ bs.drop n) := by
      rw [← List.append_assoc, ← htake, List.take_append_drop]
    have hr : r.Fits := h.fits r List.mem_cons_self
    refine ⟨encodeAll rs ++ bs.drop n, (encodeAll rs).length, ?_, ⟨?_, ?_, ?_, ?_⟩, by omega⟩
    · exact decode?_eq_some_iff.mpr ⟨hbs, hr⟩
    · rw [List.length_append]
      exact Nat.le_add_right _ _
    · exact fun x hx => h.fits x (List.mem_cons_of_mem r hx)
    · exact List.take_left
    · rw [List.drop_left]
      exact h.maximal
  · rintro ⟨rest, m, hd, h, rfl⟩
    obtain ⟨rfl, hr⟩ := decode?_eq_some_iff.mp hd
    have hdrop : (r.encode ++ rest).drop (r.encodedLength + m) = rest.drop m := by
      rw [← length_encode, List.drop_length_add_append]
    constructor
    · rw [List.length_append, length_encode]
      exact Nat.add_le_add_left h.le_length _
    · exact List.forall_mem_cons.mpr ⟨hr, h.fits⟩
    · rw [← length_encode, List.take_length_add_append, h.take_eq, encodeAll_cons]
    · rw [hdrop]
      exact h.maximal

end IntactPrefix

theorem decodeAll_eq_iff : decodeAll bs = (rs, n) ↔ IntactPrefix bs rs n := by
  induction rs generalizing bs n with
  | nil =>
    rw [IntactPrefix.nil_iff]
    rcases hd : decode? bs with _ | ⟨r, rest⟩
    · rw [decodeAll_of_decode?_eq_none hd]
      simp [eq_comm]
    · rw [decodeAll_of_decode?_eq_some hd]
      simp
  | cons r rs ih =>
    rw [IntactPrefix.cons_iff]
    rcases hd : decode? bs with _ | ⟨r', rest⟩
    · rw [decodeAll_of_decode?_eq_none hd]
      simp
    · rw [decodeAll_of_decode?_eq_some hd]
      constructor
      · intro h
        obtain ⟨hcons, rfl⟩ := Prod.mk.inj h
        obtain ⟨rfl, rfl⟩ := List.cons.inj hcons
        exact ⟨rest, _, rfl, ih.mp rfl, rfl⟩
      · rintro ⟨rest, m, ⟨⟩, h, rfl⟩
        rw [ih.mpr h]

theorem intactPrefix_encodeAll (h : ∀ r ∈ rs, r.Fits) :
    IntactPrefix (encodeAll rs) rs (encodeAll rs).length where
  le_length := Nat.le_refl _
  fits := h
  take_eq := List.take_length
  maximal r _ hr := by
    rw [List.drop_length, List.prefix_nil] at hr
    exact encode_ne_nil r hr

theorem decodeAll_encodeAll_append (h : ∀ r ∈ rs, r.Fits) (bs : Bytes) :
    decodeAll (encodeAll rs ++ bs) =
      (rs ++ (decodeAll bs).1, (encodeAll rs).length + (decodeAll bs).2) := by
  induction rs with
  | nil => simp
  | cons r rs ih =>
    obtain ⟨hr, hrs⟩ := List.forall_mem_cons.mp h
    have hd : decode? (encodeAll (r :: rs) ++ bs) = some (r, encodeAll rs ++ bs) := by
      rw [encodeAll_cons, List.append_assoc]
      exact decode?_encode_append r hr _
    rw [decodeAll_of_decode?_eq_some hd, ih hrs, encodeAll_cons, List.length_append,
      length_encode, Nat.add_assoc, List.cons_append]

end Record

namespace Log

variable (l : Log)

theorem close_emit (bs : Bytes) : (l.emit bs).close = l.close ++ bs := by
  simp only [emit]
  by_cases hfits : bs.length < bufferSize - l.pending.length
  · rw [if_pos hfits]
    simp only [close, drain, List.append_assoc]
  rw [if_neg hfits]
  by_cases hdrain : bufferSize - l.pending.length < bs.length
  · rw [if_pos hdrain]
    split <;> simp only [close, drain, List.append_nil, List.nil_append]
  · rw [if_neg hdrain]
    split
    · -- Bytes that fit exactly and fill a whole buffer have found it empty.
      have hpending : l.pending = [] := by
        apply List.eq_nil_of_length_eq_zero
        unfold bufferSize at *
        omega
      simp only [close, drain, hpending, List.append_nil]
    · simp only [close, drain, List.append_assoc]

theorem close_append {payload : Bytes} (h : payload.length < UInt32.size) :
    (l.append payload).2.close = l.close ++ Record.encode ⟨l.next, payload⟩ := by
  simp only [append, if_pos h]
  exact close_emit l _

end Log

namespace Record

/-- Decoding answers the intact prefix, and there is no other one. The frames of any records are
read back to the last byte, and they are what appending puts into a log. -/
theorem decodeAll_exact (bs : Bytes) :
    (∀ rs n, decodeAll bs = (rs, n) ↔ IntactPrefix bs rs n) ∧
    (∀ rs : List Record, (∀ r ∈ rs, r.Fits) →
      decodeAll (encodeAll rs) = (rs, (encodeAll rs).length)) ∧
    ∀ (l : Log) (payload : Bytes), payload.length < UInt32.size →
      (l.append payload).2.close = l.close ++ encode ⟨l.next, payload⟩ := by
  refine ⟨fun rs n => decodeAll_eq_iff, fun rs h => ?_, fun l payload => l.close_append⟩
  exact decodeAll_eq_iff.mpr (intactPrefix_encodeAll h)

theorem decodeAll_torn :
    decodeAll (encode ⟨1, [7, 8]⟩ ++ (encode ⟨2, [9]⟩).take 16) = ([⟨1, [7, 8]⟩], 18) := by
  apply ((decodeAll_exact _).1 _ _).mpr
  apply IntactPrefix.cons_iff.mpr
  refine ⟨(encode ⟨2, [9]⟩).take 16, 0, ?_, IntactPrefix.nil_iff.mpr ⟨rfl, ?_⟩, rfl⟩
  · exact decode?_encode_append _ (by decide) _
  · decide +kernel

end Record

end BufferPool
