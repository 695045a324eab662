import BufferPool.Proofs.Log.Checksum
import BufferPool.Proofs.Log.Frames

/-! # Corrupt frames

One byte of a frame is replaced. Behind the length the checksum always shows it,
and decoding stops in front of the frame. The length itself is under no checksum:
a wrong one is believed if the bytes that it frames have the old checksum, and
there are payloads for which they do.
-/

namespace BufferPool

namespace Record

def frameStart (rs : List Record) (i : Nat) : Nat := (encodeAll (rs.take i)).length

/-- The frames of the records with `b` for byte `k` of frame number `i`. -/
def altered (rs : List Record) (i k : Nat) (b : UInt8) : Bytes :=
  (encodeAll rs).set (frameStart rs i + k) b

variable {rs : List Record} {r r' : Record} {bs rest rest' : Bytes} {i k : Nat} {b : UInt8}

theorem encodeAll_split (hi : i < rs.length) :
    encodeAll rs = encodeAll (rs.take i) ++ (rs[i].encode ++ encodeAll (rs.drop (i + 1))) := by
  rw [← encodeAll_cons, ← List.drop_eq_getElem_cons hi, ← encodeAll_append,
    List.take_append_drop]

theorem altered_split (hi : i < rs.length) (hk : k < rs[i].encodedLength) :
    altered rs i k b =
      encodeAll (rs.take i) ++ (rs[i].encode.set k b ++ encodeAll (rs.drop (i + 1))) := by
  rw [altered, encodeAll_split hi, frameStart, List.set_append_right _ _ (Nat.le_add_right _ _),
    Nat.add_sub_cancel_left, List.set_append_left _ _ (by rwa [length_encode])]

theorem decodeAll_altered_eq (hfits : ∀ r ∈ rs, r.Fits) (hi : i < rs.length)
    (hk : k < rs[i].encodedLength) :
    decodeAll (altered rs i k b) =
      (rs.take i ++ (decodeAll (rs[i].encode.set k b ++ encodeAll (rs.drop (i + 1)))).1,
        frameStart rs i +
          (decodeAll (rs[i].encode.set k b ++ encodeAll (rs.drop (i + 1)))).2) := by
  rw [altered_split hi hk, decodeAll_encodeAll_append]
  · rfl
  · exact fun r hr => hfits r (List.mem_of_mem_take hr)

theorem decodeAll_altered_of_eq_none (hfits : ∀ r ∈ rs, r.Fits) (hi : i < rs.length)
    (hk : k < rs[i].encodedLength)
    (hd : decode? (rs[i].encode.set k b ++ encodeAll (rs.drop (i + 1))) = none) :
    decodeAll (altered rs i k b) = (rs.take i, frameStart rs i) := by
  rw [decodeAll_altered_eq hfits hi hk, decodeAll_of_decode?_eq_none hd, List.append_nil,
    Nat.add_zero]

theorem eq_of_set_fields {xs ys zs xs' ys' zs' : Bytes} {j : Nat}
    (hxs : xs'.length = xs.length) (hys : ys'.length = ys.length)
    (h : xs' ++ (ys' ++ zs') = (xs ++ (ys ++ zs)).set j b) :
    (xs' = xs ∧ zs' = zs) ∨ ys' = ys ∧ ∃ i, xs' ++ zs' = (xs ++ zs).set i b := by
  by_cases hj : j < xs.length
  · rw [List.set_append_left _ _ hj] at h
    obtain ⟨rfl, htail⟩ := List.append_inj h (by simpa using hxs)
    obtain ⟨rfl, rfl⟩ := List.append_inj htail hys
    exact Or.inr ⟨rfl, j, (List.set_append_left _ _ hj).symm⟩
  · rw [List.set_append_right _ _ (Nat.le_of_not_lt hj)] at h
    obtain ⟨rfl, h⟩ := List.append_inj h hxs
    by_cases hj' : j - xs'.length < ys.length
    · -- Only the middle field is touched.
      rw [List.set_append_left _ _ hj'] at h
      obtain ⟨-, rfl⟩ := List.append_inj h (by simpa using hys)
      exact Or.inl ⟨rfl, rfl⟩
    · rw [List.set_append_right _ _ (Nat.le_of_not_lt hj')] at h
      obtain ⟨rfl, rfl⟩ := List.append_inj h hys
      refine Or.inr ⟨rfl, xs'.length + (j - xs'.length - ys'.length), ?_⟩
      rw [List.set_append_right _ _ (Nat.le_add_right _ _), Nat.add_sub_cancel_left]

/-- With the length in place, an altered frame is no frame: a byte in the number or in the payload
changes the checksum, and a byte in the checksum changes nothing else. -/
theorem encode_eq_of_encode_eq_set (hk : 4 ≤ k) (hlength : r'.payload.length = r.payload.length)
    (h : r'.encode = r.encode.set k b) : r'.encode = r.encode := by
  rw [encode_eq, encode_eq, hlength, List.set_append_right _ _ (by simpa using hk),
    List.append_cancel_left_eq] at h
  rw [encode_eq, encode_eq, hlength, List.append_cancel_left_eq]
  obtain ⟨hlsn, hpayload⟩ | ⟨hsum, j, hcovered⟩ := eq_of_set_fields (by simp) (by simp) h
  · have hcrc : r'.checksum = r.checksum := by rw [checksum, checksum, hlsn, hpayload]
    rw [hlsn, hcrc, hpayload]
  · have hcrc : r'.checksum = r.checksum :=
      UInt32.toNat_inj.mp (Bytes.eq_of_bigEndian_eq hsum r'.checksum.toNat_lt r.checksum.toNat_lt)
    rw [checksum, checksum, hcovered] at hcrc
    rw [set_eq_of_crc32_set hcrc] at hcovered
    obtain ⟨hlsn, hpayload⟩ := List.append_inj hcovered (by simp)
    rw [hlsn, hsum, hpayload]

theorem decode?_set_encode (rest : Bytes) (hr : r.Fits) (hk : 4 ≤ k)
    (hne : r.encode.set k b ≠ r.encode) : decode? (r.encode.set k b ++ rest) = none := by
  rw [decode?_eq_none_iff]
  rintro r' hr' ⟨rest', h⟩
  have hsize : Bytes.bigEndian 4 r'.payload.length = Bytes.bigEndian 4 r.payload.length := by
    rw [encode_eq, encode_eq, List.set_append_right _ _ (by simpa using hk)] at h
    simp only [List.append_assoc] at h
    exact (List.append_inj h (by simp)).1
  have hlength : r'.payload.length = r.payload.length := Bytes.eq_of_bigEndian_eq hsize hr' hr
  have hset : r'.encode = r.encode.set k b :=
    (List.append_inj h (by simp [encodedLength, hlength])).1
  exact hne (hset ▸ encode_eq_of_encode_eq_set hk hlength hset)

/-- A byte behind the length that is not the one that was there ends the decoding in front of its
frame. -/
theorem decodeAll_altered (hfits : ∀ r ∈ rs, r.Fits) (hi : i < rs.length) (hk : 4 ≤ k)
    (hlt : k < rs[i].encodedLength) (hb : rs[i].encode[k]? ≠ some b) :
    decodeAll (altered rs i k b) = (rs.take i, frameStart rs i) := by
  have hne : rs[i].encode.set k b ≠ rs[i].encode := by
    intro h
    rw [← h, List.getElem?_set_self (by rwa [length_encode])] at hb
    exact hb rfl
  have hr : rs[i].Fits := hfits _ (List.getElem_mem hi)
  exact decodeAll_altered_of_eq_none hfits hi hlt (decode?_set_encode _ hr hk hne)

theorem decodeAll_altered_payload :
    (∀ r ∈ ([⟨1, [7]⟩, ⟨2, [8, 9]⟩, ⟨3, []⟩] : List Record), r.Fits) ∧
      (encode ⟨2, [8, 9]⟩)[17]? ≠ some 8 ∧
      decodeAll (altered [⟨1, [7]⟩, ⟨2, [8, 9]⟩, ⟨3, []⟩] 1 17 8) = ([⟨1, [7]⟩], 17) := by
  have hfits : ∀ r ∈ ([⟨1, [7]⟩, ⟨2, [8, 9]⟩, ⟨3, []⟩] : List Record), r.Fits := by decide
  have hb : (encode ⟨2, [8, 9]⟩)[17]? ≠ some 8 := by decide +kernel
  exact ⟨hfits, hb, decodeAll_altered hfits (by decide) (by decide) (by decide) hb⟩

/-- The length that the frame of `r` gives with `b` for byte `k`. -/
def givenLength (r : Record) (k : Nat) (b : UInt8) : Nat :=
  Bytes.toNat ((r.encode.set k b).take 4)

/-- What the frame of `r` holds if its length is `n` and `rest` follows it. -/
def misread (r : Record) (n : Nat) (rest : Bytes) : Record := ⟨r.lsn, (r.payload ++ rest).take n⟩

/-- The bytes are all there, and the checksum does not tell. -/
def Believed (r : Record) (n : Nat) (rest : Bytes) : Prop :=
  n ≤ (r.payload ++ rest).length ∧ (r.misread n rest).checksum = r.checksum

instance (r : Record) (n : Nat) (rest : Bytes) : Decidable (r.Believed n rest) :=
  inferInstanceAs (Decidable (_ ∧ _))

theorem givenLength_eq (hk : k < 4) :
    r.givenLength k b = Bytes.toNat ((Bytes.bigEndian 4 r.payload.length).set k b) := by
  rw [givenLength, encode_eq, List.set_append_left _ _ (by simpa using hk),
    List.take_left' (by simp)]

theorem givenLength_ne (hk : k < 4) (hb : r.encode[k]? ≠ some b) :
    r.givenLength k b ≠ r.payload.length := by
  intro h
  rw [givenLength_eq hk] at h
  have hset := Bytes.bigEndian_toNat ((Bytes.bigEndian 4 r.payload.length).set k b)
  rw [h, List.length_set, Bytes.length_bigEndian] at hset
  apply hb
  rw [encode_eq, List.getElem?_append_left (by simpa using hk), hset,
    List.getElem?_set_self (by simpa using hk)]

theorem decode?_set_length (r : Record) (b : UInt8) (rest : Bytes) (hk : k < 4) :
    decode? (r.encode.set k b ++ rest) =
      if r.Believed (r.givenLength k b) rest then
        some (r.misread (r.givenLength k b) rest, (r.payload ++ rest).drop (r.givenLength k b))
      else none := by
  rw [givenLength_eq hk, encode_eq, List.set_append_left _ _ (by simpa using hk)]
  simp only [List.append_assoc]
  exact decode?_header (by simp) r.lsn r.checksum _

/-- A wrong length ends the decoding in front of its frame, unless the bytes that it frames have the
checksum in the header. Then a record of these bytes is read, and decoding goes on behind them. -/
theorem decodeAll_altered_length (hfits : ∀ r ∈ rs, r.Fits) (hi : i < rs.length) (hk : k < 4)
    (hb : rs[i].encode[k]? ≠ some b) :
    let rest := encodeAll (rs.drop (i + 1))
    let n := rs[i].givenLength k b
    let further := decodeAll ((rs[i].payload ++ rest).drop n)
    n ≠ rs[i].payload.length ∧
      (¬rs[i].Believed n rest → decodeAll (altered rs i k b) = (rs.take i, frameStart rs i)) ∧
      (rs[i].Believed n rest → decodeAll (altered rs i k b) =
        (rs.take i ++ rs[i].misread n rest :: further.1,
          frameStart rs i + ((rs[i].misread n rest).encodedLength + further.2))) := by
  intro rest n further
  have hlt : k < rs[i].encodedLength := by
    rw [encodedLength, headerSize]
    omega
  have hd := decode?_set_length rs[i] b rest hk
  refine ⟨givenLength_ne hk hb, fun hnot => ?_, fun hbelieved => ?_⟩
  · rw [if_neg hnot] at hd
    exact decodeAll_altered_of_eq_none hfits hi hlt hd
  · rw [if_pos hbelieved] at hd
    rw [decodeAll_altered_eq hfits hi hlt, decodeAll_of_decode?_eq_some hd]

/-- A record with a payload that leaves the checksum as it is without one. -/
def colliding : Record := ⟨1, [0xE3, 0x30, 0x61, 0x32]⟩

/-- With its length changed from 4 to 0, the record is read as one without a payload. -/
theorem not_caught_colliding :
    colliding.Fits ∧ colliding.encode[3]? ≠ some 0 ∧
      decodeAll (altered [colliding] 0 3 0) = ([⟨1, []⟩], 16) ∧
      (⟨1, []⟩ : Record) ∉ [colliding] := by
  have hd : decode? (altered [colliding] 0 3 0) = some (⟨1, []⟩, [0xE3, 0x30, 0x61, 0x32]) := by
    decide +kernel
  have hrest : decode? [0xE3, 0x30, 0x61, 0x32] = none := by decide +kernel
  refine ⟨by decide, by decide +kernel, ?_, by decide⟩
  rw [decodeAll_of_decode?_eq_some hd, decodeAll_of_decode?_eq_none hrest]
  rfl

theorem decodeAll_altered_length_colliding :
    (∀ r ∈ [colliding, ⟨2, [9]⟩], r.Fits) ∧ colliding.encode[3]? ≠ some 0 ∧
      decodeAll (altered [colliding, ⟨2, [9]⟩] 0 3 0) = ([⟨1, []⟩], 16) := by
  have hfits : ∀ r ∈ [colliding, ⟨2, [9]⟩], r.Fits := by decide
  have hb : colliding.encode[3]? ≠ some 0 := by decide +kernel
  have hbelieved : colliding.Believed (colliding.givenLength 3 0) (encodeAll [⟨2, [9]⟩]) := by
    decide +kernel
  have hn : colliding.givenLength 3 0 = 0 := by decide +kernel
  have hrest : decode? (colliding.payload ++ encodeAll [⟨2, [9]⟩]) = none := by decide +kernel
  obtain ⟨-, -, h⟩ := decodeAll_altered_length (i := 0) hfits (by decide) (by decide) hb
  refine ⟨hfits, hb, (h hbelieved).trans ?_⟩
  simp only [List.getElem_cons_zero, Nat.zero_add, List.drop_succ_cons, List.drop_zero, hn]
  rw [decodeAll_of_decode?_eq_none hrest]
  rfl

end Record

end BufferPool
