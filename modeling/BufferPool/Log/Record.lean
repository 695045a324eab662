import BufferPool.Log.Checksum

/-! # Log records

A record is framed by a header of its payload's length, its sequence number
and a checksum over the number and the payload, all big-endian. Decoding stops
at the first frame that is incomplete or fails its checksum.
-/

namespace BufferPool

/-- A log sequence number. Records are numbered from 1. -/
abbrev Lsn := UInt64

def Lsn.invalid : Lsn := 0

structure Record where
  lsn : Lsn
  payload : Bytes
  deriving DecidableEq

namespace Record

/-- The length of a header: 4 bytes of length, 8 of sequence number, 4 of checksum. -/
def headerSize : Nat := 16

def checksum (r : Record) : UInt32 :=
  crc32 (Bytes.bigEndian 8 r.lsn.toNat ++ r.payload)

def encode (r : Record) : Bytes :=
  Bytes.bigEndian 4 r.payload.length ++ Bytes.bigEndian 8 r.lsn.toNat ++
    Bytes.bigEndian 4 r.checksum.toNat ++ r.payload

def encodedLength (r : Record) : Nat := headerSize + r.payload.length

/-- The record whose intact frame `bs` starts with, and the bytes after that frame. -/
def decode? (bs : Bytes) : Option (Record × Bytes) :=
  if bs.length < headerSize then none
  else
    let length := Bytes.toNat (bs.take 4)
    let lsn := UInt64.ofNat (Bytes.toNat ((bs.drop 4).take 8))
    let crc := UInt32.ofNat (Bytes.toNat ((bs.drop 12).take 4))
    let body := bs.drop headerSize
    let r : Record := ⟨lsn, body.take length⟩
    if body.length < length then none
    else if r.checksum = crc then some (r, body.drop length)
    else none

@[simp] theorem length_encode (r : Record) : r.encode.length = r.encodedLength := by
  simp only [encode, encodedLength, headerSize, List.length_append, Bytes.length_bigEndian]

theorem encode_eq (r : Record) : r.encode =
    Bytes.bigEndian 4 r.payload.length ++
      (Bytes.bigEndian 8 r.lsn.toNat ++ (Bytes.bigEndian 4 r.checksum.toNat ++ r.payload)) := by
  simp only [encode, List.append_assoc]

theorem decode?_header {size : Bytes} (hsize : size.length = 4) (lsn : Lsn) (crc : UInt32)
    (body : Bytes) :
    decode? (size ++ (Bytes.bigEndian 8 lsn.toNat ++ (Bytes.bigEndian 4 crc.toNat ++ body))) =
      if size.toNat ≤ body.length ∧
          (⟨lsn, body.take size.toNat⟩ : Record).checksum = crc then
        some (⟨lsn, body.take size.toNat⟩, body.drop size.toNat)
      else none := by
  generalize hbs :
    size ++ (Bytes.bigEndian 8 lsn.toNat ++ (Bytes.bigEndian 4 crc.toNat ++ body)) = bs
  have hlong : ¬bs.length < headerSize := by
    subst hbs
    simp only [List.length_append, Bytes.length_bigEndian, hsize, headerSize]
    omega
  have htake : bs.take 4 = size := by subst hbs; exact List.take_left' hsize
  have hlsn : UInt64.ofNat (Bytes.toNat ((bs.drop 4).take 8)) = lsn := by
    subst hbs
    rw [List.drop_left' hsize, List.take_left' (by simp), Bytes.toNat_bigEndian,
      Nat.mod_eq_of_lt lsn.toNat_lt, UInt64.ofNat_toNat]
  have hcrc : UInt32.ofNat (Bytes.toNat ((bs.drop 12).take 4)) = crc := by
    subst hbs
    rw [← List.append_assoc, List.drop_left' (by simp [hsize]), List.take_left' (by simp),
      Bytes.toNat_bigEndian, Nat.mod_eq_of_lt crc.toNat_lt, UInt32.ofNat_toNat]
  have hbody : bs.drop headerSize = body := by
    subst hbs
    rw [← List.append_assoc, ← List.append_assoc, List.drop_left' (by simp [hsize, headerSize])]
  rw [decode?, if_neg hlong]
  simp only [htake, hlsn, hcrc, hbody]
  by_cases hle : Bytes.toNat size ≤ body.length
  · simp only [Nat.not_lt.mpr hle, hle, if_false, true_and]
  · simp only [Nat.lt_of_not_le hle, hle, if_true, false_and, if_false]

theorem decode?_encode_append (r : Record) (h : r.payload.length < UInt32.size) (rest : Bytes) :
    decode? (r.encode ++ rest) = some (r, rest) := by
  have hlength : r.payload.length % Nat.pow 256 4 = r.payload.length := Nat.mod_eq_of_lt h
  rw [encode_eq]
  simp only [List.append_assoc]
  rw [decode?_header (by simp), Bytes.toNat_bigEndian, hlength, List.take_left, List.drop_left,
    if_pos ⟨by simp, rfl⟩]

theorem exists_header {bs : Bytes} (h : headerSize ≤ bs.length) :
    ∃ (size : Bytes) (lsn : Lsn) (crc : UInt32) (body : Bytes), size.length = 4 ∧
      bs = size ++ (Bytes.bigEndian 8 lsn.toNat ++ (Bytes.bigEndian 4 crc.toNat ++ body)) := by
  rw [headerSize] at h
  have hnumber : ((bs.drop 4).take 8).length = 8 := by
    rw [List.length_take, List.length_drop]
    omega
  have hsum : ((bs.drop 12).take 4).length = 4 := by
    rw [List.length_take, List.length_drop]
    omega
  obtain ⟨lsn, hlsn_lt, hlsn⟩ := Bytes.exists_bigEndian_eq hnumber
  obtain ⟨crc, hcrc_lt, hcrc⟩ := Bytes.exists_bigEndian_eq hsum
  refine ⟨bs.take 4, UInt64.ofNat lsn, UInt32.ofNat crc, bs.drop 16,
    List.length_take_of_le (by omega), ?_⟩
  have h12 : bs.drop 12 = (bs.drop 4).drop 8 := by rw [List.drop_drop]
  have h16 : bs.drop 16 = (bs.drop 12).drop 4 := by rw [List.drop_drop]
  rw [UInt64.toNat_ofNat_of_lt' hlsn_lt, UInt32.toNat_ofNat_of_lt' hcrc_lt, hlsn, hcrc, h16,
    List.take_append_drop, h12, List.take_append_drop, List.take_append_drop]

theorem eq_encode_append_of_decode? {bs rest : Bytes} {r : Record}
    (h : decode? bs = some (r, rest)) : bs = r.encode ++ rest ∧ r.payload.length < UInt32.size := by
  by_cases hlong : bs.length < headerSize
  · rw [decode?, if_pos hlong] at h
    cases h
  · obtain ⟨size, lsn, crc, body, hsize, rfl⟩ := exists_header (Nat.le_of_not_lt hlong)
    rw [decode?_header hsize] at h
    split at h
    · next hread =>
      obtain ⟨hle, rfl⟩ := hread
      cases h
      have hlength : (body.take size.toNat).length = size.toNat := List.length_take_of_le hle
      have hgiven := Bytes.bigEndian_toNat size
      have hlt := Bytes.toNat_lt size
      rw [hsize] at hgiven hlt
      refine ⟨?_, Nat.lt_of_le_of_lt (Nat.le_of_eq hlength) hlt⟩
      rw [encode_eq, hlength, hgiven]
      simp only [List.append_assoc, List.take_append_drop]
    · cases h

theorem length_lt_of_decode? {bs rest : Bytes} {r : Record} (h : decode? bs = some (r, rest)) :
    rest.length < bs.length := by
  rw [(eq_encode_append_of_decode? h).1, List.length_append, length_encode, encodedLength,
    headerSize]
  omega

/-- The records up to the first broken frame, and the total length of their frames. -/
def decodeAll (bs : Bytes) : List Record × Nat :=
  match h : decode? bs with
  | none => ([], 0)
  | some (r, rest) =>
    have := length_lt_of_decode? h
    let (rs, length) := decodeAll rest
    (r :: rs, r.encodedLength + length)
termination_by bs.length

theorem decodeAll_of_decode?_eq_none {bs : Bytes} (h : decode? bs = none) :
    decodeAll bs = ([], 0) := by
  rw [decodeAll]; split <;> simp_all

theorem decodeAll_of_decode?_eq_some {bs rest : Bytes} {r : Record}
    (h : decode? bs = some (r, rest)) :
    decodeAll bs = (r :: (decodeAll rest).1, r.encodedLength + (decodeAll rest).2) := by
  rw [decodeAll]; split <;> simp_all

end Record

end BufferPool
