/-! # Byte strings

Overlaying and resizing byte strings, with zeros in every gap, and unsigned
numbers in big-endian digits.
-/

namespace BufferPool

abbrev Bytes := List UInt8

namespace Bytes

/-- The first `n` bytes, padded with zeros to length `n`. -/
def resize (n : Nat) (bs : Bytes) : Bytes :=
  bs.take n ++ List.replicate (n - bs.length) 0

/-- `new` written over `bs` from `offset` on. A gap behind the end of `bs` reads as zeros. -/
def overlay (bs : Bytes) (offset : Nat) (new : Bytes) : Bytes :=
  bs.resize offset ++ new ++ bs.drop (offset + new.length)

@[simp] theorem length_resize (n : Nat) (bs : Bytes) : (bs.resize n).length = n := by
  simp only [resize, List.length_append, List.length_take, List.length_replicate]
  omega

@[simp] theorem length_overlay (bs : Bytes) (offset : Nat) (new : Bytes) :
    (bs.overlay offset new).length = max bs.length (offset + new.length) := by
  simp only [overlay, List.length_append, length_resize, List.length_drop]
  omega

/-- The `width` low base-256 digits of `n`, most significant first. -/
def bigEndian : (width : Nat) → (n : Nat) → Bytes
  | 0, _ => []
  | width + 1, n => bigEndian width (n / 256) ++ [UInt8.ofNat n]

/-- The number with the base-256 digits `bs`, most significant first. -/
def toNat (bs : Bytes) : Nat :=
  bs.foldl (fun n b => 256 * n + b.toNat) 0

@[simp] theorem length_bigEndian (width n : Nat) : (bigEndian width n).length = width := by
  induction width generalizing n with
  | zero => rfl
  | succ width ih => simp [bigEndian, ih]

@[simp] theorem toNat_append_singleton (bs : Bytes) (b : UInt8) :
    toNat (bs ++ [b]) = 256 * toNat bs + b.toNat := by
  simp [toNat]

@[simp] theorem toNat_bigEndian (width n : Nat) :
    toNat (bigEndian width n) = n % Nat.pow 256 width := by
  induction width generalizing n with
  | zero => exact (Nat.mod_one n).symm
  | succ width ih =>
    have hpow : Nat.pow 256 (width + 1) = 256 * Nat.pow 256 width := Nat.pow_succ'
    rw [bigEndian, toNat_append_singleton, ih, hpow, Nat.mod_mul]
    simp only [UInt8.toNat_ofNat']
    omega

theorem bigEndian_toNat (bs : Bytes) : bigEndian bs.length (toNat bs) = bs := by
  generalize h : bs.length = width
  induction width generalizing bs with
  | zero => rw [List.length_eq_zero_iff.mp h]; rfl
  | succ width ih =>
    have hne : bs ≠ [] := by rintro rfl; cases h
    obtain ⟨init, last, rfl⟩ : ∃ init last, bs = init ++ [last] :=
      ⟨_, _, (List.dropLast_concat_getLast hne).symm⟩
    have hdiv : (256 * toNat init + last.toNat) / 256 = toNat init := by
      have := last.toNat_lt; omega
    have hlast : UInt8.ofNat (256 * toNat init + last.toNat) = last := by
      apply UInt8.toNat_inj.mp
      have := last.toNat_lt
      simp only [UInt8.toNat_ofNat']; omega
    rw [toNat_append_singleton, bigEndian, hdiv, hlast, ih init (by simpa using h)]

theorem toNat_lt (bs : Bytes) : toNat bs < Nat.pow 256 bs.length := by
  have h := toNat_bigEndian bs.length (toNat bs)
  rw [bigEndian_toNat] at h
  rw [h]
  exact Nat.mod_lt _ (Nat.pow_pos (by decide))

theorem eq_of_bigEndian_eq {width m n : Nat} (h : bigEndian width m = bigEndian width n)
    (hm : m < Nat.pow 256 width) (hn : n < Nat.pow 256 width) : m = n := by
  have hmod := congrArg toNat h
  rwa [toNat_bigEndian, toNat_bigEndian, Nat.mod_eq_of_lt hm, Nat.mod_eq_of_lt hn] at hmod

theorem exists_bigEndian_eq {bs : Bytes} {width : Nat} (h : bs.length = width) :
    ∃ n < Nat.pow 256 width, bigEndian width n = bs := by
  subst h
  exact ⟨toNat bs, toNat_lt bs, bigEndian_toNat bs⟩

end Bytes

end BufferPool
