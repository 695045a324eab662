import BufferPool.Log.Checksum

/-! # Checksums of altered bytes

Taking a byte into the register can be undone, as can each of its shifts. Registers
that differ go on to differ, whatever bytes follow, so that a checksum shows the
change of any one byte.
-/

namespace BufferPool

namespace Crc32

variable {c d : UInt32}

theorem toNat_half (c : UInt32) : (c >>> 1).toNat = c.toNat / 2 := by
  rw [UInt32.toNat_shiftRight]
  rfl

theorem low_eq_one_iff : c &&& 1 = 1 ↔ c.toNat % 2 = 1 := by
  rw [← UInt32.toNat_inj, UInt32.toNat_and, UInt32.toNat_one, Nat.and_one_is_mod]

theorem eq_of_half_eq (hhalf : c >>> 1 = d >>> 1) (hlow : c &&& 1 = 1 ↔ d &&& 1 = 1) : c = d := by
  have h := congrArg UInt32.toNat hhalf
  rw [toNat_half, toNat_half] at h
  rw [low_eq_one_iff, low_eq_one_iff] at hlow
  apply UInt32.toNat_inj.mp
  omega

/-- The highest bit of the polynomial is set, and a half has none there. -/
theorem half_xor_ne (c d : UInt32) : (c >>> 1) ^^^ polynomial ≠ d >>> 1 := by
  intro h
  have hpolynomial : (c >>> 1) ^^^ (d >>> 1) = polynomial := by
    rw [← h, ← UInt32.xor_assoc, UInt32.xor_self, UInt32.zero_xor]
  have hlt (c : UInt32) : (c >>> 1).toNat < 2 ^ 31 := by
    have := c.toNat_lt
    rw [toNat_half]
    omega
  have hxor := Nat.xor_lt_two_pow (hlt c) (hlt d)
  rw [← UInt32.toNat_xor, hpolynomial] at hxor
  exact absurd hxor (by decide)

theorem shift_injective : Function.Injective shift := by
  intro c d h
  unfold shift at h
  split at h <;> split at h <;> rename_i hc hd
  · exact eq_of_half_eq ((UInt32.xor_left_inj _).mp h) (by simp only [hc, hd])
  · exact absurd h (half_xor_ne c d)
  · exact absurd h.symm (half_xor_ne d c)
  · exact eq_of_half_eq h (by simp only [hc, hd])

theorem repeat_shift_injective (n : Nat) : Function.Injective (Nat.repeat shift n) := by
  induction n with
  | zero => exact fun _ _ h => h
  | succ n ih => exact fun _ _ h => ih (shift_injective h)

theorem feed_injective (b : UInt8) : Function.Injective (feed · b) := fun _ _ h =>
  (UInt32.xor_left_inj _).mp (repeat_shift_injective 8 h)

theorem feed_byte_injective (c : UInt32) : Function.Injective (feed c) := fun _ _ h =>
  UInt8.toUInt32_inj.mp ((UInt32.xor_right_inj c).mp (repeat_shift_injective 8 h))

theorem foldl_feed_injective (bs : Bytes) : Function.Injective (bs.foldl feed) := by
  induction bs with
  | nil => exact fun _ _ h => h
  | cons b bs ih => exact fun _ _ h => feed_injective b (ih h)

end Crc32

open Crc32

variable {bs init rest : Bytes} {b b' : UInt8} {i : Nat}

theorem eq_of_crc32_append_cons
    (h : crc32 (init ++ b :: rest) = crc32 (init ++ b' :: rest)) : b = b' := by
  have hregister := (UInt32.xor_left_inj _).mp h
  rw [List.foldl_append, List.foldl_append, List.foldl_cons, List.foldl_cons] at hregister
  exact feed_byte_injective _ (foldl_feed_injective rest hregister)

theorem set_eq_of_crc32_set (h : crc32 (bs.set i b) = crc32 bs) : bs.set i b = bs := by
  by_cases hi : i < bs.length
  · have hbs : bs.take i ++ bs[i] :: bs.drop (i + 1) = bs := by
      rw [← List.drop_eq_getElem_cons hi, List.take_append_drop]
    have hset : bs.set i b = bs.take i ++ b :: bs.drop (i + 1) := by
      rw [List.set_eq_take_append_cons_drop, if_pos hi]
    have hb : b = bs[i] := by
      apply eq_of_crc32_append_cons
      rw [hbs, ← hset]
      exact h
    rw [hset, hb, hbs]
  · exact List.set_eq_of_length_le (Nat.le_of_not_lt hi)

end BufferPool
