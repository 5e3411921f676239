import Mathlib.Data.Nat.Bitwise

namespace NodeMcu.Lib.Packed

/-! ## Numbers that are packed from a high and a low part -/

theorem or_shiftLeft (x y i : Nat) (h : y < 2 ^ i) : x <<< i ||| y = x * 2 ^ i + y := by
  rw [← Nat.shiftLeft_add_eq_or_of_lt h, Nat.shiftLeft_eq]

section Parts

variable {i high low : Nat}

theorem packed_div (h : low < 2 ^ i) : (high * 2 ^ i + low) / 2 ^ i = high := by
  rw [Nat.mul_comm, Nat.mul_add_div (Nat.two_pow_pos i), Nat.div_eq_of_lt h, Nat.add_zero]

theorem packed_mod (h : low < 2 ^ i) : (high * 2 ^ i + low) % 2 ^ i = low := by
  rw [Nat.mul_comm, Nat.mul_add_mod, Nat.mod_eq_of_lt h]

/-- A mask of the high part. -/
theorem and_high (mask : Nat) (h : low < 2 ^ i) :
    (high * 2 ^ i + low) &&& mask * 2 ^ i = (high &&& mask) * 2 ^ i := by
  have hdiv : ((high * 2 ^ i + low) &&& mask * 2 ^ i) / 2 ^ i = high &&& mask := by
    rw [Nat.and_div_two_pow, packed_div h, Nat.mul_div_cancel _ (Nat.two_pow_pos i)]
  have hmod : ((high * 2 ^ i + low) &&& mask * 2 ^ i) % 2 ^ i = 0 := by
    rw [Nat.and_mod_two_pow, Nat.mul_mod_left, Nat.and_zero]
  rw [← Nat.div_add_mod ((high * 2 ^ i + low) &&& mask * 2 ^ i) (2 ^ i), hdiv, hmod,
    Nat.add_zero, Nat.mul_comm]

/-- A mask of the low part. -/
theorem and_low (h : low < 2 ^ i) : (high * 2 ^ i + low) &&& (2 ^ i - 1) = low := by
  rw [Nat.and_two_pow_sub_one_eq_mod, packed_mod h]

end Parts

end NodeMcu.Lib.Packed
