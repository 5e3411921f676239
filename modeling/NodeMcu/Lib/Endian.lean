import Mathlib.Tactic.SplitIfs
import NodeMcu.Lib.Memory

namespace NodeMcu.Lib.Endian

open NodeMcu.Lib.Memory

variable {w n k i : Nat}

/-! ## Groups of bits that change places -/

/-- Neighbouring groups of bits change places. The mask has the upper group of each pair. -/
def swap (k : Nat) (upper lower x : BitVec w) : BitVec w :=
  ((x &&& upper) >>> k) ||| ((x &&& lower) <<< k)

/-- Which bits belong to the upper groups, and which to the lower ones. -/
def Grouped (k : Nat) (upper lower : BitVec w) : Prop :=
  ∀ j, j < w → upper.getLsbD j = decide (j / k % 2 = 1) ∧ lower.getLsbD j = decide (j / k % 2 = 0)

instance (k : Nat) (upper lower : BitVec w) : Decidable (Grouped k upper lower) :=
  inferInstanceAs (Decidable (∀ j, j < w → _ ∧ _))

theorem getLsbD_swap {upper lower : BitVec w} (hgrouped : Grouped k upper lower) (hk : 0 < k)
    (x : BitVec w) (hi : i < w) :
    (swap k upper lower x).getLsbD i = x.getLsbD (if i / k % 2 = 0 then i + k else i - k) := by
  rw [swap, BitVec.getLsbD_or, BitVec.getLsbD_ushiftRight, BitVec.getLsbD_shiftLeft,
    BitVec.getLsbD_and, BitVec.getLsbD_and, Nat.add_comm k i]
  have hright : (x.getLsbD (i + k) && upper.getLsbD (i + k)) =
      (x.getLsbD (i + k) && decide (i / k % 2 = 0)) := by
    obtain hlt | hge := Nat.lt_or_ge (i + k) w
    · rw [(hgrouped _ hlt).1, Nat.add_div_right _ hk]
      congr 2
      rw [eq_iff_iff]
      omega
    · rw [BitVec.getLsbD_of_ge _ _ hge, Bool.false_and, Bool.false_and]
  rw [hright, (hgrouped (i - k) (by omega)).2]
  by_cases heven : i / k % 2 = 0
  · obtain hlt | hge := Nat.lt_or_ge i k
    · simp [heven, hlt]
    · have hodd : ¬ (i - k) / k % 2 = 0 := by
        have hstep : (i - k) / k + 1 = i / k := by
          rw [← Nat.add_div_right _ hk, Nat.sub_add_cancel hge]
        omega
      simp [heven, hodd]
  · have hge : k ≤ i := by
      by_contra hlt
      rw [Nat.div_eq_of_lt (Nat.not_le.mp hlt)] at heven
      exact heven rfl
    have heven' : (i - k) / k % 2 = 0 := by
      have hstep : (i - k) / k + 1 = i / k := by
        rw [← Nat.add_div_right _ hk, Nat.sub_add_cancel hge]
      omega
    simp [heven, heven', hi, Nat.not_lt.mpr hge]

theorem getLsbD_halves (hw : w = 2 * k) (x : BitVec w) (hi : i < w) :
    ((x >>> k) ||| (x <<< k)).getLsbD i = x.getLsbD (if i < k then i + k else i - k) := by
  rw [BitVec.getLsbD_or, BitVec.getLsbD_ushiftRight, BitVec.getLsbD_shiftLeft, Nat.add_comm k i]
  split_ifs with hlt
  · simp [hlt]
  · rw [BitVec.getLsbD_of_ge _ (i + k) (by omega)]
    simp [hi, hlt]

/-! ## Bytes the other way round -/

theorem bigEndian_eq (n x : Nat) :
    bigEndian n x = (List.range n).map fun i => UInt8.ofNat (x / 256 ^ (n - 1 - i)) := by
  induction n with
  | zero => rfl
  | succ n ih =>
    rw [bigEndian, ih, List.range_succ_eq_map, List.map_cons, List.map_map]
    refine congrArg₂ List.cons rfl (List.map_congr_left fun i hi => ?_)
    rw [Function.comp_apply, Nat.succ_eq_add_one]
    congr 3
    omega

theorem testBit_byte (x k j : Nat) (hj : j < 8) :
    (UInt8.ofNat (x / 256 ^ k)).toNat.testBit j = x.testBit (8 * k + j) := by
  have hpow : (256 : Nat) ^ k = 2 ^ (8 * k) := by rw [Nat.pow_mul]
  rw [UInt8.toNat_ofNat', Nat.testBit_mod_two_pow, hpow, Nat.testBit_div_two_pow]
  simp [hj, Nat.add_comm]

/-- Bytes are told from each other by their bits. -/
theorem byte_ext {a b : UInt8} (h : ∀ j, j < 8 → a.toNat.testBit j = b.toNat.testBit j) :
    a = b := by
  refine UInt8.toNat_inj.mp (Nat.eq_of_testBit_eq fun j => ?_)
  obtain hj | hj := Nat.lt_or_ge j 8
  · exact h j hj
  · have hsize (c : UInt8) : c.toNat.testBit j = false :=
      Nat.testBit_lt_two_pow (Nat.lt_of_lt_of_le c.toNat_lt (Nat.pow_le_pow_right (by decide) hj))
    rw [hsize, hsize]

/-- A word whose bytes are those of another the other way round. -/
def Reversed (n : Nat) (x y : BitVec w) : Prop :=
  ∀ i, i < w → y.getLsbD i = x.getLsbD (8 * (n - 1 - i / 8) + i % 8)

theorem Reversed.bytes {x y : BitVec w} (h : Reversed n x y) (hw : w = 8 * n) :
    bigEndian n y.toNat = (bigEndian n x.toNat).reverse := by
  refine List.ext_getElem (by simp) fun i hi _ => ?_
  rw [bigEndian_length] at hi
  simp only [bigEndian_eq, List.getElem_reverse, List.getElem_map, List.getElem_range,
    List.length_map, List.length_range]
  refine byte_ext fun j hj => ?_
  rw [testBit_byte _ _ _ hj, testBit_byte _ _ _ hj]
  have hbit := h (8 * (n - 1 - i) + j) (by omega)
  rw [BitVec.getLsbD, BitVec.getLsbD] at hbit
  have hsame : 8 * (n - 1 - (8 * (n - 1 - i) + j) / 8) + (8 * (n - 1 - i) + j) % 8 =
      8 * (n - 1 - (n - 1 - i)) + j := by omega
  rw [hbit, hsame]

theorem bigEndian_mod (n x : Nat) : bigEndian n (x % 256 ^ n) = bigEndian n x := by
  refine ofBigEndian_inj _ _ (by simp) ?_
  rw [ofBigEndian_bigEndian, ofBigEndian_bigEndian, Nat.mod_mod]

theorem bigEndian_add (m n x : Nat) :
    bigEndian (m + n) x = bigEndian m (x / 256 ^ n) ++ bigEndian n x := by
  induction m with
  | zero => rw [Nat.zero_add, bigEndian, List.nil_append]
  | succ m ih =>
    rw [Nat.add_right_comm, bigEndian, ih, bigEndian, List.cons_append, Nat.div_div_eq_div_mul,
      Nat.pow_add, Nat.mul_comm]

theorem bigEndian_ofBigEndian (bs : List UInt8) : bigEndian bs.length (ofBigEndian bs) = bs :=
  ofBigEndian_inj _ _ (bigEndian_length _ _)
    ((ofBigEndian_bigEndian _ _).trans (Nat.mod_eq_of_lt (ofBigEndian_lt bs)))

theorem Reversed.word {bs : List UInt8} {y : BitVec w}
    (h : Reversed n (BitVec.ofNat w (ofBigEndian bs.reverse)) y) (hw : w = 8 * n)
    (hlen : bs.length = n) : y = BitVec.ofNat w (ofBigEndian bs) := by
  have hpow : 2 ^ w = 256 ^ n := by rw [hw, Nat.pow_mul]
  have hlt : ofBigEndian bs.reverse < 2 ^ w := by
    have hlt := ofBigEndian_lt bs.reverse
    rwa [List.length_reverse, hlen, ← hpow] at hlt
  have hbytes := h.bytes hw
  have hrev := bigEndian_ofBigEndian bs.reverse
  rw [List.length_reverse, hlen] at hrev
  rw [BitVec.toNat_ofNat, Nat.mod_eq_of_lt hlt, hrev, List.reverse_reverse] at hbytes
  rw [← hbytes, ofBigEndian_bigEndian, ← hpow, Nat.mod_eq_of_lt y.isLt, BitVec.ofNat_toNat,
    BitVec.setWidth_eq]

end NodeMcu.Lib.Endian
