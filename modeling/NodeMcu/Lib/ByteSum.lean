import Mathlib.Algebra.BigOperators.Intervals
import Mathlib.Data.Nat.ModEq
import NodeMcu.Lib.Memory

namespace NodeMcu.Lib.ByteSum

open NodeMcu.Lib.Memory

/-- The sum of the bytes at the indices from `a` up to but excluding `b`. -/
def byteSum (m : Mem) (a b : Nat) : Nat := ∑ i ∈ Finset.Ico a b, (m i).toNat

theorem byteSum_of_le (m : Mem) (a b : Nat) (h : b ≤ a) : byteSum m a b = 0 := by
  rw [byteSum, Finset.Ico_eq_empty_of_le h, Finset.sum_empty]

theorem byteSum_split (m : Mem) (a b c : Nat) (hab : a ≤ b) (hbc : b ≤ c) :
    byteSum m a b + byteSum m b c = byteSum m a c :=
  Finset.sum_Ico_consecutive _ hab hbc

theorem byteSum_succ (m : Mem) (a b : Nat) (h : a < b) :
    byteSum m a b = (m a).toNat + byteSum m (a + 1) b :=
  Finset.sum_eq_sum_Ico_succ_bot h _

theorem byteSum_congr (m m' : Mem) (a b : Nat)
    (h : ∀ i : Nat, a ≤ i → i < b → m i = m' i) : byteSum m a b = byteSum m' a b := by
  apply Finset.sum_congr rfl
  intro i hi
  obtain ⟨ha, hb⟩ := Finset.mem_Ico.mp hi
  rw [h i ha hb]

/-- Two ranges with a common end limit: what the first has in front of the second. -/
theorem byteSum_eq_common (m : Mem) (h a b : Nat) (hab : a ≤ b) :
    byteSum m a b = byteSum m a (min h b) + byteSum m (max h a) b := by
  obtain hh | hh := Nat.le_total h a
  · rw [byteSum_of_le m a (min h b) (by omega), Nat.max_eq_right hh, Nat.zero_add]
  · obtain hb | hb := Nat.le_total h b
    · rw [Nat.min_eq_left hb, Nat.max_eq_left hh, byteSum_split m a h b hh hb]
    · rw [Nat.min_eq_right hb, byteSum_of_le m (max h a) b (by omega), Nat.add_zero]

/-- Sums over two ranges agree exactly when the bytes that only one of them covers do. -/
theorem byteSum_modEq_iff (m : Mem) (n h a b e : Nat) (ha : a ≤ e) (hb : b ≤ e) :
    byteSum m a b ≡ byteSum m h e [MOD n] ↔
      byteSum m a (min h b) ≡ byteSum m h a + byteSum m (max (max h a) b) e [MOD n] := by
  obtain hba | hab := Nat.lt_or_ge b a
  · have h1 : max (max h a) b = max h a := by omega
    have h2 : byteSum m h e = byteSum m h a + byteSum m (max h a) e := by
      obtain hh | hh := Nat.le_total h a
      · rw [Nat.max_eq_right hh, byteSum_split m h a e hh ha]
      · rw [Nat.max_eq_left hh, byteSum_of_le m h a hh, Nat.zero_add]
    rw [h1, h2, byteSum_of_le m a b hba.le, byteSum_of_le m a (min h b) (by omega)]
  · have h2 : byteSum m h e =
        byteSum m h a + byteSum m (max (max h a) b) e + byteSum m (max h a) b := by
      obtain hh | hh := Nat.le_total h a
      · rw [Nat.max_eq_right hh, Nat.max_eq_right hab]
        rw [← byteSum_split m h a e hh ha, ← byteSum_split m a b e hab hb]
        omega
      · obtain hhb | hhb := Nat.le_total h b
        · rw [Nat.max_eq_left hh, Nat.max_eq_right hhb, byteSum_of_le m h a hh,
            ← byteSum_split m h b e hhb hb]
          omega
        · rw [Nat.max_eq_left hh, Nat.max_eq_left hhb, byteSum_of_le m h a hh,
            byteSum_of_le m h b hhb]
          omega
    rw [h2, byteSum_eq_common m h a b hab]
    constructor
    · exact fun hm => Nat.ModEq.add_right_cancel' _ hm
    · exact fun hm => hm.add_right _

/-- What the change of one byte does to a sum. -/
theorem byteSum_change (m m' : Mem) (a b j : Nat) (ha : a ≤ j) (hb : j < b)
    (h : ∀ i : Nat, a ≤ i → i < b → i ≠ j → m' i = m i) :
    byteSum m' a b + (m j).toNat = byteSum m a b + (m' j).toNat := by
  have hfront : byteSum m' a j = byteSum m a j :=
    byteSum_congr m' m a j fun i hi hij => h i hi (by omega) (by omega)
  have hback : byteSum m' (j + 1) b = byteSum m (j + 1) b :=
    byteSum_congr m' m (j + 1) b fun i hi hib => h i (by omega) hib (by omega)
  rw [← byteSum_split m' a j b ha hb.le, ← byteSum_split m a j b ha hb.le,
    byteSum_succ m' j b hb, byteSum_succ m j b hb, hfront, hback]
  omega

/-- A sum tells whether one of its bytes has changed, also when it is cut to whole bytes. -/
theorem byteSum_not_modEq (m m' : Mem) (a b j d : Nat) (ha : a ≤ j) (hb : j < b)
    (h : ∀ i : Nat, a ≤ i → i < b → i ≠ j → m' i = m i) (hne : m' j ≠ m j) (hd : 256 ∣ d) :
    ¬ byteSum m a b ≡ byteSum m' a b [MOD d] := by
  intro hm
  have hsum := byteSum_change m m' a b j ha hb h
  have hmod : byteSum m a b + (m' j).toNat ≡ byteSum m a b + (m j).toNat [MOD 256] := by
    rw [← hsum]
    exact (hm.of_dvd hd).symm.add_right _
  have hj := Nat.ModEq.add_left_cancel' _ hmod
  rw [Nat.ModEq, Nat.mod_eq_of_lt (m' j).toNat_lt, Nat.mod_eq_of_lt (m j).toNat_lt] at hj
  exact hne (UInt8.toNat_inj.mp hj)

/-- Complements of two sums agree modulo a divisor of the word size exactly when the sums do. -/
theorem complement_mod_iff (n d a b : Nat) (hn : 0 < n) (hd : d ∣ n) :
    (n - 1 - a % n) % d = (n - 1 - b % n) % d ↔ a ≡ b [MOD d] := by
  have key : ∀ x, (n - 1 - x % n) + x ≡ n - 1 [MOD d] := by
    intro x
    have hx : x % n ≤ n - 1 := Nat.le_sub_one_of_lt (Nat.mod_lt x hn)
    have h1 : (n - 1 - x % n) + x % n = n - 1 := Nat.sub_add_cancel hx
    have h2 : x ≡ x % n [MOD d] := ((Nat.mod_modEq x n).of_dvd hd).symm
    exact (h2.add_left _).trans (by rw [h1])
  constructor
  · intro h
    have hs : (n - 1 - a % n) + a ≡ (n - 1 - b % n) + b [MOD d] := (key a).trans (key b).symm
    exact Nat.ModEq.add_left_cancel h hs
  · intro h
    have hs : (n - 1 - a % n) + a ≡ (n - 1 - b % n) + b [MOD d] := (key a).trans (key b).symm
    exact Nat.ModEq.add_right_cancel h hs

end NodeMcu.Lib.ByteSum
