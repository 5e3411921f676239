import NodeMcu.Rtc.Fifo

namespace NodeMcu.Rtc.Words

open NodeMcu.Rtc.Fifo

/-! ## Bits of words -/

theorem shiftRight_toNat (x k : UInt32) (h : k.toNat < 32) :
    (x >>> k).toNat = x.toNat / 2 ^ k.toNat := by
  rw [UInt32.toNat_shiftRight, Nat.mod_eq_of_lt h, Nat.shiftRight_eq_div_pow]

theorem shiftLeft_toNat (x k : UInt32) (h : k.toNat < 32) :
    (x <<< k).toNat = x.toNat * 2 ^ k.toNat % 2 ^ 32 := by
  rw [UInt32.toNat_shiftLeft, Nat.mod_eq_of_lt h, Nat.shiftLeft_eq]

/-- A mask of the lowest bits. -/
theorem and_toNat (x mask : UInt32) (k : Nat) (h : mask.toNat = 2 ^ k - 1) :
    (x &&& mask).toNat = x.toNat % 2 ^ k := by
  rw [UInt32.toNat_and, h]
  exact Nat.and_two_pow_sub_one_eq_mod x.toNat k

/-! ## The word of the location -/

section Location

variable (first last tagcount : Nat)

theorem location_toNat (hf : first < 256) (hl : last < 256) (ht : tagcount < 256) :
    (location (UInt32.ofNat first) (UInt32.ofNat last) (UInt32.ofNat tagcount)).toNat =
      first + last * 256 + tagcount * 65536 := by
  have h8 : (8 : UInt32).toNat = 8 := rfl
  have h16 : (16 : UInt32).toNat = 16 := rfl
  simp only [location, UInt32.toNat_add, shiftLeft_toNat _ 8 (by decide),
    shiftLeft_toNat _ 16 (by decide), UInt32.toNat_ofNat', h8, h16]
  omega

variable (s : RtcMem) (hf : first < 256) (hl : last < 256) (ht : tagcount < 256)
  (h : s.mem 15 = location (UInt32.ofNat first) (UInt32.ofNat last) (UInt32.ofNat tagcount))
include hf hl ht h

theorem loc_toNat : (rtcMemRead s fifoLocPos).toNat = first + last * 256 + tagcount * 65536 := by
  rw [← location_toNat first last tagcount hf hl ht, ← h]
  rfl

theorem getTagpos_toNat : (getTagpos s).toNat = first := by
  rw [getTagpos, and_toNat _ 0xff 8 rfl, shiftRight_toNat _ 0 (by decide),
    loc_toNat first last tagcount s hf hl ht h]
  change (first + last * 256 + tagcount * 65536) / 2 ^ 0 % 2 ^ 8 = first
  omega

theorem getLast_toNat : (getLast s).toNat = last := by
  rw [getLast, and_toNat _ 0xff 8 rfl, shiftRight_toNat _ 8 (by decide),
    loc_toNat first last tagcount s hf hl ht h]
  change (first + last * 256 + tagcount * 65536) / 2 ^ 8 % 2 ^ 8 = last
  omega

theorem getTagcount_toNat : (getTagcount s).toNat = tagcount := by
  rw [getTagcount, and_toNat _ 0xff 8 rfl, shiftRight_toNat _ 16 (by decide),
    loc_toNat first last tagcount s hf hl ht h]
  change (first + last * 256 + tagcount * 65536) / 2 ^ 16 % 2 ^ 8 = tagcount
  omega

theorem getFirst_toNat : (getFirst s).toNat = first + tagcount := by
  rw [getFirst, UInt32.toNat_add, getTagpos_toNat first last tagcount s hf hl ht h,
    getTagcount_toNat first last tagcount s hf hl ht h]
  omega

end Location

/-! ## Sample entries -/

theorem getValue_toNat (e : UInt32) : (getValue e).toNat = e.toNat % 2 ^ 16 :=
  and_toNat e 0xffff 16 rfl

theorem getDeltat_toNat (e : UInt32) : (getDeltat e).toNat = e.toNat / 2 ^ 16 % 2 ^ 9 := by
  rw [getDeltat, and_toNat _ 0x1ff 9 rfl, shiftRight_toNat _ 16 (by decide)]
  rfl

theorem getDecimals_toNat (e : UInt32) : (getDecimals e).toNat = e.toNat / 2 ^ 25 % 2 ^ 3 := by
  rw [getDecimals, and_toNat _ 0x07 3 rfl, shiftRight_toNat _ 25 (by decide)]
  rfl

theorem getTagindex_toNat (e : UInt32) : (getTagindex e).toNat = e.toNat / 2 ^ 28 % 2 ^ 4 := by
  rw [getTagindex, and_toNat _ 0x0f 4 rfl, shiftRight_toNat _ 28 (by decide)]
  rfl

section Entry

variable (val tagindex decimals deltat : UInt32)

theorem constructEntry_toNat : (constructEntry val tagindex decimals deltat).toNat =
    val.toNat % 2 ^ 16 + deltat.toNat % 2 ^ 9 * 2 ^ 16 + decimals.toNat % 2 ^ 3 * 2 ^ 25 +
      tagindex.toNat % 2 ^ 4 * 2 ^ 28 := by
  have h16 : (16 : UInt32).toNat = 16 := rfl
  have h25 : (25 : UInt32).toNat = 25 := rfl
  have h28 : (28 : UInt32).toNat = 28 := rfl
  simp only [constructEntry, UInt32.toNat_add, shiftLeft_toNat _ 16 (by decide),
    shiftLeft_toNat _ 25 (by decide), shiftLeft_toNat _ 28 (by decide),
    and_toNat _ 0xffff 16 rfl, and_toNat _ 0x1ff 9 rfl, and_toNat _ 0x7 3 rfl,
    and_toNat _ 0xf 4 rfl, h16, h25, h28]
  omega

theorem value_constructEntry :
    getValue (constructEntry val tagindex decimals deltat) = val &&& 0xffff := by
  apply UInt32.toNat_inj.mp
  rw [getValue_toNat, constructEntry_toNat, and_toNat _ 0xffff 16 rfl]
  omega

theorem decimals_constructEntry :
    getDecimals (constructEntry val tagindex decimals deltat) = decimals &&& 7 := by
  apply UInt32.toNat_inj.mp
  rw [getDecimals_toNat, constructEntry_toNat, and_toNat _ 7 3 rfl]
  omega

theorem deltat_constructEntry :
    getDeltat (constructEntry val tagindex decimals deltat) = deltat &&& 0x1ff := by
  apply UInt32.toNat_inj.mp
  rw [getDeltat_toNat, constructEntry_toNat, and_toNat _ 0x1ff 9 rfl]
  omega

theorem tagindex_constructEntry :
    (getTagindex (constructEntry val tagindex decimals deltat)).toNat = tagindex.toNat % 16 := by
  rw [getTagindex_toNat, constructEntry_toNat]
  omega

end Entry

/-! ## Times -/

/-- The time since a reference is more than an entry has room for. -/
def Gap (t refT : UInt32) : Prop := 511 < (t - refT).toNat

instance (t refT : UInt32) : Decidable (Gap t refT) := Nat.decLt _ _

theorem deltaT_gap {t refT : UInt32} (h : Gap t refT) : deltaT t refT = -1 := by
  have : (0x1ff : UInt32) < t - refT := UInt32.lt_iff_toNat_lt.mpr h
  simp only [deltaT, this, if_true]

theorem deltaT_near {t refT : UInt32} (h : ¬Gap t refT) : deltaT t refT = (t - refT).toNat := by
  have : ¬(0x1ff : UInt32) < t - refT := fun hlt => h (UInt32.lt_iff_toNat_lt.mp hlt)
  simp only [deltaT, this, if_false]

theorem deltaT_neg (t refT : UInt32) : deltaT t refT < 0 ↔ Gap t refT := by
  by_cases h : Gap t refT
  · simp [deltaT_gap h, h]
  · simp [deltaT_near h, h]

theorem ofInt_toNat (n : Nat) (h : n < 2 ^ 32) : (UInt32.ofInt n).toNat = n := by
  rw [UInt32.ofInt, UInt32.toNat_ofNat']
  omega

/-- What an entry keeps of a time that it has room for. -/
theorem kept_near {t refT : UInt32} (h : ¬Gap t refT) :
    UInt32.ofInt (deltaT t refT) &&& 0x1ff = t - refT := by
  rw [deltaT_near h]
  apply UInt32.toNat_inj.mp
  rw [Gap] at h
  rw [and_toNat _ 0x1ff 9 rfl, ofInt_toNat _ (UInt32.toNat_lt _)]
  omega

theorem kept_gap {t refT : UInt32} (h : Gap t refT) :
    UInt32.ofInt (deltaT t refT) &&& 0x1ff = 511 := by
  rw [deltaT_gap h]
  decide

end NodeMcu.Rtc.Words
