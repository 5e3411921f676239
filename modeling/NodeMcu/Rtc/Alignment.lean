import NodeMcu.Rtc.UnitCycles
import Mathlib.Order.Bounds.Basic
import Mathlib.Tactic.ByContra

namespace NodeMcu.Rtc.Alignment

open NodeMcu.Rtc.Clock NodeMcu.Rtc.UnitCycles

/-! ## Multiples -/

/-- The first multiple of a number from a place on. -/
def alignUp (align t : Nat) : Nat := (t + (align - 1)) - (t + (align - 1)) % align

theorem alignUp_isLeast {align : Nat} (h : align ≠ 0) (t : Nat) :
    IsLeast {m | align ∣ m ∧ t ≤ m} (alignUp align t) := by
  have hpos := Nat.pos_of_ne_zero h
  have hmod := Nat.mod_lt (t + (align - 1)) hpos
  refine ⟨⟨Nat.dvd_sub_mod _, ?_⟩, ?_⟩
  · rw [alignUp]
    omega
  · rintro m ⟨⟨k, rfl⟩, hle⟩
    rw [alignUp, ← Nat.div_add_mod (t + (align - 1)) align, Nat.add_mod_mod, Nat.mul_add_mod,
      Nat.add_sub_cancel]
    refine Nat.mul_le_mul_left align (Nat.lt_succ_iff.mp ((Nat.div_lt_iff_lt_mul hpos).mpr ?_))
    rw [Nat.succ_mul, Nat.mul_comm k align]
    omega

/-! ## The time without what is still to be taken off -/

/-- The offset of the time of day does not take part in a read. -/
theorem getNowUsRaw_tod (c : Counters) (s : RtcTime) (x : UInt32) :
    (getNowUsRaw c { s with todOffsetUs := x }).1 = (getNowUsRaw c s).1 := by
  have hoffset : sourceOffset c { s with todOffsetUs := x } =
      ((sourceOffset c s).1, { (sourceOffset c s).2 with todOffsetUs := x }) := by
    have hsource : source { s with todOffsetUs := x } c = source s c := rfl
    rw [sourceOffset, sourceOffset, hsource]
    cases source s c with
    | none => rfl
    | some raw =>
      dsimp only
      split_ifs <;> rfl
  have hunix : (unixUnitcycles c { s with todOffsetUs := x }).1 = (unixUnitcycles c s).1 := by
    rw [unixUnitcycles, unixUnitcycles, hoffset]
    dsimp only
    split_ifs <;> rfl
  have hcheck : checkMagic { s with todOffsetUs := x } = checkMagic s := rfl
  rw [getNowUsRaw, getNowUsRaw, hcheck]
  split_ifs
  · rw [unixUs, unixUs]
    dsimp only
    rw [hunix]
  · rfl

/-- The time without what is still to be taken off. -/
def unadjusted (c : Counters) (s : RtcTime) : Nat := (getNowUsRaw c s).1.toNat

theorem unadjusted_le (c : Counters) (s : RtcTime) : unadjusted c s ≤ (2 ^ 64 - 1) / 2080 :=
  getNowUsRaw_le c s

/-! ## The sleep -/

theorem enterDeepSleepUs_eq (measured us : UInt32) (s : RtcTime) :
    (enterDeepSleepUs measured us s).1 = us ∧
      (enterDeepSleepUs measured us s).2.cycleOffset = s.cycleOffset := by
  refine ⟨rfl, ?_⟩
  have htracking : ∀ (us cycles : UInt32) (t : RtcTime),
      (addSleepTracking us cycles t).cycleOffset = t.cycleOffset := by
    intro us cycles t
    rw [addSleepTracking]
    dsimp only
    split_ifs <;> rfl
  have hcalibration : ∀ t : RtcTime, (getCalibration measured t).2.cycleOffset = t.cycleOffset := by
    intro t
    rw [getCalibration]
    split_ifs <;> rfl
  rw [enterDeepSleepUs]
  dsimp only
  rw [htracking, hcalibration]
  split_ifs <;> rfl

/-- With a known time the sleep ends at the offset's time. -/
theorem deepSleepUs_eq (measured us : UInt32) {c : Counters} {s : RtcTime}
    (hcheck : checkMagic s = true) (hknown : (getNowUsRaw c s).1 ≠ 0) :
    (deepSleepUs measured us c s).1 = us + s.todOffsetUs ∧
      (deepSleepUs measured us c s).2.cycleOffset =
        ((getNowUsRaw c s).1 + (us + s.todOffsetUs).toUInt64) * unitcycleMhz := by
  rw [deepSleepUs, if_pos hcheck]
  dsimp only
  rw [getNowUsRaw_tod, if_neg hknown]
  exact enterDeepSleepUs_eq measured _ _

section Aligned

variable (measured align minSleepUs : UInt32) (c c' : Counters) (s : RtcTime)

def adjusted : Nat := (getNowUsAdjusted c s).1.toNat

/-- The unadjusted time when the sleep begins. -/
def bedtime : Nat := unadjusted c' (getNowUsAdjusted c s).2

/-- The wake-up that is asked for. -/
def wakeup : Nat := alignUp align.toNat (adjusted c s + minSleepUs.toNat)

/-- The sleep from the unadjusted time on ends at the first multiple that is far enough, and this
is the time of the clock behind the sleep. -/
def Aligned : Prop :=
  ∃ m, IsLeast {m | align.toNat ∣ m ∧ adjusted c s + minSleepUs.toNat ≤ m} m ∧
    bedtime c c' s + (deepSleepUntilAligned measured align minSleepUs c c' s).1.toNat = m ∧
    (deepSleepUntilAligned measured align minSleepUs c c' s).2.cycleOffset.toNat = m * 2080

/-- There is an alignment, the wake-up has room in its word, and the time between the two reads is
what the word of the sleep cuts off: nothing for a sleep of less than 2 ^ 32 microseconds. -/
structure Fits : Prop where
  aligned : align ≠ 0
  room : wakeup align minSleepUs c s * 2080 < 2 ^ 64
  cut : bedtime c c' s - unadjusted c s =
    (wakeup align minSleepUs c s - unadjusted c s) / 2 ^ 32 * 2 ^ 32

variable (hknown : 0 < unadjusted c s) (hlater : unadjusted c s ≤ bedtime c c' s)

include hknown in
theorem checkMagic_of_known : checkMagic s = true := by
  by_contra h
  rw [unadjusted, getNowUsRaw, if_neg h] at hknown
  exact Nat.lt_irrefl 0 hknown

include hknown in
theorem getNowUsRaw_ne_zero : (getNowUsRaw c s).1 ≠ 0 := fun h => by
  rw [unadjusted, h] at hknown
  exact Nat.lt_irrefl 0 hknown

include hknown in
theorem adjusted_eq : adjusted c s = unadjusted c s + s.todOffsetUs.toNat := by
  have hle := unadjusted_le c s
  have htod := s.todOffsetUs.toNat_lt
  obtain ⟨base, last, hsame⟩ := getNowUsRaw_same c s
  rw [adjusted, getNowUsAdjusted, if_neg (getNowUsRaw_ne_zero c s hknown), UInt64.toNat_add,
    UInt32.toNat_toUInt64, hsame]
  change (unadjusted c s + s.todOffsetUs.toNat) % 2 ^ 64 = _
  exact Nat.mod_eq_of_lt (by omega)

include hknown in
/-- No step of the alignment leaves its word. -/
theorem aligned_toNat (halign : align ≠ 0) :
    ((getNowUsAdjusted c s).1 + minSleepUs.toUInt64 + (align - 1).toUInt64 -
      ((getNowUsAdjusted c s).1 + minSleepUs.toUInt64 + (align - 1).toUInt64) %
        align.toUInt64).toNat = wakeup align minSleepUs c s := by
  have hadjusted := adjusted_eq c s hknown
  have hle := unadjusted_le c s
  have htod := s.todOffsetUs.toNat_lt
  have hmin := minSleepUs.toNat_lt
  have halignLt := align.toNat_lt
  have hpos : align.toNat ≠ 0 := fun h => halign (UInt32.toNat_inj.mp h)
  have hpred : (align - 1).toNat = align.toNat - 1 :=
    UInt32.toNat_sub_of_le _ _ (UInt32.le_iff_toNat_le.mpr (Nat.one_le_iff_ne_zero.mpr hpos))
  have hthen : ((getNowUsAdjusted c s).1 + minSleepUs.toUInt64).toNat =
      adjusted c s + minSleepUs.toNat := by
    rw [UInt64.toNat_add, UInt32.toNat_toUInt64]
    exact Nat.mod_eq_of_lt (by rw [← adjusted]; omega)
  have hup : ((getNowUsAdjusted c s).1 + minSleepUs.toUInt64 + (align - 1).toUInt64).toNat =
      adjusted c s + minSleepUs.toNat + (align.toNat - 1) := by
    rw [UInt64.toNat_add, hthen, UInt32.toNat_toUInt64, hpred]
    exact Nat.mod_eq_of_lt (by omega)
  rw [UInt64.toNat_sub_of_le, UInt64.toNat_mod, hup, UInt32.toNat_toUInt64, wakeup, alignUp]
  rw [UInt64.le_iff_toNat_le, UInt64.toNat_mod]
  exact Nat.mod_le _ _

theorem le_wakeup (halign : align ≠ 0) :
    adjusted c s + minSleepUs.toNat ≤ wakeup align minSleepUs c s := by
  have hpos : align.toNat ≠ 0 := fun h => halign (UInt32.toNat_inj.mp h)
  exact (alignUp_isLeast hpos _).1.2

include hknown hlater in
/-- What is asked of the hardware, and what is stored. -/
theorem deepSleepUntilAligned_eq (halign : align ≠ 0) :
    (deepSleepUntilAligned measured align minSleepUs c c' s).1.toNat =
        (wakeup align minSleepUs c s - unadjusted c s) % 2 ^ 32 ∧
      (deepSleepUntilAligned measured align minSleepUs c c' s).2.cycleOffset.toNat =
        (bedtime c c' s + (deepSleepUntilAligned measured align minSleepUs c c' s).1.toNat) *
          2080 % 2 ^ 64 := by
  have hadjusted := adjusted_eq c s hknown
  have hwakeup := le_wakeup align minSleepUs c s halign
  have hcutwake := aligned_toNat align minSleepUs c s hknown halign
  have hbedtime := unadjusted_le c' (getNowUsAdjusted c s).2
  obtain ⟨base, last, hsame⟩ := getNowUsRaw_same c s
  have hstate : (getNowUsAdjusted c s).2 =
      { s with cycleOffset := base, lastSourceVal := last } := by
    rw [getNowUsAdjusted_snd, hsame]
  have hcheck : checkMagic (getNowUsAdjusted c s).2 = true := by
    rw [hstate]
    exact checkMagic_of_known c s hknown
  have hlate : (getNowUsRaw c' (getNowUsAdjusted c s).2).1 ≠ 0 :=
    getNowUsRaw_ne_zero c' _ (lt_of_lt_of_le hknown hlater)
  have htod : (getNowUsAdjusted c s).2.todOffsetUs = s.todOffsetUs := by
    rw [hstate]
  obtain ⟨hus, hoffset⟩ := deepSleepUs_eq measured
    ((getNowUsAdjusted c s).1 + minSleepUs.toUInt64 + (align - 1).toUInt64 -
      ((getNowUsAdjusted c s).1 + minSleepUs.toUInt64 + (align - 1).toUInt64) % align.toUInt64 -
        (getNowUsAdjusted c s).1).toUInt32 hcheck hlate
  rw [htod] at hus hoffset
  have hdistance : (getNowUsAdjusted c s).1 ≤
      (getNowUsAdjusted c s).1 + minSleepUs.toUInt64 + (align - 1).toUInt64 -
        ((getNowUsAdjusted c s).1 + minSleepUs.toUInt64 + (align - 1).toUInt64) %
          align.toUInt64 := by
    rw [UInt64.le_iff_toNat_le, hcutwake, ← adjusted]
    omega
  rw [deepSleepUntilAligned]
  dsimp only
  rw [if_neg halign, hoffset, hus]
  constructor
  · rw [UInt32.toNat_add, UInt64.toNat_toUInt32, UInt64.toNat_sub_of_le _ _ hdistance, hcutwake,
      ← adjusted]
    omega
  · rw [UInt64.toNat_mul, UInt64.toNat_add, UInt32.toNat_toUInt64]
    change (bedtime c c' s + _) % 2 ^ 64 * 2080 % 2 ^ 64 = _
    rw [Nat.mod_mul_mod]

include hknown hlater in
/-- The wake-up is the one that was asked for, exactly as long as the word of the sleep cuts off no
more than passes between the two reads. -/
theorem aligned_iff_fits :
    Aligned measured align minSleepUs c c' s ↔ Fits align minSleepUs c c' s := by
  have hadjusted := adjusted_eq c s hknown
  constructor
  · rintro ⟨m, hleast, hbed, hoffset⟩
    have halign : align ≠ 0 := by
      rintro rfl
      have hzero := Nat.eq_zero_of_zero_dvd hleast.1.1
      have hle := hleast.1.2
      omega
    have hpos : align.toNat ≠ 0 := fun h => halign (UInt32.toNat_inj.mp h)
    have hm : m = wakeup align minSleepUs c s :=
      hleast.unique (alignUp_isLeast hpos (adjusted c s + minSleepUs.toNat))
    obtain ⟨hus, -⟩ :=
      deepSleepUntilAligned_eq measured align minSleepUs c c' s hknown hlater halign
    have hle := le_wakeup align minSleepUs c s halign
    have hlt := (deepSleepUntilAligned measured align minSleepUs c c' s).2.cycleOffset.toNat_lt
    rw [hm] at hbed hoffset
    exact ⟨halign, by omega, by omega⟩
  · rintro ⟨halign, hroom, hcut⟩
    have hpos : align.toNat ≠ 0 := fun h => halign (UInt32.toNat_inj.mp h)
    obtain ⟨hus, hoffset⟩ :=
      deepSleepUntilAligned_eq measured align minSleepUs c c' s hknown hlater halign
    have hle := le_wakeup align minSleepUs c s halign
    have hbed : bedtime c c' s + (deepSleepUntilAligned measured align minSleepUs c c' s).1.toNat =
        wakeup align minSleepUs c s := by
      omega
    refine ⟨wakeup align minSleepUs c s, alignUp_isLeast hpos _, hbed, ?_⟩
    rw [hoffset, hbed]
    exact Nat.mod_eq_of_lt hroom

end Aligned

/-- A clock of the year 2001 that is half a second ahead. -/
def ahead : RtcTime := ⟨magicFrc2, 2035068208001000000, 0, 6656, 24576, 0, 0, 500000, 0⟩

/-- A sleep to the next full minute. -/
theorem minute_aligned : Aligned 0 60000000 1000000 ⟨0, 0⟩ ⟨0, 0⟩ ahead :=
  (aligned_iff_fits 0 60000000 1000000 ⟨0, 0⟩ ⟨0, 0⟩ ahead (by decide) (by decide)).mpr
    ⟨by decide, by decide, by decide⟩

/-- With the longest minimum sleep the word of the sleep overflows. -/
theorem longest_not_aligned :
    0 < unadjusted ⟨0, 0⟩ ahead ∧ ¬Aligned 0 60000000 0xffffffff ⟨0, 0⟩ ⟨0, 0⟩ ahead := by
  refine ⟨by decide, ?_⟩
  rintro ⟨m, hleast, hbed, -⟩
  have hshort : bedtime ⟨0, 0⟩ ⟨0, 0⟩ ahead +
      (deepSleepUntilAligned 0 60000000 0xffffffff ⟨0, 0⟩ ⟨0, 0⟩ ahead).1.toNat <
        adjusted ⟨0, 0⟩ ahead + (0xffffffff : UInt32).toNat := by decide
  rw [hbed] at hshort
  exact absurd hleast.1.2 (Nat.not_le.mpr hshort)

end NodeMcu.Rtc.Alignment
