import Mathlib.Algebra.Order.Field.Rat
import Mathlib.Tactic.Linarith
import NodeMcu.Rtc.TimeOfDay

namespace NodeMcu.Rtc.Setting

open NodeMcu.Rtc.Clock NodeMcu.Rtc.UnitCycles NodeMcu.Rtc.TimeOfDay

/-! ## A source that stands still -/

/-- The source shows what it showed at the last access. -/
def Standing (c : Counters) (s : RtcTime) : Prop :=
  ∀ raw, source s c = some raw → s.lastSourceVal = raw

section Standing

variable {c : Counters} {s : RtcTime}

theorem Standing.congr {t : RtcTime} (h : Standing c s) (hmagic : t.magic = s.magic)
    (hlast : t.lastSourceVal = s.lastSourceVal) : Standing c t := by
  intro raw hraw
  rw [hlast]
  refine h raw ?_
  rw [source, ← hmagic]
  exact hraw

theorem sourceOffset_standing (h : Standing c s) : (sourceOffset c s).2 = s := by
  rw [sourceOffset]
  cases hsource : source s c with
  | none => rfl
  | some raw =>
    have hlast := h raw hsource
    have hroll : ¬(raw < s.lastSourceVal ∧ s.cycleOffset ≠ 0) := by
      rw [hlast]
      exact fun hlt => UInt32.lt_irrefl raw hlt.1
    dsimp only
    rw [if_neg hroll, ← hlast]

theorem standing_sourceOffset (c : Counters) (s : RtcTime) : Standing c (sourceOffset c s).2 := by
  intro raw hraw
  cases hsource : source s c with
  | none =>
    rw [sourceOffset, hsource] at hraw
    cases hsource.symm.trans hraw
  | some r =>
    obtain ⟨-, base, hset⟩ := sourceOffset_source hsource
    rw [hset] at hraw ⊢
    exact Option.some.inj (hsource.symm.trans hraw)

theorem getNowUsRaw_standing (hcheck : checkMagic s = true) (h : Standing c s) :
    (getNowUsRaw c s).1 =
      (if s.cycleOffset = 0 then 0 else s.cycleOffset + (sourceOffset c s).1) / unitcycleMhz ∧
    (getNowUsRaw c s).2 = s := by
  rw [getNowUsRaw, if_pos hcheck, unixUs, unixUnitcycles, sourceOffset_standing h]
  split_ifs
  · exact ⟨rfl, rfl⟩
  · exact ⟨rfl, rfl⟩

theorem standing_getNowUsAdjusted (hcheck : checkMagic s = true) (c : Counters) :
    Standing c (getNowUsAdjusted c s).2 := by
  rw [getNowUsAdjusted_snd, getNowUsRaw, if_pos hcheck, unixUs]
  dsimp only
  rw [unixUnitcycles_snd]
  exact standing_sourceOffset c s

end Standing

/-! ## The memory behind a setting -/

/-- The unit cycles since the source was 0. -/
def sourceCycles (c : Counters) (s : RtcTime) : Nat :=
  match source s c with
  | none => 0
  | some raw => raw.toNat * s.sourceCycleUnits.toNat

section Set

variable {c : Counters} {s : RtcTime} {tv : RtcTimeval}

theorem sourceOffset_toNat (c : Counters) (s : RtcTime) :
    (sourceOffset c s).1.toNat = sourceCycles c s := by
  rw [sourceCycles]
  cases hsource : source s c with
  | none =>
    rw [sourceOffset, hsource]
    rfl
  | some raw =>
    rw [(sourceOffset_source hsource).1]
    exact product_toNat raw s.sourceCycleUnits

/-- The memory behind a setting, with the source as before. -/
structure SetTo (tv : RtcTimeval) (c : Counters) (s t : RtcTime) : Prop where
  magic : t.magic = s.magic
  units : t.sourceCycleUnits = s.sourceCycleUnits
  standing : Standing c t
  offset : t.cycleOffset = ntpUs tv * unitcycleMhz - (sourceOffset c s).1
  tod : t.todOffsetUs.toNat = min (shown c s - microseconds tv) (2 ^ 32 - 1)
  calibration : t.calibration =
    (calibrate ((getNowUsAdjusted c s).1 - ntpUs tv) s).calibration

theorem calibrate_calibration (diffUs : UInt64) {s t : RtcTime}
    (hus : t.sleepTotalUs = s.sleepTotalUs) (hcycles : t.sleepTotalCycles = s.sleepTotalCycles)
    (hcali : t.calibration = s.calibration) :
    (calibrate diffUs t).calibration = (calibrate diffUs s).calibration := by
  rw [calibrate, calibrate, hus, hcycles]
  split_ifs
  · dsimp only
    split_ifs
    · rfl
    · exact hcali
  · exact hcali

theorem settimeofday_setTo (tv : RtcTimeval) (c : Counters) (hcheck : checkMagic s = true) :
    SetTo tv c s (settimeofday tv c c s) := by
  have hstanding := standing_getNowUsAdjusted hcheck c
  obtain ⟨base, last, hread⟩ := getNowUsRaw_same c s
  rw [← getNowUsAdjusted_snd] at hread
  have hvalue : (sourceOffset c (getNowUsAdjusted c s).2).1 = (sourceOffset c s).1 := by
    rw [← UInt64.toNat_inj, sourceOffset_toNat, sourceOffset_toNat, hread]
    rfl
  let u : RtcTime := { s with
    cycleOffset := ntpUs tv * unitcycleMhz - (sourceOffset c s).1, lastSourceVal := last }
  obtain ⟨cali, hcali⟩ := calibrate_same ((getNowUsAdjusted c s).1 - ntpUs tv) u
  have hset : ∃ us, settimeofday tv c c s =
      { calibrate ((getNowUsAdjusted c s).1 - ntpUs tv) u with
        sleepTotalUs := 0
        sleepTotalCycles := 0
        todOffsetUs := (takenBack ((getNowUsAdjusted c s).1 - ntpUs tv)).toUInt32
        lastTodUs := us } := by
    rw [settimeofday, if_pos hcheck]
    dsimp only
    rw [sourceOffset_standing hstanding, hvalue, hread]
    exact ⟨_, rfl⟩
  obtain ⟨us, hset⟩ := hset
  have hcalibration := calibrate_calibration ((getNowUsAdjusted c s).1 - ntpUs tv)
    (s := s) (t := u) rfl rfl rfl
  have hshown := shown_lt c s
  have hlt := microseconds_lt tv
  rw [hread] at hstanding
  rw [hcali] at hset hcalibration
  rw [hset]
  refine ⟨rfl, rfl, hstanding.congr rfl rfl, rfl, ?_, hcalibration⟩
  change (takenBack ((getNowUsAdjusted c s).1 - ntpUs tv)).toUInt32.toNat = _
  rw [takenBack_toNat (by rw [← shown]; omega) (by rw [ntpUs_toNat]; omega), ntpUs_toNat,
    ← shown]

/-- The raw time behind a setting. An offset of 0 would say that the time is not known. -/
theorem SetTo.raw {t : RtcTime} (h : SetTo tv c s t) (hcheck : checkMagic s = true) :
    (getNowUsRaw c t).1.toNat =
      if sourceCycles c s = microseconds tv * 2080 then 0 else microseconds tv := by
  have hvalue : (sourceOffset c t).1 = (sourceOffset c s).1 := by
    rw [← UInt64.toNat_inj, sourceOffset_toNat, sourceOffset_toNat, sourceCycles, sourceCycles,
      source, source, h.magic, h.units]
  have hcheck' : checkMagic t = true := by
    rw [← hcheck, checkMagic, checkMagic, checkWakeMagic, checkWakeMagic, h.magic]
  rw [(getNowUsRaw_standing hcheck' h.standing).1, hvalue, h.offset, UInt64.sub_add_cancel,
    ← sourceOffset_toNat, ← ntpUs_cycles]
  by_cases heq : (sourceOffset c s).1 = ntpUs tv * unitcycleMhz
  · rw [heq, UInt64.sub_self, if_pos rfl, if_pos rfl]
    rfl
  · have hne : ntpUs tv * unitcycleMhz - (sourceOffset c s).1 ≠ 0 := by
      intro h0
      have hsum := UInt64.sub_add_cancel (ntpUs tv * unitcycleMhz) (sourceOffset c s).1
      rw [h0, UInt64.zero_add] at hsum
      exact heq hsum
    rw [if_neg hne, if_neg fun h0 => heq (UInt64.toNat_inj.mp h0), UInt64.toNat_div, ntpUs_cycles]
    exact Nat.mul_div_cancel _ (by decide)

theorem SetTo.adjusted {t : RtcTime} (h : SetTo tv c s t) (hcheck : checkMagic s = true) :
    shown c t = if (getNowUsRaw c t).1.toNat = 0 then 0
      else (getNowUsRaw c t).1.toNat + min (shown c s - microseconds tv) (2 ^ 32 - 1) := by
  have hcheck' : checkMagic t = true := by
    rw [← hcheck, checkMagic, checkMagic, checkWakeMagic, checkWakeMagic, h.magic]
  have hle := getNowUsRaw_le c t
  rw [shown, getNowUsAdjusted, (getNowUsRaw_standing hcheck' h.standing).2]
  by_cases h0 : (getNowUsRaw c t).1 = 0
  · have hzero : (getNowUsRaw c t).1.toNat = 0 := by
      rw [h0]
      rfl
    rw [if_pos h0, if_pos hzero]
    rfl
  · have hne : (getNowUsRaw c t).1.toNat ≠ 0 := fun hz => h0 (UInt64.toNat_inj.mp hz)
    rw [if_neg h0, if_neg hne, UInt64.toNat_add, UInt32.toNat_toUInt64, h.tod]
    omega

end Set

/-! ## The calibration -/

section Calibration

variable {c : Counters} {s : RtcTime} {tv : RtcTimeval}

/-- The sleep since the last setting was not too long to be tracked. -/
def Tracked (s : RtcTime) : Prop :=
  0 < s.sleepTotalUs ∧ s.sleepTotalUs < 0xffffffff ∧ 0 < s.sleepTotalCycles ∧
    s.sleepTotalCycles < 0xffffffff

/-- How long the sleep took by the time that is set. -/
def actualSleepUs (tv : RtcTimeval) (c : Counters) (s : RtcTime) : Int :=
  s.sleepTotalUs.toNat - (shown c s - microseconds tv)

def exactCalibration (tv : RtcTimeval) (c : Counters) (s : RtcTime) : ℚ :=
  actualSleepUs tv c s * 4096 / s.sleepTotalCycles.toNat

theorem exactCalibration_mem_iff (hpos : 0 < s.sleepTotalCycles) :
    exactCalibration tv c s ∈ Set.Icc (4 * 4096) (10 * 4096) ↔
      4 * s.sleepTotalCycles.toNat ≤ actualSleepUs tv c s ∧
        actualSleepUs tv c s ≤ 10 * s.sleepTotalCycles.toNat := by
  have hcycles : (0 : ℚ) < s.sleepTotalCycles.toNat :=
    Nat.cast_pos.mpr (UInt32.lt_iff_toNat_lt.mp hpos)
  rw [exactCalibration, Set.mem_Icc, le_div_iff₀ hcycles, div_le_iff₀ hcycles,
    ← Int.cast_le (R := ℚ), ← Int.cast_le (R := ℚ)]
  push_cast
  constructor
  · rintro ⟨hlow, hhigh⟩
    exact ⟨by linarith, by linarith⟩
  · rintro ⟨hlow, hhigh⟩
    exact ⟨by linarith, by linarith⟩

/-- The words see a quotient as `k`: the dividend lost what is above 64 bits, the quotient its
fraction and what is above 32 bits. -/
def SeenAs (n : Int) (d k : Nat) : Prop :=
  ∃ (a : Int) (j : Nat), 0 ≤ n + a * 2 ^ 64 ∧ n + a * 2 ^ 64 < 2 ^ 64 ∧
    (k + j * 2 ^ 32) * d ≤ n + a * 2 ^ 64 ∧ n + a * 2 ^ 64 < (k + j * 2 ^ 32 + 1) * d

theorem seenAs_iff (n : Int) {d k : Nat} (hd : 0 < d) (hk : k < 2 ^ 32) :
    SeenAs n d k ↔ (n % 2 ^ 64).toNat / d % 2 ^ 32 = k := by
  constructor
  · rintro ⟨a, j, h0, h64, hle, hlt⟩
    have hmod : n % 2 ^ 64 = n + a * 2 ^ 64 := by omega
    obtain ⟨m, hm⟩ := Int.eq_ofNat_of_zero_le h0
    rw [hm] at hle hlt
    have hdiv : m / d = k + j * 2 ^ 32 := by
      refine Nat.div_eq_of_lt_le ?_ ?_
      · exact_mod_cast hle
      · exact_mod_cast hlt
    rw [hmod, hm, Int.toNat_natCast, hdiv, Nat.add_mul_mod_self_right]
    exact Nat.mod_eq_of_lt hk
  · intro h
    refine ⟨-(n / 2 ^ 64), (n % 2 ^ 64).toNat / d / 2 ^ 32, by omega, by omega, ?_⟩
    have hmod : n + -(n / 2 ^ 64) * 2 ^ 64 = ((n % 2 ^ 64).toNat : Int) := by omega
    rw [hmod]
    have hquot : k + (n % 2 ^ 64).toNat / d / 2 ^ 32 * 2 ^ 32 = (n % 2 ^ 64).toNat / d := by
      omega
    have hle := Nat.div_mul_le_self (n % 2 ^ 64).toNat d
    have hlt := Nat.lt_div_mul_add (a := (n % 2 ^ 64).toNat) hd
    rw [← Nat.succ_mul] at hlt
    exact ⟨by exact_mod_cast hquot ▸ hle, by exact_mod_cast hquot ▸ hlt⟩

/-- The calibration that a setting computes. -/
def calibrated (diffUs : UInt64) (s : RtcTime) : UInt32 :=
  (((s.sleepTotalUs.toUInt64 - diffUs) <<< 12) / s.sleepTotalCycles.toUInt64).toUInt32

/-- A setting replaces the calibration by one that looks sane, and by no other. -/
theorem calibrate_ne_iff (diffUs : UInt64) (s : RtcTime) :
    (calibrate diffUs s).calibration ≠ s.calibration ↔ Tracked s ∧
      calibrationIsSane (calibrated diffUs s) = true ∧ calibrated diffUs s ≠ s.calibration := by
  rw [calibrate]
  split_ifs with htracked
  · dsimp only
    rw [← calibrated]
    split_ifs with hsane
    · exact ⟨fun hne => ⟨htracked, hsane, hne⟩, fun h => h.2.2⟩
    · exact ⟨fun hne => absurd rfl hne, fun h => absurd h.2.1 hsane⟩
  · exact ⟨fun hne => absurd rfl hne, fun h => absurd h.1 htracked⟩

theorem calibrationIsSane_iff (cali : UInt32) :
    calibrationIsSane cali = true ↔ 4 * 4096 ≤ cali.toNat ∧ cali.toNat ≤ 10 * 4096 := by
  rw [calibrationIsSane, Bool.and_eq_true, decide_eq_true_iff, decide_eq_true_iff,
    UInt32.le_iff_toNat_le, UInt32.le_iff_toNat_le]
  rfl

theorem calibrated_toNat (tv : RtcTimeval) (c : Counters) (s : RtcTime) :
    (calibrated ((getNowUsAdjusted c s).1 - ntpUs tv) s).toNat =
      (actualSleepUs tv c s * 4096 % 2 ^ 64).toNat / s.sleepTotalCycles.toNat % 2 ^ 32 := by
  have hshown := shown_lt c s
  have hlt := microseconds_lt tv
  have hus := s.sleepTotalUs.toNat_lt
  have hslept : ((s.sleepTotalUs.toUInt64 - ((getNowUsAdjusted c s).1 - ntpUs tv)) <<< 12).toNat =
      (actualSleepUs tv c s * 4096 % 2 ^ 64).toNat := by
    rw [UInt64.toNat_shiftLeft, UInt64.toNat_sub, UInt64.toNat_sub, ntpUs_toNat, ← shown,
      UInt32.toNat_toUInt64, actualSleepUs]
    change _ <<< 12 % 2 ^ 64 = _
    rw [Nat.shiftLeft_eq]
    omega
  rw [calibrated, UInt64.toNat_toUInt32, UInt64.toNat_div, hslept, UInt32.toNat_toUInt64]

end Calibration

/-! ## The setting as a whole -/

/-- What is expected of a setting. -/
structure Exact (tv : RtcTimeval) (c : Counters) (s : RtcTime) : Prop where
  raw : (getNowUsRaw c (settimeofday tv c c s)).1.toNat = microseconds tv
  adjusted : (shown c (settimeofday tv c c s) : Int) =
    microseconds tv + min (max (shown c s - microseconds tv) 0) (2 ^ 32 - 1)
  calibration : (settimeofday tv c c s).calibration ≠ s.calibration →
    exactCalibration tv c s ∈ Set.Icc (4 * 4096) (10 * 4096)

/-- The time that is set differs from what stands for a time that is not known. -/
def Told (tv : RtcTimeval) (c : Counters) (s : RtcTime) : Prop :=
  if checkMagic s then
    if microseconds tv = 0 then shown c s = 0 else sourceCycles c s ≠ microseconds tv * 2080
  else microseconds tv = 0

/-- The exact quotient is sane, or what the words see of it is not, or is the calibration that is
stored. -/
def Seen (tv : RtcTimeval) (c : Counters) (s : RtcTime) : Prop :=
  checkMagic s = true → Tracked s →
    exactCalibration tv c s ∈ Set.Icc (4 * 4096) (10 * 4096) ∨
      ∀ k, 4 * 4096 ≤ k → k ≤ 10 * 4096 →
        SeenAs (actualSleepUs tv c s * 4096) s.sleepTotalCycles.toNat k → k = s.calibration.toNat

section Whole

variable {c : Counters} {s : RtcTime} {tv : RtcTimeval}

theorem calibration_iff (hcheck : checkMagic s = true) :
    ((settimeofday tv c c s).calibration ≠ s.calibration →
      exactCalibration tv c s ∈ Set.Icc (4 * 4096) (10 * 4096)) ↔ Seen tv c s := by
  rw [(settimeofday_setTo tv c hcheck).calibration, calibrate_ne_iff, calibrationIsSane_iff]
  have hseen := calibrated_toNat tv c s
  constructor
  · intro h _ htracked
    have hpos := UInt32.lt_iff_toNat_lt.mp htracked.2.2.1
    refine or_iff_not_imp_left.mpr fun hout k hlow hhigh hk => ?_
    have heq := hseen.trans ((seenAs_iff _ hpos (by omega)).mp hk)
    by_contra hne
    exact hout (h ⟨htracked, ⟨by rw [heq]; exact hlow, by rw [heq]; exact hhigh⟩,
      fun hcali => hne (heq.symm.trans (congrArg UInt32.toNat hcali))⟩)
  · rintro h ⟨htracked, ⟨hlow, hhigh⟩, hne⟩
    have hpos := UInt32.lt_iff_toNat_lt.mp htracked.2.2.1
    refine (h hcheck htracked).resolve_right fun hk => hne (UInt32.toNat_inj.mp ?_)
    exact hk _ hlow hhigh ((seenAs_iff _ hpos (UInt32.toNat_lt _)).mpr hseen.symm)

theorem time_iff (hcheck : checkMagic s = true) :
    ((getNowUsRaw c (settimeofday tv c c s)).1.toNat = microseconds tv ∧
      (shown c (settimeofday tv c c s) : Int) =
        microseconds tv + min (max (shown c s - microseconds tv) 0) (2 ^ 32 - 1)) ↔
      Told tv c s := by
  have hset := settimeofday_setTo tv c hcheck
  rw [hset.adjusted hcheck, hset.raw hcheck, Told, if_pos hcheck]
  split_ifs <;> omega

end Whole

/-- A setting does what is expected of it exactly where the time that is set is told from an unknown
one and no other quotient is taken for a sane calibration. -/
theorem settimeofday_exact_iff (tv : RtcTimeval) (c : Counters) (s : RtcTime) :
    Exact tv c s ↔ Told tv c s ∧ Seen tv c s := by
  by_cases hcheck : checkMagic s = true
  · rw [← time_iff hcheck, ← calibration_iff hcheck]
    constructor
    · rintro ⟨hraw, hadjusted, hcalibration⟩
      exact ⟨⟨hraw, hadjusted⟩, hcalibration⟩
    · rintro ⟨⟨hraw, hadjusted⟩, hcalibration⟩
      exact ⟨hraw, hadjusted, hcalibration⟩
  · have hset : settimeofday tv c c s = s := by rw [settimeofday, if_neg hcheck]
    have hraw : (getNowUsRaw c s).1.toNat = 0 := by
      rw [getNowUsRaw, if_neg hcheck]
      rfl
    have hshown : shown c s = 0 := by
      rw [shown, getNowUsAdjusted, if_pos (UInt64.toNat_inj.mp hraw)]
      rfl
    rw [Told, if_neg hcheck]
    constructor
    · rintro ⟨htime, -, -⟩
      rw [hset, hraw] at htime
      exact ⟨htime.symm, fun h => absurd h hcheck⟩
    · rintro ⟨htime, -⟩
      refine ⟨?_, ?_, ?_⟩
      · rw [hset, hraw, htime]
      · rw [hset, hshown, htime]
        rfl
      · rw [hset]
        exact fun h => absurd rfl h

/-- The time is not known, and 1000000 us in 250000 cycles were slept. -/
def sleptUnset : RtcTime :=
  ⟨magicFrc2, 0, 0, frc2Multiplier, 6 * 4096, 1000000, 250000, 0, 0⟩

/-- The first setting after a sleep: its date is taken for a part of the sleep. -/
theorem sleptUnset_not_exact : ¬Exact ⟨1310720000, 0⟩ ⟨0, 0⟩ sleptUnset := by
  intro h
  have hsane := (exactCalibration_mem_iff (by decide)).mp (h.calibration (by decide +kernel))
  exact absurd hsane.2 (by decide +kernel)

end NodeMcu.Rtc.Setting
