import NodeMcu.Rtc.UnitCycles
import Mathlib.Order.Basic

namespace NodeMcu.Rtc.TimeOfDay

open NodeMcu.Lib.Run NodeMcu.Rtc.Clock NodeMcu.Rtc.UnitCycles

/-! ## The adjusted time -/

/-- What a read of the adjusted time gives. -/
def shown (c : Counters) (s : RtcTime) : Nat := (getNowUsAdjusted c s).1.toNat

/-- The adjusted time of a number of unit cycles. In the first microsecond the offset does not
count. -/
def adjustedTime (cycles tod : Nat) : Nat :=
  if cycles / 2080 = 0 then 0 else cycles / 2080 + tod

theorem adjustedTime_mono {a b : Nat} (tod : Nat) (h : a ≤ b) :
    adjustedTime a tod ≤ adjustedTime b tod := by
  have hdiv : a / 2080 ≤ b / 2080 := Nat.div_le_div_right h
  rw [adjustedTime, adjustedTime]
  split_ifs <;> omega

/-- The adjusted time at the last access. -/
def clockTime (s : RtcTime) : Nat :=
  if s.cycleOffset = 0 then 0 else adjustedTime (lastUnitcycles s).toNat s.todOffsetUs.toNat

/-- A known time has room in its word until the next read. -/
def Room (c : Counters) (s : RtcTime) : Prop :=
  ∀ raw, source s c = some raw → s.cycleOffset ≠ 0 →
    (lastUnitcycles s).toNat + (raw - s.lastSourceVal).toNat * s.sourceCycleUnits.toNat < 2 ^ 64

/-- Only the offset of the cycles and the last value differ. -/
structure SameTod (s t : RtcTime) : Prop where
  magic : t.magic = s.magic
  tod : t.todOffsetUs = s.todOffsetUs
  last : t.lastTodUs = s.lastTodUs

section Read

variable {c : Counters} {s : RtcTime}

theorem exists_source (hwake : checkWakeMagic s = true) (c : Counters) :
    ∃ raw, source s c = some raw := by
  rw [checkWakeMagic, Bool.or_eq_true, beq_iff_eq, beq_iff_eq] at hwake
  rw [source]
  obtain h | h := hwake
  · have hne : s.magic ≠ magicCcount := by
      rw [h]
      decide
    exact ⟨c.frc2, by rw [if_neg hne, if_pos h]⟩
  · exact ⟨c.ccount, by rw [if_pos h]⟩

theorem sameTod_read : SameTod s (getNowUsAdjusted c s).2 := by
  obtain ⟨base, last, hsame⟩ := getNowUsRaw_same c s
  rw [getNowUsAdjusted_snd, hsame]
  exact ⟨rfl, rfl, rfl⟩

/-- A read gives the time of the access, which is not before the last one. -/
theorem shown_eq (hwake : checkWakeMagic s = true) (hroom : Room c s) :
    shown c s = clockTime (getNowUsAdjusted c s).2 ∧ clockTime s ≤ shown c s := by
  obtain ⟨raw, hsource⟩ := exists_source hwake c
  have hcheck : checkMagic s = true := by
    rw [checkMagic, hwake]
    rfl
  obtain ⟨-, htod, -⟩ := sameTod_read (c := c) (s := s)
  have hsnd : (getNowUsAdjusted c s).2 = (unixUnitcycles c s).2 := by
    rw [getNowUsAdjusted_snd, getNowUsRaw, if_pos hcheck]
    rfl
  by_cases hknown : s.cycleOffset = 0
  · have hoffset : (unixUnitcycles c s).2.cycleOffset = 0 := by
      rw [unixUnitcycles_snd, sourceOffset, hsource]
      dsimp only
      rw [if_neg fun h => h.2 hknown]
      exact hknown
    have hzero : (getNowUsRaw c s).1 = 0 := by
      rw [getNowUsRaw, if_pos hcheck, unixUs]
      dsimp only
      rw [unixUnitcycles, if_pos (by rw [← unixUnitcycles_snd]; exact hoffset)]
      exact (by decide : (0 : UInt64) / unitcycleMhz = 0)
    have hshown : shown c s = 0 := by
      rw [shown, getNowUsAdjusted, if_pos hzero]
      rfl
    rw [hshown, clockTime, clockTime, hsnd, if_pos hoffset, if_pos hknown]
    exact ⟨rfl, Nat.le_refl 0⟩
  · obtain ⟨hread, htime⟩ := unixUnitcycles_readTo hsource hknown (hroom raw hsource hknown)
    have hcycles : (getNowUsRaw c s).1.toNat =
        (lastUnitcycles (unixUnitcycles c s).2).toNat / 2080 := by
      rw [getNowUsRaw, if_pos hcheck, unixUs]
      dsimp only
      rw [htime, UInt64.toNat_div]
      rfl
    have hlt := (lastUnitcycles (unixUnitcycles c s).2).toNat_lt
    have htodLt := s.todOffsetUs.toNat_lt
    have hshown : shown c s = adjustedTime (lastUnitcycles (unixUnitcycles c s).2).toNat
        s.todOffsetUs.toNat := by
      rw [shown, getNowUsAdjusted, adjustedTime, ← hcycles]
      by_cases hzero : (getNowUsRaw c s).1 = 0
      · rw [if_pos hzero, hzero]
        rfl
      · have hne : (getNowUsRaw c s).1.toNat ≠ 0 := fun h => hzero (UInt64.toNat_inj.mp h)
        rw [if_neg hzero, if_neg hne, UInt64.toNat_add, UInt32.toNat_toUInt64,
          ← getNowUsAdjusted_snd, htod]
        exact Nat.mod_eq_of_lt (by omega)
    rw [clockTime, clockTime, hsnd, if_neg hread.known, if_neg hknown, ← hsnd, htod, hsnd, hshown]
    refine ⟨rfl, adjustedTime_mono _ ?_⟩
    rw [hread.time]
    exact Nat.le_add_right _ _

end Read

/-! ## The calls -/

inductive Call
  | get (c : Counters)
  | set (tv : RtcTimeval) (c c' : Counters)

def microseconds (tv : RtcTimeval) : Nat := tv.tvSec.toNat * 1000000 + tv.tvUsec.toNat

def apply (s : RtcTime) : Call → RtcTime
  | .get c => (gettimeofday c s).2
  | .set tv c c' => settimeofday tv c c' s

/-- What a `gettimeofday` takes off the offset behind the time that it gives. -/
def taken (c : Counters) (s : RtcTime) : Nat :=
  let r := getNowUsAdjusted c s
  if r.1 = 0 then 0
  else (slew r.2.todOffsetUs (usSinceTimeReached (r.1 % 1000000).toUInt32 r.2)).toNat

/-- The clock with the time that was given last, and with the microseconds that were taken off
behind it and that the clock has not passed since. -/
structure Watched where
  clock : RtcTime
  reached : Nat
  owed : Nat

def step (w : Watched) (call : Call) : Watched :=
  match call with
  | .get c =>
    ⟨(gettimeofday c w.clock).2, microseconds (gettimeofday c w.clock).1, taken c w.clock⟩
  | .set tv c c' =>
    ⟨settimeofday tv c c' w.clock, w.reached,
      w.owed - (max (shown c w.clock) (microseconds tv) - clockTime w.clock)⟩

/-- No time that is given is before the one given last. -/
def Forward (w : Watched) : Call → Prop
  | .get c => w.reached ≤ microseconds (gettimeofday c w.clock).1
  | .set _ _ _ => True

/-- The seconds have room in their word. A setting takes the clock back by less than 2 ^ 32
microseconds, and it does not make the time unknown: it is not 0, and not what the source shows. -/
def Fits (w : Watched) : Call → Prop
  | .get c => Room c w.clock ∧ shown c w.clock < 2 ^ 32 * 1000000
  | .set tv c c' => Room c w.clock ∧ shown c w.clock - microseconds tv < 2 ^ 32 ∧
      0 < microseconds tv ∧
      ∀ raw, source w.clock c' = some raw →
        microseconds tv * 2080 ≠ raw.toNat * w.clock.sourceCycleUnits.toNat

/-- When the next time is given, the clock has passed what was taken off behind the last one. -/
def Enough (w : Watched) : Call → Prop
  | .get c => w.owed ≤ shown c w.clock - clockTime w.clock
  | .set _ _ _ => True

instance (w : Watched) : (call : Call) → Decidable (Forward w call)
  | .get c => inferInstanceAs (Decidable (w.reached ≤ microseconds (gettimeofday c w.clock).1))
  | .set _ _ _ => inferInstanceAs (Decidable True)

instance (w : Watched) : (call : Call) → Decidable (Enough w call)
  | .get c => inferInstanceAs (Decidable (w.owed ≤ shown c w.clock - clockTime w.clock))
  | .set _ _ _ => inferInstanceAs (Decidable True)

/-! ## What a call does -/

section Get

variable {c : Counters} {s : RtcTime}

theorem gettimeofday_time (h : shown c s < 2 ^ 32 * 1000000) :
    microseconds (gettimeofday c s).1 = shown c s := by
  have hdiv := Nat.div_add_mod (shown c s) 1000000
  rw [microseconds, gettimeofday]
  dsimp only
  rw [UInt64.toNat_toUInt32, UInt64.toNat_toUInt32, UInt64.toNat_div, UInt64.toNat_mod, ← shown]
  change shown c s / 1000000 % 2 ^ 32 * 1000000 + shown c s % 1000000 % 2 ^ 32 = shown c s
  omega

theorem slew_le (toAdjust usPassed : UInt32) : (slew toAdjust usPassed).toNat ≤ toAdjust.toNat := by
  rw [slew]
  split_ifs with h
  · exact Nat.le_refl _
  · exact Nat.not_lt.mp fun hlt => h (UInt32.lt_iff_toNat_lt.mpr hlt)

/-- A time that is not 0 is the one of the clock with its offset. -/
theorem clockTime_pos {t : RtcTime} (h : clockTime t ≠ 0) :
    t.cycleOffset ≠ 0 ∧ (lastUnitcycles t).toNat / 2080 ≠ 0 ∧
      clockTime t = (lastUnitcycles t).toNat / 2080 + t.todOffsetUs.toNat := by
  rw [clockTime] at h ⊢
  by_cases hknown : t.cycleOffset = 0
  · rw [if_pos hknown] at h
    exact absurd rfl h
  · rw [if_neg hknown] at h ⊢
    rw [adjustedTime] at h ⊢
    by_cases hzero : (lastUnitcycles t).toNat / 2080 = 0
    · rw [if_pos hzero] at h
      exact absurd rfl h
    · exact ⟨hknown, hzero, if_neg hzero⟩

/-- A clock in its first microsecond shows 0 with every offset. -/
theorem clockTime_eq_zero {t u : RtcTime} (h : clockTime t = 0)
    (hoffset : u.cycleOffset = t.cycleOffset) (hlast : lastUnitcycles u = lastUnitcycles t) :
    clockTime u = 0 := by
  rw [clockTime, adjustedTime] at h ⊢
  rw [hoffset, hlast]
  split_ifs at h ⊢ with h1 h2
  · rfl
  · rfl
  · omega

theorem clockTime_with {t u : RtcTime} (hknown : t.cycleOffset ≠ 0)
    (hpos : (lastUnitcycles t).toNat / 2080 ≠ 0) (hoffset : u.cycleOffset = t.cycleOffset)
    (hlast : lastUnitcycles u = lastUnitcycles t) :
    clockTime u = (lastUnitcycles t).toNat / 2080 + u.todOffsetUs.toNat := by
  rw [clockTime, adjustedTime, hoffset, hlast, if_neg hknown, if_neg hpos]

/-- Where the offset is 0 nothing is taken off it. -/
theorem gettimeofday_snd (c : Counters) (s : RtcTime) :
    (gettimeofday c s).2.magic = (getNowUsAdjusted c s).2.magic ∧
    (gettimeofday c s).2.cycleOffset = (getNowUsAdjusted c s).2.cycleOffset ∧
    lastUnitcycles (gettimeofday c s).2 = lastUnitcycles (getNowUsAdjusted c s).2 ∧
    (gettimeofday c s).2.todOffsetUs = (getNowUsAdjusted c s).2.todOffsetUs -
      slew (getNowUsAdjusted c s).2.todOffsetUs (usSinceTimeReached
        ((getNowUsAdjusted c s).1 % 1000000).toUInt32 (getNowUsAdjusted c s).2) := by
  rw [gettimeofday]
  dsimp only
  rw [registerTimeReached]
  split_ifs with h
  · have hslew : ∀ x, slew 0 x = 0 := fun x =>
      UInt32.toNat_inj.mp (Nat.le_zero.mp (slew_le 0 x))
    rw [h, hslew, UInt32.sub_zero]
    exact ⟨rfl, rfl, rfl, rfl⟩
  · exact ⟨rfl, rfl, rfl, rfl⟩

/-- The clock is behind the time that was given by what was taken off. -/
theorem gettimeofday_clock (hwake : checkWakeMagic s = true) (hroom : Room c s) :
    clockTime (gettimeofday c s).2 = shown c s - taken c s ∧ taken c s ≤ shown c s ∧
      checkWakeMagic (gettimeofday c s).2 = true := by
  obtain ⟨hshown, -⟩ := shown_eq hwake hroom
  obtain ⟨hmagic, hoffset, hlast, htod⟩ := gettimeofday_snd c s
  have hwake' : checkWakeMagic (gettimeofday c s).2 = true := by
    rw [← hwake, checkWakeMagic, checkWakeMagic, hmagic, sameTod_read.magic]
  rw [taken]
  by_cases hzero : (getNowUsAdjusted c s).1 = 0
  · have h0 : shown c s = 0 := by
      rw [shown, hzero]
      rfl
    rw [if_pos hzero, Nat.sub_zero, h0]
    rw [h0] at hshown
    exact ⟨clockTime_eq_zero hshown.symm hoffset hlast, Nat.le_refl 0, hwake'⟩
  · have hne : shown c s ≠ 0 := fun h => hzero (UInt64.toNat_inj.mp h)
    rw [hshown] at hne
    obtain ⟨hknown, hpos, htime⟩ := clockTime_pos hne
    have hslew := slew_le (getNowUsAdjusted c s).2.todOffsetUs (usSinceTimeReached
      ((getNowUsAdjusted c s).1 % 1000000).toUInt32 (getNowUsAdjusted c s).2)
    rw [if_neg hzero, hshown, htime, clockTime_with hknown hpos hoffset hlast, htod,
      UInt32.toNat_sub_of_le _ _ (UInt32.le_iff_toNat_le.mpr hslew)]
    exact ⟨by omega, by omega, hwake'⟩

end Get

/-! ## Setting the time -/

section Set

variable {c c' : Counters} {s : RtcTime} {tv : RtcTimeval}

theorem signed_sub {a b : UInt64} (ha : a.toNat < 2 ^ 63) (hb : b.toNat < 2 ^ 63) :
    signed (a - b) = a.toNat - b.toNat := by
  have hcast : ((a - b).toNat : Int) =
      ((a.toNat : Int) - b.toNat) % ((2 ^ 64 : Nat) : Int) := by
    rw [UInt64.toNat_sub]
    omega
  have hle : Int.bmod ((a.toNat : Int) - b.toNat) (2 ^ 64) = (a.toNat : Int) - b.toNat :=
    Int.bmod_eq_of_le (by omega) (by omega)
  exact (congrArg (fun x => Int.bmod x (2 ^ 64)) hcast).trans ((Int.emod_bmod _ _).trans hle)

theorem microseconds_lt (tv : RtcTimeval) : microseconds tv < 2 ^ 52 := by
  have hsec := tv.tvSec.toNat_lt
  have husec := tv.tvUsec.toNat_lt
  rw [microseconds]
  omega

theorem shown_lt (c : Counters) (s : RtcTime) : shown c s < 2 ^ 54 := by
  have hle := getNowUsRaw_le c s
  have htod := (getNowUsRaw c s).2.todOffsetUs.toNat_lt
  rw [shown, getNowUsAdjusted]
  split_ifs
  · exact Nat.two_pow_pos 54
  · rw [UInt64.toNat_add, UInt32.toNat_toUInt64]
    omega

/-- The time of a setting in microseconds, as a word. -/
def ntpUs (tv : RtcTimeval) : UInt64 := tv.tvSec.toUInt64 * 1000000 + tv.tvUsec.toUInt64

theorem ntpUs_toNat (tv : RtcTimeval) : (ntpUs tv).toNat = microseconds tv := by
  have hlt := microseconds_lt tv
  have hsec := tv.tvSec.toNat_lt
  rw [microseconds] at hlt ⊢
  rw [ntpUs, UInt64.toNat_add, UInt64.toNat_mul, UInt32.toNat_toUInt64, UInt32.toNat_toUInt64]
  change (tv.tvSec.toNat * 1000000 % 2 ^ 64 + tv.tvUsec.toNat) % 2 ^ 64 = _
  omega

theorem ntpUs_cycles (tv : RtcTimeval) :
    (ntpUs tv * unitcycleMhz).toNat = microseconds tv * 2080 := by
  have hlt := microseconds_lt tv
  rw [UInt64.toNat_mul, ntpUs_toNat]
  change microseconds tv * 2080 % 2 ^ 64 = _
  omega

/-- How far a setting takes the clock back, as far as a word holds it. -/
def takenBack (diffUs : UInt64) : UInt64 :=
  if 0 < signed diffUs then (if 0xffffffff < diffUs then 0xffffffff else diffUs) else 0

theorem takenBack_toNat {a b : UInt64} (ha : a.toNat < 2 ^ 63) (hb : b.toNat < 2 ^ 63) :
    (takenBack (a - b)).toUInt32.toNat = min (a.toNat - b.toNat) (2 ^ 32 - 1) := by
  rw [takenBack, signed_sub ha hb]
  split_ifs with hpos hlarge
  · have hle : b.toNat ≤ a.toNat := by omega
    have hlarge := UInt64.lt_iff_toNat_lt.mp hlarge
    rw [UInt64.toNat_sub_of_le _ _ (UInt64.le_iff_toNat_le.mpr hle)] at hlarge
    change 4294967295 < a.toNat - b.toNat at hlarge
    change 4294967295 = _
    omega
  · have hle : b.toNat ≤ a.toNat := by omega
    have hsmall : ¬4294967295 < (a - b).toNat := fun h => hlarge (UInt64.lt_iff_toNat_lt.mpr h)
    rw [UInt64.toNat_sub_of_le _ _ (UInt64.le_iff_toNat_le.mpr hle)] at hsmall
    rw [UInt64.toNat_toUInt32, UInt64.toNat_sub_of_le _ _ (UInt64.le_iff_toNat_le.mpr hle)]
    omega
  · change 0 = _
    omega

theorem calibrate_same (diffUs : UInt64) (s : RtcTime) :
    ∃ cali, calibrate diffUs s = { s with calibration := cali } := by
  rw [calibrate]
  split_ifs
  · dsimp only
    split_ifs
    · exact ⟨_, rfl⟩
    · exact ⟨s.calibration, rfl⟩
  · exact ⟨s.calibration, rfl⟩

theorem sourceOffset_source {raw : UInt32} (hsource : source s c = some raw) :
    (sourceOffset c s).1 = raw.toUInt64 * s.sourceCycleUnits.toUInt64 ∧
      ∃ base, (sourceOffset c s).2 = { s with cycleOffset := base, lastSourceVal := raw } := by
  rw [sourceOffset, hsource]
  dsimp only
  split_ifs
  · exact ⟨rfl, _, rfl⟩
  · exact ⟨rfl, s.cycleOffset, rfl⟩

/-- A setting puts the source at the time that is set. -/
theorem settimeofday_set (tv : RtcTimeval) (c : Counters) (hcheck : checkMagic s = true)
    {raw : UInt32} (hsource : source s c' = some raw) :
    (settimeofday tv c c' s).magic = s.magic ∧
    (settimeofday tv c c' s).cycleOffset = ntpUs tv * unitcycleMhz -
      raw.toUInt64 * s.sourceCycleUnits.toUInt64 ∧
    lastUnitcycles (settimeofday tv c c' s) = ntpUs tv * unitcycleMhz ∧
    (settimeofday tv c c' s).todOffsetUs =
      (takenBack ((getNowUsAdjusted c s).1 - ntpUs tv)).toUInt32 := by
  obtain ⟨base, last, hread⟩ := getNowUsRaw_same c s
  rw [← getNowUsAdjusted_snd] at hread
  have hsource' : source (getNowUsAdjusted c s).2 c' = some raw := by
    rw [hread]
    exact hsource
  obtain ⟨hvalue, base', hset⟩ := sourceOffset_source hsource'
  rw [hread] at hvalue
  obtain ⟨cali, hcali⟩ := calibrate_same ((getNowUsAdjusted c s).1 - ntpUs tv)
    { (sourceOffset c' (getNowUsAdjusted c s).2).2 with
      cycleOffset := ntpUs tv * unitcycleMhz - (sourceOffset c' (getNowUsAdjusted c s).2).1 }
  have heq : ∃ us, settimeofday tv c c' s = registerTimeReached us
      { calibrate ((getNowUsAdjusted c s).1 - ntpUs tv)
          { (sourceOffset c' (getNowUsAdjusted c s).2).2 with
            cycleOffset := ntpUs tv * unitcycleMhz -
              (sourceOffset c' (getNowUsAdjusted c s).2).1 } with
        sleepTotalUs := 0
        sleepTotalCycles := 0
        todOffsetUs := (takenBack ((getNowUsAdjusted c s).1 - ntpUs tv)).toUInt32 } := by
    rw [settimeofday, if_pos hcheck]
    exact ⟨_, rfl⟩
  obtain ⟨us, heq⟩ := heq
  rw [heq, hcali, registerTimeReached, hset, hread, hvalue]
  exact ⟨rfl, rfl, UInt64.sub_add_cancel _ _, rfl⟩

/-- The clock behind a setting: it does not go back. -/
theorem settimeofday_clock (hwake : checkWakeMagic s = true)
    (hback : shown c s - microseconds tv < 2 ^ 32) (hpos : 0 < microseconds tv)
    (hoffset : ∀ raw, source s c' = some raw →
      microseconds tv * 2080 ≠ raw.toNat * s.sourceCycleUnits.toNat) :
    clockTime (settimeofday tv c c' s) = max (shown c s) (microseconds tv) ∧
      checkWakeMagic (settimeofday tv c c' s) = true := by
  obtain ⟨raw, hsource⟩ := exists_source hwake c'
  have hcheck : checkMagic s = true := by
    rw [checkMagic, hwake]
    rfl
  obtain ⟨hmagic, hknown, hlast, htod⟩ := settimeofday_set tv c hcheck hsource
  have hshown := shown_lt c s
  have htv := microseconds_lt tv
  have hne : (settimeofday tv c c' s).cycleOffset ≠ 0 := by
    rw [hknown]
    intro hzero
    refine hoffset raw hsource ?_
    rw [← ntpUs_cycles, ← product_toNat]
    have hsum := UInt64.sub_add_cancel (ntpUs tv * unitcycleMhz)
      (raw.toUInt64 * s.sourceCycleUnits.toUInt64)
    rw [hzero, UInt64.zero_add] at hsum
    exact congrArg UInt64.toNat hsum.symm
  have hdiv : (lastUnitcycles (settimeofday tv c c' s)).toNat / 2080 = microseconds tv := by
    rw [hlast, ntpUs_cycles]
    exact Nat.mul_div_cancel _ (by decide)
  have htod' : (settimeofday tv c c' s).todOffsetUs.toNat = shown c s - microseconds tv := by
    rw [htod, takenBack_toNat (by rw [← shown]; omega) (by rw [ntpUs_toNat]; omega),
      ntpUs_toNat, ← shown]
    omega
  have hmagic' : checkWakeMagic (settimeofday tv c c' s) = true := by
    rw [← hwake, checkWakeMagic, checkWakeMagic, hmagic]
  refine ⟨?_, hmagic'⟩
  rw [clockTime, if_neg hne, adjustedTime, hdiv, htod', if_neg (by omega)]
  omega

end Set

/-! ## Runs of calls -/

/-- The time that was given last is not after the clock with what is owed. -/
structure Inv (w : Watched) : Prop where
  wake : checkWakeMagic w.clock = true
  le : w.reached ≤ clockTime w.clock + w.owed
  owed : 0 < w.owed → w.reached = clockTime w.clock + w.owed

/-- Without time keeping the time is 0. -/
structure Off (w : Watched) : Prop where
  off : checkMagic w.clock = false
  reached : w.reached = 0
  owed : w.owed = 0

theorem inv_step {w : Watched} {call : Call} (h : Inv w) (hfits : Fits w call)
    (hforward : Forward w call) : Inv (step w call) := by
  obtain ⟨hwake, hle, howed⟩ := h
  cases call with
  | get c =>
    obtain ⟨hroom, hsec⟩ := hfits
    obtain ⟨hclock, htaken, hmagic⟩ := gettimeofday_clock hwake hroom
    have htime := gettimeofday_time hsec
    refine ⟨hmagic, ?_, fun _ => ?_⟩
    · change microseconds (gettimeofday c w.clock).1 ≤
        clockTime (gettimeofday c w.clock).2 + taken c w.clock
      omega
    · change microseconds (gettimeofday c w.clock).1 =
        clockTime (gettimeofday c w.clock).2 + taken c w.clock
      omega
  | set tv c c' =>
    obtain ⟨hroom, hback, hpos, hoffset⟩ := hfits
    obtain ⟨hclock, hmagic⟩ := settimeofday_clock hwake hback hpos hoffset
    have hmono := (shown_eq hwake hroom).2
    refine ⟨hmagic, ?_, fun hlt => ?_⟩
    · change w.reached ≤ clockTime (settimeofday tv c c' w.clock) +
        (w.owed - (max (shown c w.clock) (microseconds tv) - clockTime w.clock))
      omega
    · change 0 < w.owed - (max (shown c w.clock) (microseconds tv) - clockTime w.clock) at hlt
      change w.reached = clockTime (settimeofday tv c c' w.clock) +
        (w.owed - (max (shown c w.clock) (microseconds tv) - clockTime w.clock))
      omega

/-- Nothing is read and nothing is taken off. -/
theorem getNowUsAdjusted_off {s : RtcTime} (hoff : checkMagic s = false) (c : Counters) :
    getNowUsAdjusted c s = (0, s) := by
  have hraw : getNowUsRaw c s = (0, s) := by
    rw [getNowUsRaw, hoff]
    rfl
  rw [getNowUsAdjusted, hraw]
  rfl

theorem off_step {w : Watched} {call : Call} (h : Off w) :
    Off (step w call) ∧ Forward w call ∧ Enough w call := by
  obtain ⟨hoff, hreached, howed⟩ := h
  cases call with
  | get c =>
    have hread := getNowUsAdjusted_off hoff c
    have htime : microseconds (gettimeofday c w.clock).1 = 0 := by
      rw [gettimeofday, hread]
      exact (by decide : microseconds ⟨((0 : UInt64) / 1000000).toUInt32,
        ((0 : UInt64) % 1000000).toUInt32⟩ = 0)
    have hmagic : (gettimeofday c w.clock).2.magic = w.clock.magic := by
      rw [(gettimeofday_snd c w.clock).1, hread]
    refine ⟨⟨?_, htime, ?_⟩, ?_, ?_⟩
    · rw [← hoff, checkMagic, checkMagic, checkWakeMagic, checkWakeMagic]
      change (((gettimeofday c w.clock).2.magic == magicFrc2 ||
        (gettimeofday c w.clock).2.magic == magicCcount) ||
          (gettimeofday c w.clock).2.magic == magicSleep) = _
      rw [hmagic]
    · change taken c w.clock = 0
      rw [taken, hread]
      rfl
    · rw [Forward, hreached]
      exact Nat.zero_le _
    · rw [Enough, howed]
      exact Nat.zero_le _
  | set tv c c' =>
    have hset : settimeofday tv c c' w.clock = w.clock := by
      rw [settimeofday, hoff]
      rfl
    refine ⟨⟨?_, hreached, ?_⟩, trivial, trivial⟩
    · rw [← hoff, ← hset]
      rfl
    · change w.owed - _ = 0
      rw [howed, Nat.zero_sub]

theorem forward_iff_enough {w : Watched} {call : Call} (h : Inv w) (hfits : Fits w call) :
    Forward w call ↔ Enough w call := by
  obtain ⟨hwake, hle, howed⟩ := h
  cases call with
  | get c =>
    obtain ⟨hroom, hsec⟩ := hfits
    have htime := gettimeofday_time hsec
    have hmono := (shown_eq hwake hroom).2
    rw [Forward, Enough, htime]
    omega
  | set tv c c' => exact Iff.rfl

/-- The times that are given never go back, exactly as long as the clock has always passed what was
taken off behind the last one. -/
theorem forward_iff (s : RtcTime) (hsleep : s.magic ≠ magicSleep) (calls : List Call)
    (hfits : Along step Fits ⟨s, 0, 0⟩ calls) :
    Along step Forward ⟨s, 0, 0⟩ calls ↔ Along step Enough ⟨s, 0, 0⟩ calls := by
  have hstart : Inv ⟨s, 0, 0⟩ ∨ Off ⟨s, 0, 0⟩ := by
    by_cases hwake : checkWakeMagic s = true
    · exact .inl ⟨hwake, Nat.zero_le _, fun h => absurd h (Nat.lt_irrefl 0)⟩
    · refine .inr ⟨?_, rfl, rfl⟩
      rw [checkMagic, Bool.eq_false_iff.mpr hwake, beq_eq_false_iff_ne.mpr hsleep]
      rfl
  refine along_congr_of step Fits Forward Enough (fun w => Inv w ∨ Off w) ?_ ?_ ⟨s, 0, 0⟩ calls
    hstart hfits
  · rintro w call (h | h) hc
    · exact forward_iff_enough h hc
    · exact iff_of_true (off_step h).2.1 (off_step h).2.2
  · rintro w call (h | h) hc hf
    · exact .inl (inv_step h hc hf)
    · exact .inr (off_step h).1

/-- Two seconds past the start, with counter 2 at 0. -/
def started : RtcTime :=
  ⟨magicFrc2, 2000000 * unitcycleMhz, 0, frc2Multiplier, 0, 0, 0, 0, 0⟩

/-- The clock is set back by a second and read after half a second and at the value `last`. -/
def setBack (last : UInt32) : List Call :=
  [.set ⟨1, 0⟩ ⟨0, 0⟩ ⟨0, 0⟩, .get ⟨0, 156250⟩, .get ⟨0, last⟩]

theorem setBack_fits (last : UInt32) (hlast : last = 156251 ∨ last = 166250) :
    Along step Fits ⟨started, 0, 0⟩ (setBack last) := by
  have hsource : ∀ {s : RtcTime} {c : Counters} {raw : UInt32}, s.magic = magicFrc2 →
      source s c = some raw → raw = c.frc2 := by
    intro s c raw hmagic h
    rw [source, if_neg (by rw [hmagic]; decide), if_pos hmagic] at h
    exact (Option.some.inj h).symm
  refine ⟨⟨fun raw h _ => ?_, by decide, by decide, fun raw h => ?_⟩,
    ⟨fun raw h _ => ?_, by decide⟩, ⟨fun raw h _ => ?_, ?_⟩, trivial⟩
  · rw [hsource rfl h]
    decide
  · rw [hsource rfl h]
    decide
  · rw [hsource rfl h]
    decide
  · rw [hsource rfl h]
    rcases hlast with rfl | rfl <;> decide
  · rcases hlast with rfl | rfl <;> decide

/-- A clock that is read a tick after it was read goes back. -/
theorem not_forward : ∃ s calls, s.magic ≠ magicSleep ∧ Along step Fits ⟨s, 0, 0⟩ calls ∧
    ¬Along step Forward ⟨s, 0, 0⟩ calls :=
  ⟨started, setBack 156251, by decide, setBack_fits _ (.inl rfl),
    fun h => absurd h.2.2.1 (by decide)⟩

/-- A clock that has passed what was taken off goes on. -/
theorem setBack_forward : Along step Forward ⟨started, 0, 0⟩ (setBack 166250) :=
  (forward_iff started (by decide) (setBack 166250) (setBack_fits _ (.inr rfl))).mpr
    ⟨trivial, by decide, by decide, trivial⟩

end NodeMcu.Rtc.TimeOfDay
