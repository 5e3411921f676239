import NodeMcu.Lib.Run
import Mathlib.Algebra.Group.Nat.Defs
import Mathlib.Tactic.SplitIfs

namespace NodeMcu.Tmr.Uptime

open NodeMcu.Lib.Run

/-! ## The time since the start -/

structure RtcTimer where
  rtcTimeCali : UInt32
  lastRtcTime : UInt32
  lastRtcTimeUs : UInt64
  deriving DecidableEq

/-- Ticks in microseconds. The low twelve bits of a calibration are its fraction. -/
def rtc2usec (cali : UInt32) (rtc : UInt64) : UInt32 := ((rtc * cali.toUInt64) >>> 12).toUInt32

/-- A call at a value of the counter, with the calibration that the system has measured. Intervals
of less than 100 ms stay open. -/
def rtcTimerUpdate (doCalibration : Bool) (measured current : UInt32) (t : RtcTimer) :
    RtcTimer × UInt64 :=
  let cali := if doCalibration || t.rtcTimeCali = 0 then measured else t.rtcTimeCali
  let sinceLast := current - t.lastRtcTime
  let usSinceLast := rtc2usec cali sinceLast.toUInt64
  let now := t.lastRtcTimeUs + usSinceLast.toUInt64
  if 100000 ≤ usSinceLast then (⟨cali, current, now⟩, now)
  else ({ t with rtcTimeCali := cali }, now)

/-- Whether a call calibrates, what it would measure, and how far the counter has gone on. -/
structure Call where
  doCalibration : Bool
  measured : UInt32
  advance : UInt32

/-- The timer, the counter at the last call, and the time that was returned. -/
structure Clock where
  timer : RtcTimer
  counter : UInt32
  now : UInt64

def step (s : Clock) (c : Call) : Clock :=
  let counter := s.counter + c.advance
  let update := rtcTimerUpdate c.doCalibration c.measured counter s.timer
  ⟨update.1, counter, update.2⟩

/-- `luaopen_tmr`: right now is time 0. -/
def opened (counter : UInt32) : Clock := ⟨⟨0, counter, 0⟩, counter, 0⟩

/-- The times that the calls return. -/
def times (s : Clock) (cs : List Call) : List UInt64 :=
  gather step (fun s c => [(step s c).now]) s cs

/-- The calibration that a call uses. -/
def calibration (s : Clock) (c : Call) : UInt32 :=
  if c.doCalibration || s.timer.rtcTimeCali = 0 then c.measured else s.timer.rtcTimeCali

/-- The counter goes on by less than two seconds. -/
def Short (s : Clock) (c : Call) : Prop :=
  c.advance.toNat * (calibration s c).toNat < 2000000 * 4096

instance (s : Clock) (c : Call) : Decidable (Short s c) := inferInstanceAs (Decidable (_ < _))

/-! ## When the time does not go back -/

/-- What the open interval came to at the last call. -/
def pending (s : Clock) : UInt32 :=
  rtc2usec s.timer.rtcTimeCali (s.counter - s.timer.lastRtcTime).toUInt64

/-- What the open interval comes to at this call. -/
def measure (s : Clock) (c : Call) : UInt32 :=
  rtc2usec (calibration s c) (s.counter + c.advance - s.timer.lastRtcTime).toUInt64

/-- The ticks of the open interval are not worth less than those there were at the last call, and
the sum of all intervals has room in its word. -/
def Steady (s : Clock) (c : Call) : Prop :=
  pending s ≤ measure s c ∧ s.timer.lastRtcTimeUs.toNat + (measure s c).toNat < 2 ^ 64

/-- The time returned is that of the intervals that are closed and of the open one. -/
def Tracked (s : Clock) : Prop := s.now.toNat = s.timer.lastRtcTimeUs.toNat + (pending s).toNat

section Step

variable {s : Clock} {c : Call}

theorem rtcTimerUpdate_eq :
    rtcTimerUpdate c.doCalibration c.measured (s.counter + c.advance) s.timer =
      let now := s.timer.lastRtcTimeUs + (measure s c).toUInt64
      if 100000 ≤ measure s c then (⟨calibration s c, s.counter + c.advance, now⟩, now)
      else ({ s.timer with rtcTimeCali := calibration s c }, now) := rfl

theorem step_eq :
    step s c =
      let counter := s.counter + c.advance
      let now := s.timer.lastRtcTimeUs + (measure s c).toUInt64
      if 100000 ≤ measure s c then ⟨⟨calibration s c, counter, now⟩, counter, now⟩
      else ⟨{ s.timer with rtcTimeCali := calibration s c }, counter, now⟩ := by
  rw [step, rtcTimerUpdate_eq]
  dsimp only
  split_ifs <;> rfl

theorem step_now : (step s c).now = s.timer.lastRtcTimeUs + (measure s c).toUInt64 := by
  rw [step_eq]
  dsimp only
  split_ifs <;> rfl

theorem pending_closed (h : s.timer.lastRtcTime = s.counter) : pending s = 0 := by
  have hzero : UInt32.toUInt64 0 = 0 := rfl
  rw [pending, h, UInt32.sub_self, rtc2usec, hzero, UInt64.zero_mul]
  rfl

/-- A step closes the interval, or keeps it open as it was measured. -/
theorem pending_step :
    (step s c).timer.lastRtcTimeUs = (step s c).now ∧ pending (step s c) = 0 ∨
      (step s c).timer.lastRtcTimeUs = s.timer.lastRtcTimeUs ∧
        pending (step s c) = measure s c := by
  rw [step_eq]
  dsimp only
  split_ifs with hlong
  · left
    exact ⟨rfl, pending_closed rfl⟩
  · right
    exact ⟨rfl, rfl⟩

theorem toNat_step_now (hsteady : Steady s c) :
    (step s c).now.toNat = s.timer.lastRtcTimeUs.toNat + (measure s c).toNat := by
  rw [step_now, UInt64.toNat_add, UInt32.toNat_toUInt64, Nat.mod_eq_of_lt hsteady.2]

theorem tracked_opened (counter : UInt32) : Tracked (opened counter) := by
  rw [Tracked, pending_closed]
  · rfl
  · rfl

theorem tracked_step (hsteady : Steady s c) : Tracked (step s c) := by
  rw [Tracked]
  obtain ⟨hlast, hpending⟩ | ⟨hlast, hpending⟩ := pending_step (s := s) (c := c)
  · rw [hlast, hpending]
    rfl
  · rw [hlast, hpending, toNat_step_now hsteady]

theorem now_le_iff (h : Tracked s) : s.now ≤ (step s c).now ↔ Steady s c := by
  have hmeasure := (measure s c).toNat_lt
  have hlast := s.timer.lastRtcTimeUs.toNat_lt
  rw [UInt64.le_iff_toNat_le, h, step_now, UInt64.toNat_add, UInt32.toNat_toUInt64, Steady,
    UInt32.le_iff_toNat_le]
  omega

end Step

/-! ## Whole runs -/

/-- The times that are returned never decrease when, and only when, every call is steady. -/
theorem uptime_monotone_iff (counter : UInt32) (cs : List Call) :
    (times (opened counter) cs).Pairwise (· ≤ ·) ↔ Along step Steady (opened counter) cs := by
  have hchain := pairwise_gather step (fun a b : UInt64 => a ≤ b) (fun _ _ _ => UInt64.le_trans)
    Clock.now (opened counter) cs
  rw [List.pairwise_cons, and_iff_right] at hchain
  · refine hchain.trans (along_congr step _ _ Tracked (fun _ _ h => now_le_iff h) ?_ _ cs
      (tracked_opened counter))
    intro s c htracked hle
    exact tracked_step ((now_le_iff htracked).mp hle)
  · intro now _
    exact UInt64.zero_le

/-! ## Calls that do not calibrate -/

/-- The open interval is less than 100 ms, also before it is cut to a word. -/
def Small (s : Clock) : Prop :=
  (s.counter - s.timer.lastRtcTime).toNat * s.timer.rtcTimeCali.toNat < 100000 * 4096

section Uncalibrated

variable {s : Clock} {c : Call}

theorem toNat_rtc2usec (cali rtc : UInt32) :
    (rtc2usec cali rtc.toUInt64).toNat = rtc.toNat * cali.toNat / 4096 % 2 ^ 32 := by
  have hlt : rtc.toNat * cali.toNat < 2 ^ 64 :=
    calc rtc.toNat * cali.toNat < 2 ^ 32 * 2 ^ 32 :=
          Nat.mul_lt_mul_of_lt_of_lt rtc.toNat_lt cali.toNat_lt
      _ = 2 ^ 64 := (Nat.pow_add 2 32 32).symm
  rw [rtc2usec, UInt64.toNat_toUInt32, UInt64.toNat_shiftRight, UInt64.toNat_mul,
    UInt32.toNat_toUInt64, UInt32.toNat_toUInt64, Nat.mod_eq_of_lt hlt]
  exact congrArg (· % 2 ^ 32) (Nat.shiftRight_eq_div_pow _ 12)

theorem toNat_open :
    (s.counter + c.advance - s.timer.lastRtcTime).toNat =
      ((s.counter - s.timer.lastRtcTime).toNat + c.advance.toNat) % 2 ^ 32 := by
  rw [UInt32.toNat_sub, UInt32.toNat_add, UInt32.toNat_sub]
  have hlast := s.timer.lastRtcTime.toNat_lt
  omega

/-- What the ticks come to when neither their number nor their time is cut to a word. -/
theorem toNat_measure (hcali : 3 ≤ s.timer.rtcTimeCali.toNat)
    (hsame : calibration s c = s.timer.rtcTimeCali) (hsmall : Small s) (hshort : Short s c) :
    (measure s c).toNat = ((s.counter - s.timer.lastRtcTime).toNat * s.timer.rtcTimeCali.toNat +
      c.advance.toNat * s.timer.rtcTimeCali.toNat) / 4096 := by
  rw [Short, hsame] at hshort
  rw [Small] at hsmall
  rw [measure, hsame, toNat_rtc2usec, toNat_open]
  generalize s.timer.rtcTimeCali.toNat = cali at *
  generalize (s.counter - s.timer.lastRtcTime).toNat = ticks at *
  have hticks := Nat.mul_le_mul_left ticks hcali
  have hadvance := Nat.mul_le_mul_left c.advance.toNat hcali
  have hsum : (ticks + c.advance.toNat) % 2 ^ 32 = ticks + c.advance.toNat :=
    Nat.mod_eq_of_lt (by omega)
  rw [hsum, Nat.add_mul]
  apply Nat.mod_eq_of_lt
  omega

/-- With a calibration that stays, the ticks of the open interval are worth no less than before. -/
theorem steady_uncalibrated (hsmall : Small s) (hcali : 3 ≤ s.timer.rtcTimeCali.toNat)
    (hsame : calibration s c = s.timer.rtcTimeCali) (hshort : Short s c)
    (hroom : s.timer.lastRtcTimeUs.toNat < 2 ^ 63) : Steady s c := by
  have hmeasure := toNat_measure hcali hsame hsmall hshort
  have hlt := (measure s c).toNat_lt
  refine ⟨?_, by omega⟩
  rw [UInt32.le_iff_toNat_le, hmeasure, pending, toNat_rtc2usec]
  exact Nat.le_trans (Nat.mod_le _ _) (Nat.div_le_div_right (Nat.le_add_right _ _))

theorem small_step (hsmall : Small s) (hcali : 3 ≤ s.timer.rtcTimeCali.toNat)
    (hsame : calibration s c = s.timer.rtcTimeCali) (hshort : Short s c) :
    Small (step s c) ∧ (step s c).timer.rtcTimeCali = s.timer.rtcTimeCali := by
  have hmeasure := toNat_measure hcali hsame hsmall hshort
  rw [Short, hsame] at hshort
  rw [Small] at *
  rw [step_eq]
  dsimp only
  split_ifs with hlong
  · refine ⟨?_, hsame⟩
    rw [UInt32.sub_self]
    change 0 * _ < _
    rw [Nat.zero_mul]
    decide
  · refine ⟨?_, hsame⟩
    have hopen := UInt32.lt_iff_toNat_lt.mp (UInt32.not_le.mp hlong)
    rw [hmeasure] at hopen
    dsimp only
    rw [toNat_open, hsame]
    have hmod := Nat.mod_le
      ((s.counter - s.timer.lastRtcTime).toNat + c.advance.toNat) (2 ^ 32)
    have hmul := Nat.mul_le_mul_right s.timer.rtcTimeCali.toNat hmod
    rw [Nat.add_mul] at hmul
    have hlimit : (100000 : UInt32).toNat = 100000 := rfl
    omega

end Uncalibrated

/-- A call that keeps the calibration it finds. -/
structure Uncalibrated (s : Clock) (c : Call) : Prop where
  same : c.doCalibration = false
  short : Short s c
  room : s.timer.lastRtcTimeUs.toNat < 2 ^ 63

theorem calibration_same {s : Clock} {c : Call} (hcali : 3 ≤ s.timer.rtcTimeCali.toNat)
    (h : c.doCalibration = false) : calibration s c = s.timer.rtcTimeCali := by
  have hne : s.timer.rtcTimeCali ≠ 0 := by
    intro hzero
    rw [hzero] at hcali
    exact absurd hcali (by decide)
  rw [calibration, h, decide_eq_false hne]
  rfl

/-- Only a new calibration makes the time go back: without one every call is steady. -/
theorem steady_without_calibration {s : Clock} (hsmall : Small s)
    (hcali : 3 ≤ s.timer.rtcTimeCali.toNat) (cs : List Call)
    (h : Along step Uncalibrated s cs) : Along step Steady s cs := by
  refine (along_congr_of step Uncalibrated Steady (fun _ _ => True)
    (fun s => Small s ∧ 3 ≤ s.timer.rtcTimeCali.toNat) ?_ ?_ s cs ⟨hsmall, hcali⟩ h).mpr
    (along_of_forall step _ (fun _ _ => trivial) s cs)
  · rintro s c ⟨hsmall, hcali⟩ hc
    have hsame := calibration_same hcali hc.same
    exact iff_of_true (steady_uncalibrated hsmall hcali hsame hc.short hc.room) trivial
  · rintro s c ⟨hsmall, hcali⟩ hc -
    obtain ⟨hnext, hkeep⟩ := small_step hsmall hcali (calibration_same hcali hc.same) hc.short
    exact ⟨hnext, by rw [hkeep]; exact hcali⟩

/-- Two calibrations that differ by a little, with a tick between the calls. -/
def goingBack : List Call := [⟨true, 24576, 10000⟩, ⟨true, 24000, 1⟩]

/-- The time goes back though the counter never goes on by as much as two seconds. -/
theorem uptime_goes_back :
    Along step Short (opened 0) goingBack ∧
      ¬ (times (opened 0) goingBack).Pairwise (· ≤ ·) := by
  decide

end NodeMcu.Tmr.Uptime
