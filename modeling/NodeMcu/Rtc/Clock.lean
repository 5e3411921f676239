import Mathlib.Data.UInt

namespace NodeMcu.Rtc.Clock

/-- What the two counters show: the cycles of the CPU, and the free running counter 2. -/
structure Counters where
  ccount : UInt32
  frc2 : UInt32

/-- The block of the time keeping in the memory of the RTC. The offset takes two of its words. -/
structure RtcTime where
  magic : UInt32
  cycleOffset : UInt64
  lastSourceVal : UInt32
  sourceCycleUnits : UInt32
  calibration : UInt32
  sleepTotalUs : UInt32
  sleepTotalCycles : UInt32
  todOffsetUs : UInt32
  lastTodUs : UInt32

structure RtcTimeval where
  tvSec : UInt32
  tvUsec : UInt32
  deriving DecidableEq

def magicCcount : UInt32 := 0x44695573

def magicFrc2 : UInt32 := magicCcount + 1

def magicSleep : UInt32 := magicCcount + 2

def unitcycleMhz : UInt64 := 2080

def cpuDefaultMhz : UInt32 := 80

def checkWakeMagic (s : RtcTime) : Bool := s.magic == magicFrc2 || s.magic == magicCcount

def checkMagic (s : RtcTime) : Bool := checkWakeMagic s || s.magic == magicSleep

/-! ## Reading the time -/

/-- The counter that is the source of the time. -/
def source (s : RtcTime) (c : Counters) : Option UInt32 :=
  if s.magic = magicCcount then some c.ccount
  else if s.magic = magicFrc2 then some c.frc2
  else none

/-- The unit cycles since the source was 0. The stored offset follows a rollover. -/
def sourceOffset (c : Counters) (s : RtcTime) : UInt64 × RtcTime :=
  match source s c with
  | none => (0, s)
  | some raw =>
    let toAdd := 2 ^ 32 * s.sourceCycleUnits.toUInt64
    let s := if raw < s.lastSourceVal ∧ s.cycleOffset ≠ 0
      then { s with cycleOffset := s.cycleOffset + toAdd } else s
    (raw.toUInt64 * s.sourceCycleUnits.toUInt64, { s with lastSourceVal := raw })

/-- An offset of 0 says that the time is not known. -/
def unixUnitcycles (c : Counters) (s : RtcTime) : UInt64 × RtcTime :=
  let r := sourceOffset c s
  if r.2.cycleOffset = 0 then (0, r.2) else (r.2.cycleOffset + r.1, r.2)

def unixUs (c : Counters) (s : RtcTime) : UInt64 × RtcTime :=
  let r := unixUnitcycles c s
  (r.1 / unitcycleMhz, r.2)

def getNowUsRaw (c : Counters) (s : RtcTime) : UInt64 × RtcTime :=
  if checkMagic s then unixUs c s else (0, s)

def getNowUsAdjusted (c : Counters) (s : RtcTime) : UInt64 × RtcTime :=
  let r := getNowUsRaw c s
  if r.1 = 0 then (0, r.2) else (r.1 + r.2.todOffsetUs.toUInt64, r.2)

def haveTime (s : RtcTime) : Bool := checkMagic s && s.cycleOffset != 0

def tmrfn (c : Counters) (s : RtcTime) : RtcTime := (sourceOffset c s).2

/-! ## Switching the source -/

/-- A counter that shows `after` becomes the source. The counters stand still, so the loop against
a rollover in between goes round once. -/
def selectSource (newMagic newMultiplier after : UInt32) (c : Counters) (s : RtcTime) : RtcTime :=
  let r := unixUnitcycles c s
  let s := if haveTime r.2
    then { r.2 with
      cycleOffset := r.1 - after.toUInt64 * newMultiplier.toUInt64
      lastSourceVal := after }
    else r.2
  { s with sourceCycleUnits := newMultiplier, magic := newMagic }

def frc2Multiplier : UInt32 := (256 * 2080 + cpuDefaultMhz / 2) / cpuDefaultMhz

def selectFrc2Source (c : Counters) (s : RtcTime) : RtcTime :=
  selectSource magicFrc2 frc2Multiplier c.frc2 c s

def ccountMultiplier (mhz : UInt32) : UInt32 := (2080 + mhz / 2) / mhz

/-- For the first time the counter has been running at this rate since startup. -/
def selectCcountSource (mhz : UInt32) (first : Bool) (c : Counters) (s : RtcTime) : RtcTime :=
  if first then
    { s with lastSourceVal := 0, sourceCycleUnits := ccountMultiplier mhz, magic := magicCcount }
  else selectSource magicCcount (ccountMultiplier mhz) c.ccount c s

def switchToCcountFrequency (mhz : UInt32) (c : Counters) (s : RtcTime) : RtcTime :=
  if checkMagic s then selectCcountSource mhz false c s else s

def switchToSystemClock (c : Counters) (s : RtcTime) : RtcTime :=
  if checkMagic s then selectFrc2Source c s else s

/-! ## The time of day -/

def registerTimeReached (us : UInt32) (s : RtcTime) : RtcTime := { s with lastTodUs := us }

def usSinceTimeReached (us : UInt32) (s : RtcTime) : UInt32 :=
  let us := if us < s.lastTodUs then us + 1000000 else us
  us - s.lastTodUs

/-- What a read takes off the offset. -/
def slew (toAdjust usPassed : UInt32) : UInt32 :=
  if usPassed >>> 4 > toAdjust then toAdjust else usPassed >>> 4

/-- The time that is given back was taken before the offset is reduced. -/
def gettimeofday (c : Counters) (s : RtcTime) : RtcTimeval × RtcTime :=
  let r := getNowUsAdjusted c s
  let sec := (r.1 / 1000000).toUInt32
  let usec := (r.1 % 1000000).toUInt32
  let toAdjust := r.2.todOffsetUs
  let s := if toAdjust = 0 then r.2
    else { r.2 with todOffsetUs := toAdjust - slew toAdjust (usSinceTimeReached usec r.2) }
  (⟨sec, usec⟩, registerTimeReached usec s)

def calibrationIsSane (cali : UInt32) : Bool :=
  (4 : UInt32) <<< 12 ≤ cali && cali ≤ (10 : UInt32) <<< 12

/-- The calibration that fits the sleep since the last setting. -/
def calibrate (diffUs : UInt64) (s : RtcTime) : RtcTime :=
  if 0 < s.sleepTotalUs ∧ s.sleepTotalUs < 0xffffffff ∧ 0 < s.sleepTotalCycles ∧
      s.sleepTotalCycles < 0xffffffff then
    let actualSleepUs := s.sleepTotalUs.toUInt64 - diffUs
    let cali := ((actualSleepUs <<< 12) / s.sleepTotalCycles.toUInt64).toUInt32
    if calibrationIsSane cali then { s with calibration := cali } else s
  else s

/-- A word as a signed number. -/
def signed (x : UInt64) : Int := Int.bmod x.toNat (2 ^ 64)

/-- The counters are read twice, first for the time before and then for the offset. -/
def settimeofday (tv : RtcTimeval) (c c' : Counters) (s : RtcTime) : RtcTime :=
  if checkMagic s then
    let r := getNowUsAdjusted c s
    let nowNtpUs := tv.tvSec.toUInt64 * 1000000 + tv.tvUsec.toUInt64
    let diffUs := r.1 - nowNtpUs
    let o := sourceOffset c' r.2
    let s := { o.2 with cycleOffset := nowNtpUs * unitcycleMhz - o.1 }
    let s := { calibrate diffUs s with sleepTotalUs := 0, sleepTotalCycles := 0 }
    let diffUs := if 0 < signed diffUs then (if 0xffffffff < diffUs then 0xffffffff else diffUs)
      else 0
    registerTimeReached ((nowNtpUs + diffUs) % 1000000).toUInt32
      { s with todOffsetUs := diffUs.toUInt32 }
  else s

/-! ## Deep sleep -/

/-- A calibration that is missing is measured. -/
def getCalibration (measured : UInt32) (s : RtcTime) : UInt32 × RtcTime :=
  let cal := if checkMagic s then s.calibration else 0
  if cal = 0 then (measured, { s with calibration := measured }) else (cal, s)

def addSleepTracking (us cycles : UInt32) (s : RtcTime) : RtcTime :=
  if checkMagic s then
    let usAfter := s.sleepTotalUs + us
    -- the tracking is given up where it would overflow
    if usAfter < s.sleepTotalUs
    then { s with sleepTotalUs := 0xffffffff, sleepTotalCycles := 0xffffffff }
    else { s with sleepTotalUs := usAfter, sleepTotalCycles := s.sleepTotalCycles + cycles }
  else s

/-- The sleep that is asked of the hardware, and the memory. -/
def enterDeepSleepUs (measured us : UInt32) (s : RtcTime) : UInt32 × RtcTime :=
  let s := if checkWakeMagic s then { s with magic := magicSleep } else s
  let r := getCalibration measured s
  let cycles := ((us.toUInt64 <<< 12) / r.1.toUInt64).toUInt32
  (us, addSleepTracking us cycles r.2)

def deepSleepUs (measured us : UInt32) (c : Counters) (s : RtcTime) : UInt32 × RtcTime :=
  if checkMagic s then
    let us := us + s.todOffsetUs
    let r := getNowUsRaw c { s with todOffsetUs := 0 }
    let s := if r.1 = 0 then r.2
      else { r.2 with cycleOffset := (r.1 + us.toUInt64) * unitcycleMhz }
    enterDeepSleepUs measured us s
  else enterDeepSleepUs measured us s

/-- The time is read twice, here and for the sleep. -/
def deepSleepUntilAligned (measured align minSleepUs : UInt32) (c c' : Counters) (s : RtcTime) :
    UInt32 × RtcTime :=
  let r := getNowUsAdjusted c s
  let then' := r.1 + minSleepUs.toUInt64
  let then' := if align = 0 then then'
    else
      let up := then' + (align - 1).toUInt64
      up - up % align.toUInt64
  deepSleepUs measured (then' - r.1).toUInt32 c' r.2

end NodeMcu.Rtc.Clock
