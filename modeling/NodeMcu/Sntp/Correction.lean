import NodeMcu.Rtc.TimeOfDay
import Mathlib.Algebra.Order.Field.Rat
import Mathlib.Tactic.Linarith
import Mathlib.Tactic.Qify

namespace NodeMcu.Sntp.Correction

open NodeMcu.Rtc.Clock NodeMcu.Rtc.TimeOfDay

/-! ## The correction of the clock -/

structure NtpTimestamp where
  sec : UInt32
  frac : UInt32
  deriving DecidableEq

def uint32Maxi : Nat := 2 ^ 32 - 1

def ntpToUnixEpoch : UInt32 := 2208988800

/-- The transmit timestamp of a request, which the answer carries back as its origin. The
microseconds are put where the fraction of a second belongs. -/
def requestStamp (tv : RtcTimeval) : NtpTimestamp := ⟨tv.tvSec, tv.tvUsec⟩

/-- The answer's time of arrival. -/
def destination (tv : RtcTimeval) : NtpTimestamp :=
  ⟨tv.tvSec, UInt32.ofNat (1000000 * tv.tvUsec.toNat / uint32Maxi)⟩

def delta (recv origin xmit dest : UInt32) : Int :=
  (((recv.toNat : Int) - origin.toNat) + ((xmit.toNat : Int) - dest.toNat)).tdiv 2

/-- A sum of fractions that is out of range is brought back by `UINT32_MAXI`, and a second goes
with it. -/
def carried (deltaF : Int) (dest : NtpTimestamp) : NtpTimestamp :=
  if deltaF + dest.frac.toNat < 0 then
    ⟨dest.sec - 1, dest.frac + UInt32.ofInt (deltaF + uint32Maxi)⟩
  else if deltaF + dest.frac.toNat > uint32Maxi then
    ⟨dest.sec + 1, dest.frac + UInt32.ofInt (deltaF - uint32Maxi)⟩
  else ⟨dest.sec, dest.frac + UInt32.ofInt deltaF⟩

/-- The time that `on_recv` sets when an answer arrives at the local time `tv`. -/
def corrected (origin recv xmit : NtpTimestamp) (tv : RtcTimeval) : RtcTimeval :=
  let dest := destination tv
  let deltaS := delta recv.sec origin.sec xmit.sec dest.sec
  let deltaF := delta recv.frac origin.frac xmit.frac dest.frac
  let dest := carried deltaF ⟨dest.sec + UInt32.ofInt deltaS, dest.frac⟩
  ⟨dest.sec - ntpToUnixEpoch, UInt32.ofNat (1000000 * dest.frac.toNat / uint32Maxi)⟩

/-! ## What is expected of it -/

/-- The microseconds that a timestamp of the protocol stands for. -/
def ntpMicroseconds (t : NtpTimestamp) : ℚ := 1000000 * (t.sec.toNat + t.frac.toNat / 2 ^ 32)

/-- The Unix time in microseconds that the four times of an exchange give. -/
def compensated (t0 t3 : RtcTimeval) (recv xmit : NtpTimestamp) : ℚ :=
  microseconds t3 +
    ((ntpMicroseconds recv - microseconds t0) + (ntpMicroseconds xmit - microseconds t3)) / 2 -
    1000000 * ntpToUnixEpoch.toNat

/-- The times of an exchange: a request sent at `t0` was received by the server and answered,
and the answer arrived at `t3`. -/
structure Exchange where
  t0 : RtcTimeval
  t3 : RtcTimeval
  recv : NtpTimestamp
  xmit : NtpTimestamp
  usec0 : t0.tvUsec.toNat < 1000000
  usec3 : t3.tvUsec.toNat < 1000000
  local_le : microseconds t0 ≤ microseconds t3
  server_le : ntpMicroseconds recv ≤ ntpMicroseconds xmit
  after : 0 < compensated t0 t3 recv xmit

namespace Exchange

variable (x : Exchange)

def result : RtcTimeval := corrected (requestStamp x.t0) x.recv x.xmit x.t3

/-- The time that is set is right up to two microseconds. -/
def Accurate : Prop :=
  |(microseconds x.result : ℚ) - compensated x.t0 x.t3 x.recv x.xmit| ≤ 2

/-! ## When it is met -/

/-- The sum of the two differences of seconds. -/
def secondSum : Int :=
  ((x.recv.sec.toNat : Int) - x.t0.tvSec.toNat) + ((x.xmit.sec.toNat : Int) - x.t3.tvSec.toNat)

/-- Twice what the averages leave out, in microseconds: the second that an odd sum has over, the
microseconds at which the answer arrived, of which hardly any reach the fraction, and those at
which the request was sent, which count as so many parts of `2 ^ 32`. -/
def missed : ℚ :=
  1000000 * (x.secondSum.tmod 2 : ℤ) + ((x.t3.tvUsec.toNat : ℚ) - x.t0.tvUsec.toNat) +
    1000000 * x.t0.tvUsec.toNat / 2 ^ 32

/-- The fraction of a second at which the answer arrived. -/
def arrival : Nat := 1000000 * x.t3.tvUsec.toNat / uint32Maxi

/-- The sum of the fractions of both averages, before a carry. -/
def fraction : Int :=
  ((x.recv.frac.toNat : Int) - x.t0.tvUsec.toNat + (x.xmit.frac.toNat - x.arrival)).tdiv 2 +
    x.arrival

/-- Twice what rounding to whole fractions and microseconds takes away. -/
def rounding : ℚ :=
  2 * (1000000 * x.fraction / uint32Maxi : ℤ) -
    1000000 * ((x.recv.frac.toNat : ℚ) + x.xmit.frac.toNat - x.t0.tvUsec.toNat) / 2 ^ 32

def carry : Int := if x.fraction < 0 then -1 else if x.fraction > uint32Maxi then 1 else 0

/-- The seconds of the result before they are reduced to a word. -/
def seconds : Int :=
  x.t3.tvSec.toNat + x.secondSum.tdiv 2 + x.carry - ntpToUnixEpoch.toNat

/-- What is left out is made up by rounding up to four half microseconds, and the seconds do not
wrap below the epoch. -/
def Fits : Prop := |x.missed - x.rounding| ≤ 4 ∧ 0 ≤ x.seconds

/-! ## The fraction and its carry -/

theorem toNat_destination : (destination x.t3).frac.toNat = x.arrival := by
  have h := x.usec3
  apply UInt32.toNat_ofNat_of_lt'
  rw [uint32Maxi, UInt32.size]
  omega

theorem fraction_bounds : -500001 ≤ x.fraction ∧ x.fraction ≤ uint32Maxi + 117 := by
  have h0 := x.usec0
  have h3 := x.usec3
  have hr := x.recv.frac.toNat_lt
  have hx := x.xmit.frac.toNat_lt
  have hdiv := Int.mul_tdiv_add_tmod
    ((x.recv.frac.toNat : Int) - x.t0.tvUsec.toNat + (x.xmit.frac.toNat - x.arrival)) 2
  have hmod := Int.tmod_two_eq
    ((x.recv.frac.toNat : Int) - x.t0.tvUsec.toNat + (x.xmit.frac.toNat - x.arrival))
  rw [fraction]
  simp only [arrival, uint32Maxi] at *
  omega

/-- What the carry leaves fits a word, which thus holds it. -/
theorem carried_fraction :
    0 ≤ x.fraction - x.carry * uint32Maxi ∧ x.fraction - x.carry * uint32Maxi ≤ uint32Maxi := by
  obtain ⟨hlow, hhigh⟩ := x.fraction_bounds
  rw [carry]
  simp only [uint32Maxi] at *
  split_ifs <;> omega

theorem delta_frac :
    delta x.recv.frac (requestStamp x.t0).frac x.xmit.frac (destination x.t3).frac =
      x.fraction - x.arrival := by
  rw [delta, toNat_destination, fraction, add_sub_cancel_right]
  rfl

theorem toNat_ofInt (n : Int) : ((UInt32.ofInt n).toNat : Int) = n % 2 ^ 32 := by
  have hlt : (n % 2 ^ 32).toNat < UInt32.size := by
    rw [show UInt32.size = 2 ^ 32 from rfl]
    omega
  rw [UInt32.ofInt, UInt32.toNat_ofNat_of_lt' hlt]
  omega

theorem ofInt_toNat (w : UInt32) : UInt32.ofInt w.toNat = w := by
  have hlt := w.toNat_lt
  have h := toNat_ofInt w.toNat
  apply UInt32.toNat_inj.mp
  omega

theorem ofInt_sub (m n : Int) : UInt32.ofInt (m - n) = UInt32.ofInt m - UInt32.ofInt n := by
  rw [Int.sub_eq_add_neg, UInt32.ofInt_add, UInt32.ofInt_neg, UInt32.sub_eq_add_neg]

theorem fraction_word (n : Int) :
    (destination x.t3).frac + UInt32.ofInt (x.fraction - x.arrival - n) =
      UInt32.ofInt (x.fraction - n) := by
  have hsum : x.fraction - n = x.arrival + (x.fraction - x.arrival - n) := by omega
  rw [hsum, UInt32.ofInt_add, ← toNat_destination, ofInt_toNat]

theorem carried_eq (sec : UInt32) :
    carried (x.fraction - x.arrival) ⟨sec, (destination x.t3).frac⟩ =
      ⟨sec + UInt32.ofInt x.carry, UInt32.ofInt (x.fraction - x.carry * uint32Maxi)⟩ := by
  simp only [carried, toNat_destination, Int.sub_add_cancel, carry]
  split_ifs with hneg hbig
  · have hword := x.fraction_word (-uint32Maxi)
    rw [Int.sub_neg, Int.sub_neg] at hword
    rw [hword, UInt32.ofInt_neg_one, ← UInt32.sub_eq_add_neg, Int.neg_one_mul, Int.sub_neg]
  · rw [fraction_word, Int.one_mul]
    rfl
  · have hword := x.fraction_word 0
    rw [Int.sub_zero, Int.sub_zero] at hword
    rw [hword, Int.zero_mul, Int.sub_zero]
    exact congrArg (NtpTimestamp.mk · _) (UInt32.add_zero sec).symm

theorem seconds_word :
    x.t3.tvSec + UInt32.ofInt (x.secondSum.tdiv 2) + UInt32.ofInt x.carry - ntpToUnixEpoch =
      UInt32.ofInt x.seconds := by
  rw [seconds, ofInt_sub, UInt32.ofInt_add, UInt32.ofInt_add, ofInt_toNat, ofInt_toNat]

/-- The microseconds that the carry leaves. -/
def micros : Int := 1000000 * (x.fraction - x.carry * uint32Maxi) / uint32Maxi

theorem micros_bounds : 0 ≤ x.micros ∧ x.micros ≤ 1000000 := by
  obtain ⟨hlow, hhigh⟩ := x.carried_fraction
  rw [micros]
  simp only [uint32Maxi] at *
  omega

theorem micros_eq : x.micros = 1000000 * x.fraction / uint32Maxi - 1000000 * x.carry := by
  have hsum : 1000000 * (x.fraction - x.carry * uint32Maxi) =
      1000000 * x.fraction + -(1000000 * x.carry) * uint32Maxi := by
    rw [Int.mul_sub, Int.neg_mul, Int.mul_assoc, Int.sub_eq_add_neg]
  rw [micros, hsum, Int.add_mul_ediv_right _ _ (by decide), Int.sub_eq_add_neg]

/-- The seconds are reduced to a word. -/
theorem result_sec : (x.result.tvSec.toNat : Int) = x.seconds % 2 ^ 32 := by
  rw [← toNat_ofInt, ← seconds_word, result, corrected, delta_frac, carried_eq]
  rfl

theorem result_usec : (x.result.tvUsec.toNat : Int) = x.micros := by
  obtain ⟨hlow, hhigh⟩ := x.carried_fraction
  have hmicros := x.micros_bounds
  have hlt : x.fraction - x.carry * uint32Maxi < 2 ^ 32 :=
    Int.lt_of_le_of_lt hhigh (by decide)
  have hofNat : 1000000 * (UInt32.ofInt (x.fraction - x.carry * uint32Maxi)).toNat / uint32Maxi =
      x.micros.toNat := by
    apply Int.ofNat_inj.mp
    rw [Int.toNat_of_nonneg hmicros.1, micros, Int.natCast_ediv, Int.natCast_mul, toNat_ofInt,
      Int.emod_eq_of_lt hlow hlt]
    rfl
  have hsize : x.micros.toNat < UInt32.size :=
    Nat.lt_of_le_of_lt (Int.toNat_le.mpr hmicros.2) (by decide)
  rw [result, corrected, delta_frac, carried_eq]
  simp only [hofNat]
  rw [UInt32.toNat_ofNat_of_lt' hsize, Int.toNat_of_nonneg hmicros.1]

/-! ## How far the result is off -/

theorem seconds_bounds : -2 ^ 32 ≤ x.seconds ∧ x.seconds < 2 ^ 32 := by
  have hlocal := x.local_le
  have husec := x.usec3
  have h3 := x.t3.tvSec.toNat_lt
  have hr := x.recv.sec.toNat_lt
  have hx := x.xmit.sec.toNat_lt
  have hcarry : -1 ≤ x.carry ∧ x.carry ≤ 1 := by
    rw [carry]
    split_ifs <;> omega
  have hdiv := Int.mul_tdiv_add_tmod x.secondSum 2
  have hmod := Int.tmod_two_eq x.secondSum
  have hepoch : ntpToUnixEpoch.toNat = 2208988800 := rfl
  rw [microseconds, microseconds] at hlocal
  rw [seconds, hepoch]
  rw [secondSum] at *
  omega

/-- Twice the sum of the averages is the sum of the fractions, but for the arrival and an odd
part. -/
theorem twice_fraction :
    (x.recv.frac.toNat : Int) + x.xmit.frac.toNat - x.t0.tvUsec.toNat - 1 ≤ 2 * x.fraction ∧
      2 * x.fraction ≤
        (x.recv.frac.toNat : Int) + x.xmit.frac.toNat - x.t0.tvUsec.toNat + 233 := by
  have hdiv := Int.mul_tdiv_add_tmod
    ((x.recv.frac.toNat : Int) - x.t0.tvUsec.toNat + (x.xmit.frac.toNat - x.arrival)) 2
  have hmod := Int.tmod_two_eq
    ((x.recv.frac.toNat : Int) - x.t0.tvUsec.toNat + (x.xmit.frac.toNat - x.arrival))
  have husec := x.usec3
  have harrival : x.arrival ≤ 232 := by
    rw [arrival, uint32Maxi]
    omega
  rw [fraction]
  omega

theorem rounding_bounds : -(21 / 10) ≤ x.rounding ∧ x.rounding ≤ 1 / 10 := by
  obtain ⟨hlow, hhigh⟩ := x.twice_fraction
  have husec := x.usec0
  have hr := x.recv.frac.toNat_lt
  have hx := x.xmit.frac.toNat_lt
  have hfloor := Int.mul_ediv_self_le (x := 1000000 * x.fraction) (k := uint32Maxi) (by decide)
  have hceil := Int.lt_mul_ediv_self_add (x := 1000000 * x.fraction) (k := uint32Maxi) (by decide)
  rw [rounding]
  generalize 1000000 * x.fraction / (uint32Maxi : ℤ) = q at *
  rw [show (uint32Maxi : ℤ) = 4294967295 from rfl] at hfloor hceil
  qify at hlow hhigh hfloor hceil hr hx husec
  constructor <;> linarith

/-- The time that is set, had the seconds not been reduced, and twice its error. -/
theorem error_eq :
    2 * ((1000000 * x.seconds + x.micros : ℤ) - compensated x.t0 x.t3 x.recv x.xmit : ℚ) =
      x.rounding - x.missed := by
  have hdiv := congrArg (Int.cast : ℤ → ℚ) (Int.mul_tdiv_add_tmod x.secondSum 2)
  rw [micros_eq, compensated, rounding, missed, seconds]
  have hsum : (x.secondSum : ℚ) = (x.recv.sec.toNat - x.t0.tvSec.toNat) +
      (x.xmit.sec.toNat - x.t3.tvSec.toNat) := by
    rw [secondSum]
    push_cast
    rfl
  rw [hsum] at hdiv
  rw [ntpMicroseconds, ntpMicroseconds, microseconds, microseconds]
  push_cast at *
  linarith

/-- The seconds and microseconds that are left out of the averages are less than two seconds. -/
theorem missed_bounds : |x.missed| ≤ 2000000 := by
  have h0 := x.usec0
  have h3 := x.usec3
  have hmod := Int.tmod_two_eq x.secondSum
  have hlow : -1 ≤ x.secondSum.tmod 2 := by omega
  have hhigh : x.secondSum.tmod 2 ≤ 1 := by omega
  rw [missed, abs_le]
  have hneg0 := Nat.zero_le x.t0.tvUsec.toNat
  have hneg3 := Nat.zero_le x.t3.tvUsec.toNat
  qify at *
  constructor <;> linarith

theorem microseconds_result :
    (microseconds x.result : ℤ) = 1000000 * (x.seconds % 2 ^ 32) + x.micros := by
  rw [microseconds, Nat.cast_add, Nat.cast_mul, result_sec, result_usec, Int.mul_comm]
  rfl

theorem accurate_of_nonneg (h : 0 ≤ x.seconds) : x.Accurate ↔ |x.missed - x.rounding| ≤ 4 := by
  have herror := x.error_eq
  have hresult := congrArg (Int.cast : ℤ → ℚ) x.microseconds_result
  rw [Int.emod_eq_of_lt h x.seconds_bounds.2, Int.cast_natCast] at hresult
  rw [Accurate, hresult, abs_le, abs_le]
  constructor <;> rintro ⟨hlow, hhigh⟩ <;> constructor <;> linarith

/-- Seconds that wrap are off by more than a century. -/
theorem not_accurate_of_neg (h : x.seconds < 0) : ¬ x.Accurate := by
  have herror := x.error_eq
  have hresult := congrArg (Int.cast : ℤ → ℚ) x.microseconds_result
  have hwrap : x.seconds % 2 ^ 32 = x.seconds + 2 ^ 32 := by
    have hbounds := x.seconds_bounds
    omega
  rw [hwrap, Int.cast_natCast] at hresult
  obtain ⟨hmlow, hmhigh⟩ := abs_le.mp x.missed_bounds
  obtain ⟨hrlow, hrhigh⟩ := x.rounding_bounds
  rw [Accurate, hresult, abs_le]
  rintro ⟨hlow, hhigh⟩
  push_cast at *
  linarith

/-- What is left out may be a little less than four half microseconds, whatever is rounded. -/
theorem fits_of_missed (hlow : -(39 / 10) ≤ x.missed) (hhigh : x.missed ≤ 19 / 10)
    (hsec : 0 ≤ x.seconds) : x.Fits := by
  obtain ⟨hrlow, hrhigh⟩ := x.rounding_bounds
  refine ⟨abs_le.mpr ⟨?_, ?_⟩, hsec⟩ <;> linarith

/-- The half second of an odd sum that is not negative is always lost. -/
theorem not_accurate_of_odd (hodd : x.secondSum.tmod 2 = 1) : ¬ x.Accurate := by
  intro hacc
  obtain hneg | hsec := Int.lt_or_le x.seconds 0
  · exact x.not_accurate_of_neg hneg hacc
  have hfits := (abs_le.mp ((x.accurate_of_nonneg hsec).mp hacc)).2
  obtain ⟨hrlow, hrhigh⟩ := x.rounding_bounds
  have h0 := x.usec0
  have hneg3 := Nat.zero_le x.t3.tvUsec.toNat
  rw [missed, hodd] at hfits
  qify at h0 hneg3
  push_cast at *
  linarith

end Exchange

/-- The time that `on_recv` sets is the compensated time of the exchange up to two microseconds
when, and only when, what the averages leave out is made up by rounding. -/
theorem clock_corrected_iff (x : Exchange) : x.Accurate ↔ x.Fits := by
  obtain hneg | hsec := Int.lt_or_le x.seconds 0
  · constructor
    · intro h
      exact (x.not_accurate_of_neg hneg h).elim
    · intro h
      exact absurd h.2 (Int.not_le.mpr hneg)
  · rw [x.accurate_of_nonneg hsec, Exchange.Fits, and_iff_left hsec]

/-- An exchange in which half a second is lost. -/
def halfSecond : Exchange where
  t0 := ⟨0, 0⟩
  t3 := ⟨1, 0⟩
  recv := ⟨2208988801, 0⟩
  xmit := ⟨2208988801, 0⟩
  usec0 := by decide
  usec3 := by decide
  local_le := by decide
  server_le := by rfl
  after := by decide +kernel

theorem half_second_lost : ¬ halfSecond.Accurate :=
  halfSecond.not_accurate_of_odd (by decide)

end NodeMcu.Sntp.Correction
