import NodeMcu.Lib.Run
import NodeMcu.Rtc.Clock
import Mathlib.Tactic.SplitIfs

namespace NodeMcu.Rtc.UnitCycles

open NodeMcu.Lib.Run NodeMcu.Rtc.Clock

/-! ## What a read leaves alone -/

theorem sourceOffset_same (c : Counters) (s : RtcTime) : ∃ base last,
    (sourceOffset c s).2 = { s with cycleOffset := base, lastSourceVal := last } := by
  rw [sourceOffset]
  cases source s c with
  | none => exact ⟨s.cycleOffset, s.lastSourceVal, rfl⟩
  | some raw =>
    dsimp only
    split_ifs
    · exact ⟨_, raw, rfl⟩
    · exact ⟨s.cycleOffset, raw, rfl⟩

theorem unixUnitcycles_snd (c : Counters) (s : RtcTime) :
    (unixUnitcycles c s).2 = (sourceOffset c s).2 := by
  rw [unixUnitcycles]
  split_ifs <;> rfl

theorem getNowUsRaw_same (c : Counters) (s : RtcTime) : ∃ base last,
    (getNowUsRaw c s).2 = { s with cycleOffset := base, lastSourceVal := last } := by
  rw [getNowUsRaw]
  split_ifs
  · rw [unixUs]
    dsimp only
    rw [unixUnitcycles_snd]
    exact sourceOffset_same c s
  · exact ⟨s.cycleOffset, s.lastSourceVal, rfl⟩

theorem getNowUsAdjusted_snd (c : Counters) (s : RtcTime) :
    (getNowUsAdjusted c s).2 = (getNowUsRaw c s).2 := by
  rw [getNowUsAdjusted]
  split_ifs <;> rfl

theorem getNowUsRaw_le (c : Counters) (s : RtcTime) :
    (getNowUsRaw c s).1.toNat ≤ (2 ^ 64 - 1) / 2080 := by
  rw [getNowUsRaw]
  split_ifs
  · rw [unixUs]
    dsimp only
    rw [UInt64.toNat_div]
    change (unixUnitcycles c s).1.toNat / 2080 ≤ _
    have hlt := (unixUnitcycles c s).1.toNat_lt
    exact Nat.div_le_div_right (by omega)
  · exact Nat.zero_le _

/-! ## One read -/

/-- The time at the last access. -/
def lastUnitcycles (s : RtcTime) : UInt64 :=
  s.cycleOffset + s.lastSourceVal.toUInt64 * s.sourceCycleUnits.toUInt64

/-- The clock has advanced to a value of its source, with the time known as before. -/
structure ReadTo (s : RtcTime) (raw : UInt32) (t : RtcTime) : Prop where
  same : t = { s with cycleOffset := t.cycleOffset, lastSourceVal := raw }
  known : t.cycleOffset ≠ 0
  time : (lastUnitcycles t).toNat = (lastUnitcycles s).toNat +
    (raw - s.lastSourceVal).toNat * s.sourceCycleUnits.toNat

theorem product_toNat (a b : UInt32) : (a.toUInt64 * b.toUInt64).toNat = a.toNat * b.toNat := by
  have ha := a.toNat_lt
  have hb := b.toNat_lt
  have hlt : a.toNat * b.toNat < 2 ^ 32 * 2 ^ 32 := Nat.mul_lt_mul'' ha hb
  rw [UInt64.toNat_mul, UInt32.toNat_toUInt64, UInt32.toNat_toUInt64]
  exact Nat.mod_eq_of_lt (by omega)

theorem rollover_toNat (b : UInt32) : (2 ^ 32 * b.toUInt64).toNat = 2 ^ 32 * b.toNat := by
  have hb := b.toNat_lt
  rw [UInt64.toNat_mul, UInt32.toNat_toUInt64]
  change 4294967296 * b.toNat % 2 ^ 64 = _
  omega

theorem lastUnitcycles_toNat (s : RtcTime) : (lastUnitcycles s).toNat =
    (s.cycleOffset.toNat + s.lastSourceVal.toNat * s.sourceCycleUnits.toNat) % 2 ^ 64 := by
  rw [lastUnitcycles, UInt64.toNat_add, product_toNat]

/-- The ticks between two values of a counter, with a rollover in between or without. -/
theorem ticks_mul (raw last units : UInt32) :
    (raw - last).toNat * units.toNat + last.toNat * units.toNat =
      raw.toNat * units.toNat + (if raw < last then 2 ^ 32 * units.toNat else 0) := by
  have hraw := raw.toNat_lt
  have hlast := last.toNat_lt
  have hsub : (raw - last).toNat + last.toNat =
      raw.toNat + (if raw < last then 2 ^ 32 else 0) := by
    rw [UInt32.toNat_sub]
    split_ifs with hlt
    · have := UInt32.lt_iff_toNat_lt.mp hlt
      omega
    · have : ¬raw.toNat < last.toNat := fun h => hlt (UInt32.lt_iff_toNat_lt.mpr h)
      omega
  rw [← Nat.add_mul, hsub, Nat.add_mul]
  split_ifs
  · rfl
  · rw [Nat.zero_mul]

/-- A read of the source, as long as the time has room in its word. -/
theorem sourceOffset_readTo {s : RtcTime} {c : Counters} {raw : UInt32}
    (hsource : source s c = some raw) (hknown : s.cycleOffset ≠ 0)
    (hfits : (lastUnitcycles s).toNat +
      (raw - s.lastSourceVal).toNat * s.sourceCycleUnits.toNat < 2 ^ 64) :
    ReadTo s raw (sourceOffset c s).2 ∧
      (sourceOffset c s).1 = raw.toUInt64 * s.sourceCycleUnits.toUInt64 := by
  have hticks := ticks_mul raw s.lastSourceVal s.sourceCycleUnits
  have hlast := lastUnitcycles_toNat s
  have hbase := s.cycleOffset.toNat_lt
  have hpos : s.cycleOffset.toNat ≠ 0 := fun h => hknown (UInt64.toNat_inj.mp h)
  have hproduct := product_toNat raw s.sourceCycleUnits
  have hroll := rollover_toNat s.sourceCycleUnits
  have hrawlt := (raw.toUInt64 * s.sourceCycleUnits.toUInt64).toNat_lt
  rw [sourceOffset, hsource]
  dsimp only
  by_cases hlt : raw < s.lastSourceVal
  · rw [if_pos hlt] at hticks
    rw [if_pos ⟨hlt, hknown⟩]
    have htime : (lastUnitcycles { s with
        cycleOffset := s.cycleOffset + 2 ^ 32 * s.sourceCycleUnits.toUInt64
        lastSourceVal := raw }).toNat = (lastUnitcycles s).toNat +
          (raw - s.lastSourceVal).toNat * s.sourceCycleUnits.toNat := by
      rw [lastUnitcycles_toNat]
      simp only [UInt64.toNat_add, hroll]
      omega
    refine ⟨⟨rfl, fun hzero => ?_, htime⟩, rfl⟩
    -- an offset that wraps to 0 would be a time in front of its start
    have hsum := congrArg UInt64.toNat hzero
    change (s.cycleOffset + 2 ^ 32 * s.sourceCycleUnits.toUInt64).toNat = 0 at hsum
    rw [lastUnitcycles_toNat] at htime
    simp only [hsum, Nat.zero_add] at htime
    have hlt' := UInt32.lt_iff_toNat_lt.mp hlt
    rw [UInt64.toNat_add, hroll] at hsum
    have hmono : s.lastSourceVal.toNat * s.sourceCycleUnits.toNat ≤
        2 ^ 32 * s.sourceCycleUnits.toNat :=
      Nat.mul_le_mul_right _ (Nat.le_of_lt s.lastSourceVal.toNat_lt)
    obtain hunits | hunits := Nat.eq_zero_or_pos s.sourceCycleUnits.toNat
    · rw [hunits] at hsum
      omega
    · have hstrict : s.lastSourceVal.toNat * s.sourceCycleUnits.toNat <
          2 ^ 32 * s.sourceCycleUnits.toNat :=
        Nat.mul_lt_mul_of_pos_right s.lastSourceVal.toNat_lt hunits
      omega
  · rw [if_neg hlt] at hticks
    rw [if_neg fun h => hlt h.1]
    refine ⟨⟨rfl, hknown, ?_⟩, rfl⟩
    rw [lastUnitcycles_toNat]
    dsimp only
    omega

theorem unixUnitcycles_readTo {s : RtcTime} {c : Counters} {raw : UInt32}
    (hsource : source s c = some raw) (hknown : s.cycleOffset ≠ 0)
    (hfits : (lastUnitcycles s).toNat +
      (raw - s.lastSourceVal).toNat * s.sourceCycleUnits.toNat < 2 ^ 64) :
    ReadTo s raw (unixUnitcycles c s).2 ∧
      (unixUnitcycles c s).1 = lastUnitcycles (unixUnitcycles c s).2 := by
  obtain ⟨hread, hoffset⟩ := sourceOffset_readTo hsource hknown hfits
  rw [unixUnitcycles]
  rw [if_neg hread.known]
  refine ⟨hread, ?_⟩
  rw [hoffset, lastUnitcycles, hread.same]

end NodeMcu.Rtc.UnitCycles
