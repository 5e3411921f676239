import NodeMcu.Rtc.UnitCycles

namespace NodeMcu.Rtc.Sources

open NodeMcu.Lib.Run NodeMcu.Rtc.Clock NodeMcu.Rtc.UnitCycles

/-! ## Runs of the clock -/

inductive Source
  | ccount
  | frc2
  deriving DecidableEq

def Source.magic : Source → UInt32
  | .ccount => magicCcount
  | .frc2 => magicFrc2

def Source.counter : Source → Counters → UInt32
  | .ccount, c => c.ccount
  | .frc2, c => c.frc2

inductive Call
  | read
  | tick
  | selectFrc2
  | selectCcount (mhz : UInt32) (pos : mhz ≠ 0)

/-- A call, and the ticks of the two counters since the call in front of it. -/
structure Event where
  ccount : Nat
  frc2 : Nat
  call : Call

def Event.ticks (e : Event) : Source → Nat
  | .ccount => e.ccount
  | .frc2 => e.frc2

structure World where
  counters : Counters
  clock : RtcTime

def advance (c : Counters) (e : Event) : Counters :=
  ⟨c.ccount + UInt32.ofNat e.ccount, c.frc2 + UInt32.ofNat e.frc2⟩

def World.step (w : World) (e : Event) : World :=
  let c := advance w.counters e
  ⟨c, match e.call with
    | .read => (unixUnitcycles c w.clock).2
    | .tick => tmrfn c w.clock
    | .selectFrc2 => switchToSystemClock c w.clock
    | .selectCcount mhz _ => switchToCcountFrequency mhz c w.clock⟩

/-- What a read gives. -/
def World.time (w : World) : Nat := (unixUnitcycles w.counters w.clock).1.toNat

/-! ## The sum over the phases -/

/-- The phase with its multiplier, and the sum so far. -/
structure Ideal where
  source : Source
  units : Nat
  total : Nat

def Ideal.step (i : Ideal) (e : Event) : Ideal :=
  let total := i.total + e.ticks i.source * i.units
  match e.call with
  | .read => { i with total }
  | .tick => { i with total }
  | .selectFrc2 => ⟨.frc2, frc2Multiplier.toNat, total⟩
  | .selectCcount mhz _ => ⟨.ccount, (ccountMultiplier mhz).toNat, total⟩

/-- The clock was just accessed, and its time is known. -/
structure Started (w : World) (source : Source) : Prop where
  magic : w.clock.magic = source.magic
  known : w.clock.cycleOffset ≠ 0
  access : source.counter w.counters = w.clock.lastSourceVal

def start (w : World) (source : Source) : Ideal := ⟨source, w.clock.sourceCycleUnits.toNat, w.time⟩

def both (s : World × Ideal) (e : Event) : World × Ideal := (s.1.step e, s.2.step e)

/-- The active counter goes round less than once, and the sum has room in its word. -/
def Slow (s : World × Ideal) (e : Event) : Prop :=
  e.ticks s.2.source < 2 ^ 32 ∧ (s.2.step e).total < 2 ^ 64

def Call.Switches : Call → Prop
  | .read => False
  | .tick => False
  | .selectFrc2 => True
  | .selectCcount _ _ => True

/-- At a switch the new counter shows the time itself, so that the offset would be 0. -/
def Clash (s : World × Ideal) (e : Event) : Prop :=
  e.call.Switches ∧ (s.2.step e).total =
    ((s.2.step e).source.counter (advance s.1.counters e)).toNat * (s.2.step e).units

/-! ## The clock follows the sum -/

/-- The clock represents the sum. -/
structure Tracks (w : World) (i : Ideal) : Prop where
  magic : w.clock.magic = i.source.magic
  known : w.clock.cycleOffset ≠ 0
  access : i.source.counter w.counters = w.clock.lastSourceVal
  units : w.clock.sourceCycleUnits.toNat = i.units
  total : (lastUnitcycles w.clock).toNat = i.total

theorem source_eq {s : RtcTime} {source : Source} (h : s.magic = source.magic) (c : Counters) :
    Clock.source s c = some (source.counter c) := by
  cases source with
  | ccount =>
    change s.magic = magicCcount at h
    rw [Clock.source, if_pos h]
    rfl
  | frc2 =>
    change s.magic = magicFrc2 at h
    have hne : s.magic ≠ magicCcount := by
      rw [h]
      decide
    rw [Clock.source, if_neg hne, if_pos h]
    rfl

theorem checkMagic_eq {s : RtcTime} {source : Source} (h : s.magic = source.magic) :
    checkMagic s = true := by
  rw [checkMagic, checkWakeMagic, h]
  cases source <;> decide

theorem counter_advance (source : Source) (c : Counters) (e : Event) :
    source.counter (advance c e) = source.counter c + UInt32.ofNat (e.ticks source) := by
  cases source <;> rfl

section Step

variable {w : World} {i : Ideal} {e : Event}

/-- The ticks since the last access. -/
theorem ticks_toNat (h : Tracks w i) (hslow : e.ticks i.source < 2 ^ 32) :
    (i.source.counter (advance w.counters e) - w.clock.lastSourceVal).toNat =
      e.ticks i.source := by
  rw [counter_advance, h.access, UInt32.add_comm, UInt32.add_sub_cancel, UInt32.toNat_ofNat']
  exact Nat.mod_eq_of_lt hslow

theorem total_step (i : Ideal) (e : Event) :
    (i.step e).total = i.total + e.ticks i.source * i.units := by
  rw [Ideal.step]
  cases e.call <;> rfl

/-- The access of the source, in front of what a call does with it. -/
theorem access_readTo (h : Tracks w i) (hslow : Slow (w, i) e) :
    ReadTo w.clock (i.source.counter (advance w.counters e))
        (sourceOffset (advance w.counters e) w.clock).2 ∧
      ReadTo w.clock (i.source.counter (advance w.counters e))
        (unixUnitcycles (advance w.counters e) w.clock).2 ∧
      (unixUnitcycles (advance w.counters e) w.clock).1 =
        lastUnitcycles (unixUnitcycles (advance w.counters e) w.clock).2 := by
  obtain ⟨hticks, hroom⟩ := hslow
  have hfits : (lastUnitcycles w.clock).toNat +
      (i.source.counter (advance w.counters e) - w.clock.lastSourceVal).toNat *
        w.clock.sourceCycleUnits.toNat < 2 ^ 64 := by
    rw [ticks_toNat h hticks, h.total, h.units, ← total_step]
    exact hroom
  have hsource := source_eq h.magic (advance w.counters e)
  exact ⟨(sourceOffset_readTo hsource h.known hfits).1,
    (unixUnitcycles_readTo hsource h.known hfits).1,
    (unixUnitcycles_readTo hsource h.known hfits).2⟩

theorem total_readTo (h : Tracks w i) (hslow : Slow (w, i) e) {t : RtcTime}
    (hread : ReadTo w.clock (i.source.counter (advance w.counters e)) t) :
    (lastUnitcycles t).toNat = (i.step e).total := by
  rw [hread.time, ticks_toNat h hslow.1, h.total, h.units, total_step]

/-- An access without a switch. -/
theorem tracks_readTo (h : Tracks w i) (hslow : Slow (w, i) e) {t : RtcTime}
    (hread : ReadTo w.clock (i.source.counter (advance w.counters e)) t) :
    Tracks ⟨advance w.counters e, t⟩ { i with total := (i.step e).total } := by
  have htotal := total_readTo h hslow hread
  obtain ⟨hsame, hknown, -⟩ := hread
  refine ⟨?_, hknown, ?_, ?_, htotal⟩
  · rw [hsame]
    exact h.magic
  · rw [hsame]
  · rw [hsame]
    exact h.units

/-- A switch to a counter that does not show the time itself. -/
theorem tracks_selectSource (h : Tracks w i) (hslow : Slow (w, i) e) (source : Source)
    (units : UInt32) (hne : (i.step e).total ≠
      (source.counter (advance w.counters e)).toNat * units.toNat) :
    Tracks ⟨advance w.counters e, selectSource source.magic units
        (source.counter (advance w.counters e)) (advance w.counters e) w.clock⟩
      ⟨source, units.toNat, (i.step e).total⟩ := by
  obtain ⟨-, hread, htime⟩ := access_readTo h hslow
  have htotal := total_readTo h hslow hread
  have hmagic : (unixUnitcycles (advance w.counters e) w.clock).2.magic = i.source.magic := by
    rw [hread.same]
    exact h.magic
  have hhave : haveTime (unixUnitcycles (advance w.counters e) w.clock).2 = true := by
    rw [haveTime, checkMagic_eq hmagic, Bool.true_and, bne_iff_ne]
    exact hread.known
  rw [← htime] at htotal
  rw [selectSource]
  dsimp only
  rw [if_pos hhave]
  refine ⟨rfl, fun hzero => hne ?_, rfl, rfl, ?_⟩
  · have hback := UInt64.sub_add_cancel (unixUnitcycles (advance w.counters e) w.clock).1
      ((source.counter (advance w.counters e)).toUInt64 * units.toUInt64)
    change (unixUnitcycles (advance w.counters e) w.clock).1 -
      (source.counter (advance w.counters e)).toUInt64 * units.toUInt64 = 0 at hzero
    rw [hzero, UInt64.zero_add] at hback
    rw [← htotal, ← hback, product_toNat]
  · rw [lastUnitcycles]
    dsimp only
    rw [UInt64.sub_add_cancel]
    exact htotal

theorem tracks_step (h : Tracks w i) (hslow : Slow (w, i) e) (hclash : ¬Clash (w, i) e) :
    Tracks (w.step e) (i.step e) := by
  obtain ⟨hoffset, hread, -⟩ := access_readTo h hslow
  have htotal := total_step i e
  have hcheck := checkMagic_eq h.magic
  rw [Clash, not_and] at hclash
  cases hcall : e.call with
  | read =>
    have ht := tracks_readTo h hslow hread
    rw [World.step, hcall, Ideal.step, hcall]
    rwa [htotal] at ht
  | tick =>
    have ht := tracks_readTo h hslow hoffset
    rw [World.step, hcall, Ideal.step, hcall]
    rwa [htotal] at ht
  | selectFrc2 =>
    have hne := hclash (by rw [hcall]; trivial)
    have hideal : i.step e = ⟨.frc2, frc2Multiplier.toNat, (i.step e).total⟩ := by
      rw [htotal, Ideal.step, hcall]
    rw [hideal] at hne ⊢
    rw [World.step, hcall]
    dsimp only
    rw [switchToSystemClock, if_pos hcheck]
    exact tracks_selectSource h hslow .frc2 frc2Multiplier hne
  | selectCcount mhz pos =>
    have hne := hclash (by rw [hcall]; trivial)
    have hideal : i.step e = ⟨.ccount, (ccountMultiplier mhz).toNat, (i.step e).total⟩ := by
      rw [htotal, Ideal.step, hcall]
    rw [hideal] at hne ⊢
    rw [World.step, hcall]
    dsimp only
    rw [switchToCcountFrequency, if_pos hcheck]
    exact tracks_selectSource h hslow .ccount (ccountMultiplier mhz) hne

end Step

/-- A read right after an access gives the time of the access. -/
theorem time_tracks {w : World} {i : Ideal} (h : Tracks w i) : w.time = i.total := by
  have hticks : (i.source.counter w.counters - w.clock.lastSourceVal).toNat = 0 := by
    rw [h.access, UInt32.sub_self]
    rfl
  have hlt := (lastUnitcycles w.clock).toNat_lt
  obtain ⟨hread, htime⟩ := unixUnitcycles_readTo (source_eq h.magic w.counters) h.known
    (by rw [hticks]; omega)
  rw [World.time, htime, hread.time, hticks, Nat.zero_mul, Nat.add_zero, h.total]

theorem tracks_start {w : World} {source : Source} (h : Started w source) :
    Tracks w (start w source) := by
  have ht : Tracks w ⟨source, w.clock.sourceCycleUnits.toNat, (lastUnitcycles w.clock).toNat⟩ :=
    ⟨h.magic, h.known, h.access, rfl, rfl⟩
  rw [start, time_tracks ht]
  exact ht

/-- The clock gives the start value and the ticks of all phases times their multipliers. -/
theorem time_eq_total (w : World) (source : Source) (h : Started w source) (events : List Event)
    (hevents : Along both (fun s e => Slow s e ∧ ¬Clash s e) (w, start w source) events) :
    (run both (w, start w source) events).1.time =
      (run both (w, start w source) events).2.total := by
  have hstep : ∀ s e, Tracks s.1 s.2 → Slow s e ∧ ¬Clash s e → Tracks (both s e).1 (both s e).2 :=
    fun s e hs hc => tracks_step hs hc.1 hc.2
  have htracks := run_invariant both _ (fun s => Tracks s.1 s.2) hstep (w, start w source) events
    (tracks_start h) hevents
  exact time_tracks htracks

/-- A time in the year 2001, with a counter that is about to go round. -/
def lateWorld : World where
  counters := ⟨1, 0xffffffff⟩
  clock := ⟨magicFrc2, 2035068208001000000, 0xffffffff, 6656, 0, 0, 0, 0, 0⟩

/-- A rollover, and a switch of the source behind it. -/
def rollover : List Event :=
  [⟨500, 3, .tick⟩, ⟨0, 0, .selectCcount 80 (by decide)⟩, ⟨4000000000, 7, .read⟩]

theorem time_rollover :
    (run both (lateWorld, start lateWorld .frc2) rollover).1.time =
      (run both (lateWorld, start lateWorld .frc2) rollover).2.total :=
  time_eq_total lateWorld .frc2 ⟨rfl, by decide, rfl⟩ rollover
    ⟨⟨⟨by decide, by decide⟩, fun h => h.1⟩,
      ⟨⟨by decide, by decide⟩, fun h => absurd h.2 (by decide)⟩,
      ⟨⟨by decide, by decide⟩, fun h => h.1⟩, trivial⟩

/-! ## A time that meets the new counter -/

/-- The time is 26 unit cycles, and the cycle counter shows 1. -/
def earlyWorld : World where
  counters := ⟨1, 0⟩
  clock := ⟨magicFrc2, 26, 0, 6656, 0, 0, 0, 0, 0⟩

def selectDefault : Event := ⟨0, 0, .selectCcount 80 (by decide)⟩

/-- At 80 MHz a cycle takes 26 unit cycles: the offset is 0, and the time is lost. -/
theorem earlyWorld_not_total :
    Started earlyWorld .frc2 ∧
    Along both Slow (earlyWorld, start earlyWorld .frc2) [selectDefault] ∧
    (run both (earlyWorld, start earlyWorld .frc2) [selectDefault]).1.time ≠
      (run both (earlyWorld, start earlyWorld .frc2) [selectDefault]).2.total := by
  refine ⟨⟨rfl, by decide, rfl⟩, ⟨⟨by decide, by decide⟩, trivial⟩, by decide⟩

end NodeMcu.Rtc.Sources
