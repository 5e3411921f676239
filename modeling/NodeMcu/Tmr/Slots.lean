import NodeMcu.Lib.Run
import Mathlib.Data.Fintype.Basic
import Mathlib.Logic.Function.Basic
import Mathlib.Tactic.SplitIfs

namespace NodeMcu.Tmr.Slots

open NodeMcu.Lib.Run

/-! ## The alarm timers -/

def numTmr : Nat := 7

def timerModeOff : UInt8 := 3
def timerModeSingle : UInt8 := 0
def timerModeSemi : UInt8 := 2
def timerModeAuto : UInt8 := 1
def timerIdleFlag : UInt8 := 0x80

def maxTimeout : UInt32 := 6870947

/-- How a timer of the system runs. -/
structure Arming where
  ms : UInt32
  repeated : Bool
  deriving DecidableEq

/-- The timer of the system: how it runs, if it does, and what is given to `alarm_timer_common`. -/
structure OsTimer where
  armed : Option Arming
  arg : UInt32

structure Timer where
  os : OsTimer
  luaRef : Option Nat
  interval : UInt32
  mode : UInt8

def Timer.disarm (tmr : Timer) : Timer := { tmr with os := { tmr.os with armed := none } }

def Timer.armNew (tmr : Timer) : Timer :=
  { tmr with os := { tmr.os with armed := some ⟨tmr.interval, tmr.mode == timerModeAuto⟩ } }

def isIdle (mode : UInt8) : Bool := mode &&& timerIdleFlag != 0

def isActive (mode : UInt8) : Bool := !isIdle mode && mode != timerModeOff

abbrev Timers := Fin numTmr → Timer

inductive Err
  | noTimer (id : UInt32)
  | argument (index : Nat) (msg : String)
  deriving DecidableEq

/-- What a call returns, or the function that an expiry calls. -/
inductive Reply
  | nothing
  | bool (b : Bool)
  | called (ref : Nat)
  deriving DecidableEq

abbrev Answer := Except Err Reply

/-- A timer is reached by its number once that was checked. -/
def withTimer (ts : Timers) (id : UInt32) (f : Timer → Timer × Answer) : Timers × Answer :=
  if h : id.toNat < numTmr then
    let update := f (ts ⟨id.toNat, h⟩)
    (Function.update ts ⟨id.toNat, h⟩ update.1, update.2)
  else (ts, .error (.noTimer id))

/-- Most calls take the number as a byte, and check it then. -/
def idByte (id : Int32) : UInt32 := id.toUInt32.toUInt8.toUInt32

def intervalOk (interval : UInt32) : Bool := 0 < interval && interval ≤ maxTimeout

def modeOk (mode : UInt8) : Bool :=
  mode == timerModeSingle || mode == timerModeSemi || mode == timerModeAuto

/-- The arguments of `tmr.register`: the last is a function, which gets a reference, or not. -/
structure RegisterArgs where
  id : Int32
  interval : Int32
  mode : Int32
  isFunction : Bool
  ref : Nat

def rangeMsg : String := "Range: 1-6870947"

def registerTimer (id : UInt32) (x : RegisterArgs) (tmr : Timer) : Timer × Answer :=
  let interval := x.interval.toUInt32
  let mode := x.mode.toUInt32.toUInt8
  if !intervalOk interval then (tmr, .error (.argument 2 rangeMsg))
  else if !modeOk mode then (tmr, .error (.argument 3 "Invalid mode"))
  else if !x.isFunction then (tmr, .error (.argument 4 "Must be function"))
  else
    let tmr := if isActive tmr.mode then tmr.disarm else tmr
    ({ tmr with
        luaRef := some x.ref
        mode := mode ||| timerIdleFlag
        interval := interval
        os := { tmr.os with arg := id } }, .ok .nothing)

def tmrRegister (ts : Timers) (x : RegisterArgs) : Timers × Answer :=
  withTimer ts x.id.toUInt32 (registerTimer x.id.toUInt32 x)

/-- The answer is false if the timer is not idle. -/
def startTimer (tmr : Timer) : Timer × Answer :=
  if !isIdle tmr.mode then (tmr, .ok (.bool false))
  else ({ tmr with mode := tmr.mode &&& ~~~timerIdleFlag }.armNew, .ok (.bool true))

def tmrStart (ts : Timers) (id : Int32) : Timers × Answer := withTimer ts (idByte id) startTimer

def tmrAlarm (ts : Timers) (x : RegisterArgs) : Timers × Answer :=
  match tmrRegister ts x with
  | (ts, .error e) => (ts, .error e)
  | (ts, .ok _) => tmrStart ts x.id

/-- The answer is false if the timer is idle or not registered. -/
def stopTimer (tmr : Timer) : Timer × Answer :=
  if isActive tmr.mode then
    ({ tmr with mode := tmr.mode ||| timerIdleFlag }.disarm, .ok (.bool true))
  else (tmr, .ok (.bool false))

def tmrStop (ts : Timers) (id : Int32) : Timers × Answer := withTimer ts (idByte id) stopTimer

def unregisterTimer (tmr : Timer) : Timer × Answer :=
  let tmr := if isActive tmr.mode then tmr.disarm else tmr
  ({ tmr with luaRef := none, mode := timerModeOff }, .ok .nothing)

def tmrUnregister (ts : Timers) (id : Int32) : Timers × Answer :=
  withTimer ts (idByte id) unregisterTimer

def intervalTimer (interval : UInt32) (tmr : Timer) : Timer × Answer :=
  if !intervalOk interval then (tmr, .error (.argument 2 rangeMsg))
  else if tmr.mode ≠ timerModeOff then
    let tmr := { tmr with interval := interval }
    (if !isIdle tmr.mode then tmr.disarm.armNew else tmr, .ok .nothing)
  else (tmr, .ok .nothing)

def tmrInterval (ts : Timers) (id interval : Int32) : Timers × Answer :=
  withTimer ts (idByte id) (intervalTimer interval.toUInt32)

/-- A timer of mode `SINGLE` is cleaned up, and one of mode `SEMI` waits for a start. -/
def commonTimer (tmr : Timer) : Timer × Answer :=
  match tmr.luaRef with
  | none => (tmr, .ok .nothing)
  | some ref =>
    if tmr.mode = timerModeSingle then
      ({ tmr with luaRef := none, mode := timerModeOff }, .ok (.called ref))
    else if tmr.mode = timerModeSemi then
      ({ tmr with mode := tmr.mode ||| timerIdleFlag }, .ok (.called ref))
    else (tmr, .ok (.called ref))

def alarmTimerCommon (ts : Timers) (arg : UInt32) : Timers × Answer := withTimer ts arg commonTimer

/-- A timer of the system that does not repeat stops before it calls back. -/
def expire (ts : Timers) (i : Fin numTmr) : Timers × Answer :=
  match (ts i).os.armed with
  | none => (ts, .ok .nothing)
  | some arming =>
    let ts := if arming.repeated then ts else Function.update ts i (ts i).disarm
    alarmTimerCommon ts (ts i).os.arg

inductive Event
  | register (x : RegisterArgs)
  | alarm (x : RegisterArgs)
  | start (id : Int32)
  | stop (id : Int32)
  | unregister (id : Int32)
  | interval (id interval : Int32)
  | expired (i : Fin numTmr)

def handle (ts : Timers) : Event → Timers × Answer
  | .register x => tmrRegister ts x
  | .alarm x => tmrAlarm ts x
  | .start id => tmrStart ts id
  | .stop id => tmrStop ts id
  | .unregister id => tmrUnregister ts id
  | .interval id interval => tmrInterval ts id interval
  | .expired i => expire ts i

def step (ts : Timers) (e : Event) : Timers := (handle ts e).1

/-- `luaopen_tmr`. -/
def opened : Timers := fun _ => ⟨⟨none, 0⟩, none, 0, timerModeOff⟩

/-! ## What is expected of a timer -/

def isRegistered (tmr : Timer) : Bool := tmr.mode != timerModeOff

/-- The timer of the system runs, with the interval and the mode, exactly when the timer is
registered and not idle, and there is a reference exactly when it is registered. -/
structure Consistent (tmr : Timer) : Prop where
  armed : tmr.os.armed =
    if isRegistered tmr && !isIdle tmr.mode then
      some ⟨tmr.interval, tmr.mode == timerModeAuto⟩ else none
  ref : tmr.luaRef.isSome = isRegistered tmr

/-- The number that a call is given. -/
def idOf : Event → Option Int32
  | .register x => some x.id
  | .alarm x => some x.id
  | .start id => some id
  | .stop id => some id
  | .unregister id => some id
  | .interval id _ => some id
  | .expired _ => none

def Outside (id : Int32) : Prop := id.toInt < 0 ∨ numTmr ≤ id.toInt

/-- A call with a number that is no timer's raises an error and changes nothing. -/
def Refused (ts : Timers) (e : Event) : Prop :=
  ∀ id, idOf e = some id → Outside id →
    (∃ err, (handle ts e).2 = .error err) ∧ (handle ts e).1 = ts

structure Lawful (ts : Timers) (e : Event) : Prop where
  consistent : ∀ i, Consistent (step ts e i)
  refused : Refused ts e

/-! ## When it is met -/

/-- The low byte of a number that is no timer's is no timer's either, where only the byte is
checked, or else the interval is refused. -/
def Narrow : Event → Prop
  | .start id => Outside id → numTmr ≤ (idByte id).toNat
  | .stop id => Outside id → numTmr ≤ (idByte id).toNat
  | .unregister id => Outside id → numTmr ≤ (idByte id).toNat
  | .interval id interval =>
    Outside id → numTmr ≤ (idByte id).toNat ∨ intervalOk interval.toUInt32 = false
  | _ => True

/-! ## The states of a timer -/

inductive Mode
  | single
  | semi
  | auto

def Mode.byte : Mode → UInt8
  | .single => timerModeSingle
  | .semi => timerModeSemi
  | .auto => timerModeAuto

@[simp] theorem isIdle_off : isIdle timerModeOff = false := rfl

@[simp] theorem isActive_off : isActive timerModeOff = false := rfl

namespace Mode

variable (m : Mode)

@[simp] theorem isIdle_byte : isIdle m.byte = false := by cases m <;> rfl

@[simp] theorem isIdle_idle : isIdle (m.byte ||| timerIdleFlag) = true := by cases m <;> rfl

@[simp] theorem isActive_byte : isActive m.byte = true := by cases m <;> rfl

@[simp] theorem isActive_idle : isActive (m.byte ||| timerIdleFlag) = false := by cases m <;> rfl

@[simp] theorem byte_ne_off : m.byte ≠ timerModeOff := by cases m <;> decide

@[simp] theorem idle_ne_off : m.byte ||| timerIdleFlag ≠ timerModeOff := by cases m <;> decide

@[simp] theorem clear_idle : (m.byte ||| timerIdleFlag) &&& ~~~timerIdleFlag = m.byte := by
  cases m <;> rfl

theorem exists_of_ok {mode : UInt8} (h : modeOk mode = true) : ∃ m : Mode, mode = m.byte := by
  rw [modeOk, Bool.or_eq_true, Bool.or_eq_true, beq_iff_eq, beq_iff_eq, beq_iff_eq] at h
  obtain (rfl | rfl) | rfl := h
  · exact ⟨.single, rfl⟩
  · exact ⟨.semi, rfl⟩
  · exact ⟨.auto, rfl⟩

end Mode

/-- A timer is not registered, or it is and waits for a start, or it runs. -/
inductive Sound (i : Nat) (tmr : Timer) : Prop
  | off (hmode : tmr.mode = timerModeOff) (harmed : tmr.os.armed = none)
      (href : tmr.luaRef = none)
  | idle (m : Mode) (ref : Nat) (hmode : tmr.mode = m.byte ||| timerIdleFlag)
      (harmed : tmr.os.armed = none) (href : tmr.luaRef = some ref)
      (harg : tmr.os.arg.toNat = i)
  | running (m : Mode) (ref : Nat) (hmode : tmr.mode = m.byte)
      (harmed : tmr.os.armed = some ⟨tmr.interval, m.byte == timerModeAuto⟩)
      (href : tmr.luaRef = some ref) (harg : tmr.os.arg.toNat = i)

section Timer

variable {i : Nat} {tmr : Timer}

theorem Sound.consistent (h : Sound i tmr) : Consistent tmr := by
  cases h with
  | off hmode harmed href =>
    exact ⟨by simp [isRegistered, hmode, harmed], by simp [isRegistered, hmode, href]⟩
  | idle m ref hmode harmed href harg =>
    exact ⟨by simp [hmode, harmed], by simp [isRegistered, hmode, href]⟩
  | running m ref hmode harmed href harg =>
    exact ⟨by simp [isRegistered, hmode, harmed], by simp [isRegistered, hmode, href]⟩

/-- A timer that is active is disarmed, and no other one is armed. -/
theorem disarmed (h : Sound i tmr) :
    (if isActive tmr.mode then tmr.disarm else tmr).os.armed = none := by
  cases h with
  | off hmode harmed href =>
    rw [hmode]
    exact harmed
  | idle m ref hmode harmed href harg => simpa [hmode] using harmed
  | running m ref hmode harmed href harg => simp [hmode, Timer.disarm]

theorem registerTimer_sound (h : Sound i tmr) {id : UInt32} (hid : id.toNat = i)
    (x : RegisterArgs) : Sound i (registerTimer id x tmr).1 := by
  rw [registerTimer]
  dsimp only
  split_ifs with hinterval hmode hfunction hactive
  · exact h
  · exact h
  · exact h
  · obtain ⟨m, hm⟩ := Mode.exists_of_ok (by simpa using hmode)
    exact .idle m x.ref (by rw [hm]) rfl rfl hid
  · obtain ⟨m, hm⟩ := Mode.exists_of_ok (by simpa using hmode)
    have hoff := disarmed h
    rw [if_neg hactive] at hoff
    exact .idle m x.ref (by rw [hm]) hoff rfl hid

theorem startTimer_sound (h : Sound i tmr) : Sound i (startTimer tmr).1 := by
  cases h with
  | off hmode harmed href =>
    simp only [startTimer, hmode, isIdle_off]
    exact .off hmode harmed href
  | idle m ref hmode harmed href harg =>
    simp only [startTimer, hmode, Mode.isIdle_idle, Mode.clear_idle]
    exact .running m ref rfl rfl href harg
  | running m ref hmode harmed href harg =>
    simp only [startTimer, hmode, Mode.isIdle_byte]
    exact .running m ref hmode harmed href harg

theorem stopTimer_sound (h : Sound i tmr) : Sound i (stopTimer tmr).1 := by
  cases h with
  | off hmode harmed href =>
    simp only [stopTimer, hmode, isActive_off]
    exact .off hmode harmed href
  | idle m ref hmode harmed href harg =>
    simp only [stopTimer, hmode, Mode.isActive_idle]
    exact .idle m ref hmode harmed href harg
  | running m ref hmode harmed href harg =>
    simp only [stopTimer, hmode, Mode.isActive_byte]
    exact .idle m ref rfl rfl href harg

theorem unregisterTimer_sound (h : Sound i tmr) : Sound i (unregisterTimer tmr).1 :=
  .off rfl (disarmed h) rfl

theorem intervalTimer_sound (h : Sound i tmr) (interval : UInt32) :
    Sound i (intervalTimer interval tmr).1 := by
  rw [intervalTimer]
  split_ifs with hrefused hregistered
  · exact h
  · cases h with
    | off hmode harmed href => exact absurd hmode hregistered
    | idle m ref hmode harmed href harg =>
      simp only [hmode, Mode.isIdle_idle]
      exact .idle m ref rfl harmed href harg
    | running m ref hmode harmed href harg =>
      simp only [hmode, Mode.isIdle_byte]
      exact .running m ref rfl rfl href harg
  · exact h

/-- An expiry is the callback of a timer that has stopped unless it repeats. -/
theorem expired_sound {arming : Arming} (h : Sound i tmr) (harmed : tmr.os.armed = some arming) :
    Sound i (commonTimer (if arming.repeated then tmr else tmr.disarm)).1 := by
  cases h with
  | off hmode hnone href => cases hnone.symm.trans harmed
  | idle m ref hmode hnone href harg => cases hnone.symm.trans harmed
  | running m ref hmode hrun href harg =>
    cases hrun.symm.trans harmed
    cases m with
    | single =>
      have hcommon : commonTimer tmr.disarm =
          ({ tmr.disarm with luaRef := none, mode := timerModeOff }, .ok (.called ref)) := by
        simp only [commonTimer, Timer.disarm, href, hmode]
        rfl
      exact hcommon ▸ .off rfl rfl rfl
    | semi =>
      have hcommon : commonTimer tmr.disarm =
          ({ tmr.disarm with mode := Mode.semi.byte ||| timerIdleFlag }, .ok (.called ref)) := by
        simp only [commonTimer, Timer.disarm, href, hmode]
        rfl
      exact hcommon ▸ .idle .semi ref rfl rfl href harg
    | auto =>
      have hcommon : commonTimer tmr = (tmr, .ok (.called ref)) := by
        simp only [commonTimer, href, hmode]
        rfl
      exact hcommon ▸ .running .auto ref hmode harmed href harg

theorem Sound.arg_of_armed {arming : Arming} (h : Sound i tmr)
    (harmed : tmr.os.armed = some arming) : tmr.os.arg.toNat = i := by
  cases h with
  | off hmode hnone href => cases hnone.symm.trans harmed
  | idle m ref hmode hnone href harg => exact harg
  | running m ref hmode hrun href harg => exact harg

end Timer

/-! ## Steps and runs -/

/-- Every timer is in one of its states. -/
def AllSound (ts : Timers) : Prop := ∀ i : Fin numTmr, Sound i (ts i)

section Steps

variable {ts : Timers}

theorem update_sound (h : AllSound ts) {i : Fin numTmr} {tmr : Timer} (htmr : Sound i tmr) :
    AllSound (Function.update ts i tmr) := by
  intro j
  obtain rfl | hne := eq_or_ne j i
  · rw [Function.update_self]
    exact htmr
  · rw [Function.update_of_ne hne]
    exact h j

theorem withTimer_sound (h : AllSound ts) {id : UInt32} {f : Timer → Timer × Answer}
    (hf : ∀ tmr, Sound id.toNat tmr → Sound id.toNat (f tmr).1) :
    AllSound (withTimer ts id f).1 := by
  rw [withTimer]
  split_ifs with hid
  · exact update_sound h (hf _ (h ⟨id.toNat, hid⟩))
  · exact h

theorem tmrRegister_sound (h : AllSound ts) (x : RegisterArgs) : AllSound (tmrRegister ts x).1 :=
  withTimer_sound h fun _ htmr => registerTimer_sound htmr rfl x

theorem tmrStart_sound (h : AllSound ts) (id : Int32) : AllSound (tmrStart ts id).1 :=
  withTimer_sound h fun _ => startTimer_sound

theorem tmrAlarm_sound (h : AllSound ts) (x : RegisterArgs) : AllSound (tmrAlarm ts x).1 := by
  have hregister := tmrRegister_sound h x
  rw [tmrAlarm]
  split
  · rename_i ts' e heq
    rw [heq] at hregister
    exact hregister
  · rename_i ts' r heq
    rw [heq] at hregister
    exact tmrStart_sound hregister x.id

theorem withTimer_eq {id : UInt32} {i : Fin numTmr} (hid : id.toNat = i)
    (f : Timer → Timer × Answer) :
    withTimer ts id f = (Function.update ts i (f (ts i)).1, (f (ts i)).2) := by
  obtain ⟨i, hi⟩ := i
  change id.toNat = i at hid
  subst hid
  rw [withTimer, dif_pos hi]

theorem expire_sound (h : AllSound ts) (i : Fin numTmr) : AllSound (expire ts i).1 := by
  rw [expire]
  cases harmed : (ts i).os.armed with
  | none => exact h
  | some arming =>
    have harg := (h i).arg_of_armed harmed
    have hsound := expired_sound (h i) harmed
    dsimp only
    rw [alarmTimerCommon]
    cases hrepeat : arming.repeated with
    | true =>
      rw [hrepeat] at hsound
      rw [if_pos rfl, withTimer_eq harg]
      exact update_sound h hsound
    | false =>
      rw [hrepeat] at hsound
      have hsame : (ts i).disarm.os.arg.toNat = i := harg
      rw [if_neg Bool.false_ne_true, Function.update_self, withTimer_eq hsame,
        Function.update_self, Function.update_idem]
      exact update_sound h hsound

theorem step_sound (h : AllSound ts) (e : Event) : AllSound (step ts e) := by
  cases e with
  | register x => exact tmrRegister_sound h x
  | alarm x => exact tmrAlarm_sound h x
  | start id => exact tmrStart_sound h id
  | stop id => exact withTimer_sound h fun _ => stopTimer_sound
  | unregister id => exact withTimer_sound h fun _ => unregisterTimer_sound
  | interval id interval => exact withTimer_sound h fun _ htmr => intervalTimer_sound htmr _
  | expired i => exact expire_sound h i

end Steps

theorem opened_sound : AllSound opened := fun _ => .off rfl rfl rfl

/-! ## Numbers that are no timer's -/

section Refusal

variable {ts : Timers} {id : Int32}

theorem outside_iff : Outside id ↔ numTmr ≤ id.toUInt32.toNat := by
  have hlt := id.toUInt32.toNat_lt
  have hint : id.toInt = if 2 * id.toUInt32.toNat < 2 ^ 32 then (id.toUInt32.toNat : Int)
      else id.toUInt32.toNat - 2 ^ 32 := BitVec.toInt_eq_toNat_cond ..
  rw [Outside, hint]
  simp only [numTmr]
  split_ifs <;> omega

theorem withTimer_refused {word : UInt32} (h : numTmr ≤ word.toNat) (f : Timer → Timer × Answer) :
    withTimer ts word f = (ts, .error (.noTimer word)) := by
  rw [withTimer, dif_neg (Nat.not_lt.mpr h)]

/-- Where the call itself raises no error, only the check of the number does. -/
theorem withTimer_error_iff (ts : Timers) (word : UInt32) {f : Timer → Timer × Answer}
    (hf : ∀ tmr, ∃ r, (f tmr).2 = .ok r) :
    (∃ err, (withTimer ts word f).2 = .error err) ∧ (withTimer ts word f).1 = ts ↔
      numTmr ≤ word.toNat := by
  constructor
  · rintro ⟨⟨err, herr⟩, -⟩
    by_contra hlt
    obtain ⟨r, hr⟩ := hf (ts ⟨word.toNat, Nat.lt_of_not_le hlt⟩)
    rw [withTimer, dif_pos (Nat.lt_of_not_le hlt), hr] at herr
    cases herr
  · intro h
    rw [withTimer_refused h]
    exact ⟨⟨_, rfl⟩, rfl⟩

theorem startTimer_ok (tmr : Timer) : ∃ r, (startTimer tmr).2 = .ok r := by
  rw [startTimer]
  split_ifs
  · exact ⟨_, rfl⟩
  · exact ⟨_, rfl⟩

theorem stopTimer_ok (tmr : Timer) : ∃ r, (stopTimer tmr).2 = .ok r := by
  rw [stopTimer]
  split_ifs
  · exact ⟨_, rfl⟩
  · exact ⟨_, rfl⟩

theorem intervalTimer_ok {interval : UInt32} (h : intervalOk interval = true) (tmr : Timer) :
    ∃ r, (intervalTimer interval tmr).2 = .ok r := by
  rw [intervalTimer, h]
  split_ifs
  · contradiction
  · exact ⟨_, rfl⟩
  · exact ⟨_, rfl⟩

/-- An interval that is out of range changes nothing. -/
theorem withTimer_interval {interval : UInt32} (h : intervalOk interval = false) (word : UInt32) :
    (∃ err, (withTimer ts word (intervalTimer interval)).2 = .error err) ∧
      (withTimer ts word (intervalTimer interval)).1 = ts := by
  have hinterval (tmr : Timer) :
      intervalTimer interval tmr = (tmr, .error (.argument 2 rangeMsg)) := by
    rw [intervalTimer, h]
    rfl
  rw [withTimer]
  split_ifs with hid
  · rw [hinterval]
    exact ⟨⟨_, rfl⟩, Function.update_eq_self _ _⟩
  · exact ⟨⟨_, rfl⟩, rfl⟩

/-- A call that takes the number as a byte. -/
theorem refused_byte_iff {e : Event} {f : Timer → Timer × Answer} (hid : idOf e = some id)
    (hhandle : handle ts e = withTimer ts (idByte id) f)
    (hf : ∀ tmr, ∃ r, (f tmr).2 = .ok r) :
    Refused ts e ↔ (Outside id → numTmr ≤ (idByte id).toNat) := by
  have herror := withTimer_error_iff ts (idByte id) hf
  rw [← hhandle] at herror
  constructor
  · intro h hout
    exact herror.mp (h id hid hout)
  · intro h id' hid' hout
    cases hid.symm.trans hid'
    exact herror.mpr (h hout)

theorem refused_iff (ts : Timers) (e : Event) : Refused ts e ↔ Narrow e := by
  cases e with
  | register x =>
    refine iff_of_true ?_ trivial
    rintro id ⟨⟩ hout
    rw [handle, tmrRegister, withTimer_refused (outside_iff.mp hout)]
    exact ⟨⟨_, rfl⟩, rfl⟩
  | alarm x =>
    refine iff_of_true ?_ trivial
    rintro id ⟨⟩ hout
    rw [handle, tmrAlarm, tmrRegister, withTimer_refused (outside_iff.mp hout)]
    exact ⟨⟨_, rfl⟩, rfl⟩
  | start id => exact refused_byte_iff rfl rfl startTimer_ok
  | stop id => exact refused_byte_iff rfl rfl stopTimer_ok
  | unregister id => exact refused_byte_iff rfl rfl fun _ => ⟨_, rfl⟩
  | interval id interval =>
    cases hinterval : intervalOk interval.toUInt32 with
    | true =>
      rw [refused_byte_iff rfl rfl (intervalTimer_ok hinterval), Narrow, hinterval]
      simp only [Bool.true_eq_false, or_false]
    | false =>
      refine iff_of_true ?_ fun _ => .inr hinterval
      rintro id' ⟨⟩ -
      exact withTimer_interval hinterval (idByte id)
  | expired i =>
    refine iff_of_true ?_ trivial
    rintro id ⟨⟩

end Refusal

/-- In every run, the timers of the system keep to the slots, and a number that is no timer's is
refused, when and only when no such number has a timer's as its low byte. -/
theorem slots_kept_iff (es : List Event) :
    Along step Lawful opened es ↔ ∀ e ∈ es, Narrow e := by
  rw [← along_const_iff step]
  apply along_congr step Lawful (fun _ e => Narrow e) AllSound
  · intro ts e h
    constructor
    · intro hlawful
      exact (refused_iff ts e).mp hlawful.refused
    · intro hnarrow
      exact ⟨fun i => (step_sound h e i).consistent, (refused_iff ts e).mpr hnarrow⟩
  · intro ts e h _
    exact step_sound h e
  · exact opened_sound

/-- The timer that the number 256 stands for is started as timer 0. -/
def startedByByte : List Event :=
  [.register ⟨0, 1000, 1, true, 5⟩, .start 256]

theorem outside_not_refused : ¬ Along step Lawful opened startedByByte := by
  rintro ⟨-, h, -⟩
  obtain ⟨⟨err, herr⟩, -⟩ := h.refused 256 rfl (.inr (by decide))
  cases herr

end NodeMcu.Tmr.Slots
