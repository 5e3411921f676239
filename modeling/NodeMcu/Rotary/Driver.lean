import NodeMcu.Lib.Run
import NodeMcu.Lib.Window

namespace NodeMcu.Rotary.Driver

def rotaryChannelCount : Nat := 3
def queueSize : UInt32 := 8

/-- The bit of a position that says that the switch is pressed. -/
def pressedBit : UInt32 := 0x80000000
def posMask : UInt32 := 0x7FFFFFFF

/-- `rotary_event_t`. -/
structure RotaryEvent where
  pos : UInt32
  timeUs : UInt32
  deriving DecidableEq

/-- `DATA`. The queue has an entry for each index that its mask leaves. -/
structure Data where
  readOffset : UInt32
  writeOffset : UInt32
  pinMask : UInt32
  phaseA : UInt32
  phaseB : UInt32
  press : UInt32
  lastPressChangeTime : UInt32
  tasknumber : Nat
  queue : Nat → RotaryEvent

abbrev Channel := Fin rotaryChannelCount

structure State where
  data : Channel → Option Data
  taskQueued : Bool

/-- The index of an offset in the queue. -/
def indexOf (offset : UInt32) : Nat := (offset &&& (queueSize - 1)).toNat

def getLastStatus (d : Data) : RotaryEvent := d.queue (indexOf (d.writeOffset - 1))
def getPrevStatus (d : Data) : RotaryEvent := d.queue (indexOf (d.writeOffset - 2))
def hasQueuedData (d : Data) : Bool := d.readOffset < d.writeOffset
def hasQueueSpace (d : Data) : Bool := d.readOffset + queueSize - 1 > d.writeOffset

def replaceStatus (d : Data) (e : RotaryEvent) : Data :=
  { d with queue := Function.update d.queue (indexOf (d.writeOffset - 1)) e }

def queueStatus (d : Data) (e : RotaryEvent) : Data :=
  { d with
    queue := Function.update d.queue (indexOf d.writeOffset) e
    writeOffset := d.writeOffset + 1 }

def getReadStatus (d : Data) : RotaryEvent := d.queue (indexOf d.readOffset)

def statusIsPressed (x : UInt32) : Bool := x &&& pressedBit != 0

/-- What the interrupt handler reads for a channel: the pins, the time, the time that it writes to
the queue, and whether the task can be posted. -/
structure Readings where
  bits : UInt32
  now : UInt32
  timeUs : UInt32
  taskPosted : Bool

/-- The press bit of the new status and the time of the last change. Changes are not looked at for
ten milliseconds behind a change. -/
def debounce (d : Data) (r : Readings) : UInt32 × UInt32 :=
  let lastStatus := (getLastStatus d).pos
  if r.now - d.lastPressChangeTime > 10 * 1000 then
    let newStatus := if r.bits &&& d.press ≠ 0 then 0 else pressedBit
    (newStatus, if statusIsPressed (newStatus ^^^ lastStatus) then r.now else d.lastPressChangeTime)
  else (lastStatus &&& pressedBit, d.lastPressChangeTime)

def micropos (d : Data) (r : Readings) : UInt32 :=
  let m := if r.bits &&& d.phaseB ≠ 0 then 3 else 2
  if r.bits &&& d.phaseA ≠ 0 then m ^^^ 3 else m

/-- A step to either side. A missed interrupt is marked in the position. -/
def rotaryPos (d : Data) (r : Readings) : UInt32 :=
  let lastStatus := (getLastStatus d).pos
  let moved := (micropos d r - lastStatus) &&& 3
  if moved = 0 then lastStatus
  else if moved = 1 then lastStatus + 1
  else if moved = 3 then lastStatus - 1
  else lastStatus + 1000000

def newStatus (d : Data) (r : Readings) : UInt32 :=
  (debounce d r).1 ||| (rotaryPos d r &&& posMask)

/-- What becomes of a new status: nothing, an entry of its own, or the last entry. -/
inductive Written
  | unchanged
  | queued
  | replaced
  deriving DecidableEq

def writtenAs (d : Data) (newStatus : UInt32) : Written :=
  let lastStatus := (getLastStatus d).pos
  if lastStatus ≠ newStatus then
    if !hasQueuedData d || statusIsPressed (lastStatus ^^^ newStatus) ||
        statusIsPressed (lastStatus ^^^ (getPrevStatus d).pos) then
      if hasQueueSpace d then .queued else .replaced
    else .replaced
  else .unchanged

def write (d : Data) (e : RotaryEvent) : Written → Data
  | .unchanged => d
  | .queued => queueStatus d e
  | .replaced => replaceStatus d e

/-- The pass of `rotary_interrupt` for a channel with changed pins. -/
def interruptChannel (d : Data) (r : Readings) : Data :=
  write { d with lastPressChangeTime := (debounce d r).2 } ⟨newStatus d r, r.timeUs⟩
    (writtenAs d (newStatus d r))

/-- The changed pins and what the handler reads for each channel. -/
structure Interrupt where
  gpioStatus : UInt32
  readings : Channel → Readings

/-- The loop of `rotary_interrupt` with the pins that are left for other handlers. -/
def interruptLoop (intr : Interrupt) : List Channel → State × UInt32 → State × UInt32
  | [], s => s
  | i :: is, s =>
    match s.1.data i with
    | none => interruptLoop intr is s
    | some d =>
      if intr.gpioStatus &&& d.pinMask = 0 then interruptLoop intr is s
      else
        let r := intr.readings i
        let taskQueued := s.1.taskQueued ||
          (writtenAs d (newStatus d r) == .queued && r.taskPosted)
        interruptLoop intr is
          (⟨Function.update s.1.data i (some (interruptChannel d r)), taskQueued⟩,
            s.2 &&& ~~~ d.pinMask)

def rotaryInterrupt (retGpioStatus : UInt32) (intr : Interrupt) (s : State) : State × UInt32 :=
  interruptLoop intr (List.finRange rotaryChannelCount) (s, retGpioStatus)

/-- The channel of a number, if there is one. -/
def channelOf (channel : Nat) : Option Channel :=
  if h : channel < rotaryChannelCount then some ⟨channel, h⟩ else none

def rotaryClose (channel : Nat) (s : State) : Int × State :=
  match channelOf channel with
  | none => (-1, s)
  | some i => (0, { s with data := Function.update s.data i none })

/-- The bits of the pins of a switch. A switch without a press pin has no bit for it. -/
structure Pins where
  phaseA : UInt32
  phaseB : UInt32
  press : UInt32

def newData (pins : Pins) (tasknumber : Nat) : Data where
  readOffset := 0
  writeOffset := 0
  pinMask := pins.phaseA ||| pins.phaseB ||| pins.press
  phaseA := pins.phaseA
  phaseB := pins.phaseB
  press := pins.press
  lastPressChangeTime := 0
  tasknumber := tasknumber
  queue := fun _ => ⟨0, 0⟩

def rotarySetup (channel : Nat) (pins : Pins) (tasknumber : Nat) (allocOk : Bool) (s : State) :
    Int × State :=
  match channelOf channel with
  | none => (-1, s)
  | some i =>
    let s := (rotaryClose channel s).2
    if allocOk then
      (0, { s with data := Function.update s.data i (some (newData pins tasknumber)) })
    else (-1, s)

/-- The event, and whether it is one from the queue. -/
def getevent (d : Data) : (Bool × RotaryEvent) × Data :=
  if hasQueuedData d then ((true, getReadStatus d), { d with readOffset := d.readOffset + 1 })
  else ((false, getLastStatus d), d)

/-- `none` where no event is stored for the caller. -/
def rotaryGetevent (channel : Nat) (s : State) : (Bool × Option RotaryEvent) × State :=
  match channelOf channel with
  | none => ((false, none), s)
  | some i =>
    match s.data i with
    | none => ((false, none), s)
    | some d =>
      let r := getevent d
      ((r.1.1, some r.1.2), { s with data := Function.update s.data i (some r.2) })

end NodeMcu.Rotary.Driver
