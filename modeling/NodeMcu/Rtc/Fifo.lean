import NodeMcu.Lib.Ring

namespace NodeMcu.Rtc.Fifo

/-- The user memory of the RTC. `touched` records the slots of sample entries and tags that were
read or written. -/
structure RtcMem where
  mem : Nat → UInt32
  touched : List Nat

def rtcMemRead (s : RtcMem) (addr : UInt32) : UInt32 := s.mem addr.toNat

def rtcMemWrite (s : RtcMem) (addr val : UInt32) : RtcMem :=
  { s with mem := Function.update s.mem addr.toNat val }

/-- The slot is one of a sample entry or of a tag. -/
def RtcMem.touch (s : RtcMem) (addr : UInt32) : RtcMem :=
  { s with touched := s.touched ++ [addr.toNat] }

/-! ## The control block -/

def fifoBase : UInt32 := 10

def fifoMagic : UInt32 := 0x44695553

def fifoMagicPos : UInt32 := fifoBase + 0

def alignmentPos : UInt32 := fifoBase + 1

def samplesToTakePos : UInt32 := fifoBase + 3

def samplesPerBootPos : UInt32 := fifoBase + 4

def fifoLocPos : UInt32 := fifoBase + 5

def fifoCountPos : UInt32 := fifoBase + 6

def fifoTailPos : UInt32 := fifoBase + 7

def fifoHeadPos : UInt32 := fifoBase + 8

def fifoTailTPos : UInt32 := fifoBase + 9

def fifoHeadTPos : UInt32 := fifoBase + 10

def defaultFifoStart : UInt32 := 32

def defaultFifoEnd : UInt32 := 128

def defaultTagcount : UInt32 := 5

structure Sample where
  timestamp : UInt32
  value : UInt32
  decimals : UInt32
  tag : UInt32
  deriving DecidableEq

def getTail (s : RtcMem) : UInt32 := rtcMemRead s fifoTailPos

def putTail (val : UInt32) (s : RtcMem) : RtcMem := rtcMemWrite s fifoTailPos val

def getHead (s : RtcMem) : UInt32 := rtcMemRead s fifoHeadPos

def putHead (val : UInt32) (s : RtcMem) : RtcMem := rtcMemWrite s fifoHeadPos val

def getTailT (s : RtcMem) : UInt32 := rtcMemRead s fifoTailTPos

def putTailT (val : UInt32) (s : RtcMem) : RtcMem := rtcMemWrite s fifoTailTPos val

def getHeadT (s : RtcMem) : UInt32 := rtcMemRead s fifoHeadTPos

def putHeadT (val : UInt32) (s : RtcMem) : RtcMem := rtcMemWrite s fifoHeadTPos val

def getCount (s : RtcMem) : UInt32 := rtcMemRead s fifoCountPos

def putCount (val : UInt32) (s : RtcMem) : RtcMem := rtcMemWrite s fifoCountPos val

def getTagcount (s : RtcMem) : UInt32 := (rtcMemRead s fifoLocPos >>> 16) &&& 0xff

def getTagpos (s : RtcMem) : UInt32 := (rtcMemRead s fifoLocPos >>> 0) &&& 0xff

def getLast (s : RtcMem) : UInt32 := (rtcMemRead s fifoLocPos >>> 8) &&& 0xff

def getFirst (s : RtcMem) : UInt32 := getTagpos s + getTagcount s

def location (first last tagcount : UInt32) : UInt32 := first + (last <<< 8) + (tagcount <<< 16)

def putLoc (first last tagcount : UInt32) (s : RtcMem) : RtcMem :=
  rtcMemWrite s fifoLocPos (location first last tagcount)

def normaliseIndex (s : RtcMem) (index : UInt32) : UInt32 :=
  if getLast s ≤ index then getFirst s else index

def incrementCount (s : RtcMem) : RtcMem := putCount (getCount s + 1) s

def decrementCount (s : RtcMem) : RtcMem := putCount (getCount s - 1) s

/-! ## Sample entries -/

def getValue (entry : UInt32) : UInt32 := entry &&& 0xffff

def getDecimals (entry : UInt32) : UInt32 := (entry >>> 25) &&& 0x07

def getDeltat (entry : UInt32) : UInt32 := (entry >>> 16) &&& 0x1ff

def getTagindex (entry : UInt32) : UInt32 := (entry >>> 28) &&& 0x0f

/-- The slot of the tag that an entry names. -/
def tagSlot (s : RtcMem) (entry : UInt32) : UInt32 := getTagpos s + getTagindex entry

def fillSample (s : RtcMem) (entry timestamp : UInt32) : Sample where
  timestamp := timestamp
  value := getValue entry
  decimals := getDecimals entry
  tag := rtcMemRead s (tagSlot s entry)

def constructEntry (val tagindex decimals deltat : UInt32) : UInt32 :=
  (val &&& (0xffff : UInt32)) + ((deltat &&& (0x1ff : UInt32)) <<< (16 : UInt32)) +
    ((decimals &&& (0x7 : UInt32)) <<< (25 : UInt32)) +
    ((tagindex &&& (0xf : UInt32)) <<< (28 : UInt32))

/-- The time since a reference, or -1 where an entry has no room for it. -/
def deltaT (t refT : UInt32) : Int :=
  let delta := t - refT
  if 0x1ff < delta then -1 else delta.toNat

/-! ## Operations -/

def popSample (s : RtcMem) : Option Sample × RtcMem :=
  if getCount s = 0 then (none, s)
  else
    let head := getHead s
    let entry := rtcMemRead s head
    let timestamp := getHeadT s + getDeltat entry
    let dst := fillSample s entry timestamp
    let s := (s.touch head).touch (tagSlot s entry)
    let head := normaliseIndex s (head + 1)
    (some dst, decrementCount (putHeadT timestamp (putHead head s)))

/-- The loop to the entry that is wanted. -/
def peekLoop : Nat → UInt32 → UInt32 → UInt32 → RtcMem → UInt32 × UInt32 × RtcMem
  | 0, _, entry, timestamp, s => (entry, timestamp, s)
  | n + 1, head, _, timestamp, s =>
    let head := normaliseIndex s (head + 1)
    let entry := rtcMemRead s head
    peekLoop n head entry (timestamp + getDeltat entry) (s.touch head)

def peekSample (fromTop : UInt32) (s : RtcMem) : Option Sample × RtcMem :=
  if getCount s ≤ fromTop then (none, s)
  else
    let head := getHead s
    let entry := rtcMemRead s head
    let r := peekLoop fromTop.toNat head entry (getHeadT s + getDeltat entry) (s.touch head)
    (some (fillSample r.2.2 r.1 r.2.1), r.2.2.touch (tagSlot r.2.2 r.1))

def dropLoop : Nat → UInt32 → UInt32 → RtcMem → UInt32 × UInt32 × RtcMem
  | 0, head, headT, s => (head, headT, s)
  | n + 1, head, headT, s =>
    let entry := rtcMemRead s head
    dropLoop n (normaliseIndex s (head + 1)) (headT + getDeltat entry)
      (decrementCount (s.touch head))

def dropSamples (fromTop : UInt32) (s : RtcMem) : RtcMem :=
  let count := getCount s
  let fromTop := if count ≤ fromTop then count else fromTop
  let r := dropLoop fromTop.toNat (getHead s) (getHeadT s) s
  putHeadT r.2.1 (putHead r.1 r.2.2)

def findTagLoop (tag tagsAt : UInt32) : Nat → Nat → RtcMem → Option Nat × RtcMem
  | 0, _, s => (none, s)
  | n + 1, i, s =>
    let addr := tagsAt + UInt32.ofNat i
    let stag := rtcMemRead s addr
    let s := s.touch addr
    if stag = tag then (some i, s)
    else if stag = 0 then (some i, rtcMemWrite s addr tag)
    else findTagLoop tag tagsAt n (i + 1) s

/-- No index stands for -1. -/
def findTagIndex (tag : UInt32) (s : RtcMem) : Option Nat × RtcMem :=
  findTagLoop tag (getTagpos s) (getTagcount s).toNat 0 s

def clearTagsLoop : Nat → UInt32 → RtcMem → RtcMem
  | 0, _, s => s
  | n + 1, tagsAt, s => clearTagsLoop n (tagsAt + 1) (rtcMemWrite (s.touch tagsAt) tagsAt 0)

def clearTags (s : RtcMem) : RtcMem := clearTagsLoop (getTagcount s).toNat (getTagpos s) s

def clearContent (s : RtcMem) : RtcMem :=
  let first := getFirst s
  clearTags (putHeadT 0 (putTailT 0 (putCount 0 (putHead first (putTail first s)))))

/-- The end of a store: the entry is written at the tail, where it may overwrite the oldest. -/
def writeEntry (x : Sample) (tagindex : Nat) (deltat : Int) (head tail count : UInt32)
    (s : RtcMem) : RtcMem :=
  let s := if head = tail ∧ 0 < count then (popSample s).2 else s
  let s := rtcMemWrite (s.touch tail) tail
    (constructEntry x.value (UInt32.ofNat tagindex) x.decimals (UInt32.ofInt deltat))
  incrementCount (putTailT x.timestamp (putTail (normaliseIndex s (tail + 1)) s))

def storeSample (x : Sample) (s : RtcMem) : RtcMem :=
  let head := getHead s
  let tail := getTail s
  let count := getCount s
  let found := findTagIndex x.tag s
  let s := if count = 0 then putTailT x.timestamp (putHeadT x.timestamp found.2) else found.2
  let deltat := deltaT x.timestamp (getTailT s)
  match if deltat < 0 then none else found.1 with
  | some tagindex => writeEntry x tagindex deltat head tail count s
  | none =>
    -- the sample does not fit into the scheme; `deltat` stays what it was
    let s := putTailT x.timestamp (putHeadT x.timestamp (clearContent s))
    let found := findTagIndex x.tag s
    match found.1 with
    | none => found.2
    | some tagindex =>
      writeEntry x tagindex deltat (getHead s) (getTail s) (getCount s) found.2

/-! ## The start -/

def init (first last tagcount : UInt32) (s : RtcMem) : RtcMem :=
  clearContent (putLoc first last tagcount s)

def initDefault (tagcount : UInt32) (s : RtcMem) : RtcMem :=
  init defaultFifoStart defaultFifoEnd (if tagcount = 0 then defaultTagcount else tagcount) s

def checkMagic (s : RtcMem) : Bool := rtcMemRead s fifoMagicPos == fifoMagic

def setMagic (s : RtcMem) : RtcMem := rtcMemWrite s fifoMagicPos fifoMagic

def prepare (samplesPerBoot usPerSample tagcount : UInt32) (s : RtcMem) : RtcMem :=
  let s := rtcMemWrite s samplesPerBootPos samplesPerBoot
  let s := rtcMemWrite s alignmentPos usPerSample
  let s := rtcMemWrite s samplesToTakePos 0
  setMagic (initDefault tagcount s)

/-! ## The module of Lua -/

/-- A region of -1 is one that was not given. -/
def rtcfifoPrepare (intervalUs sensorCount : UInt32) (first last : Int) (s : RtcMem) : RtcMem :=
  let s := prepare 0 intervalUs sensorCount s
  if first ≠ -1 ∧ last ≠ -1 then
    putLoc (UInt32.ofInt first) (UInt32.ofInt last) sensorCount s
  else s

/-- Without the magic number a function raises an error and does nothing else. -/
def checkFifoMagic {α : Type} (f : RtcMem → Option α × RtcMem) (s : RtcMem) : Option α × RtcMem :=
  if checkMagic s then f s else (none, s)

def rtcfifoPut (x : Sample) : RtcMem → Option Sample × RtcMem :=
  checkFifoMagic fun s => (none, storeSample x s)

def rtcfifoPop : RtcMem → Option Sample × RtcMem := checkFifoMagic popSample

def rtcfifoPeek (offset : UInt32) : RtcMem → Option Sample × RtcMem :=
  checkFifoMagic (peekSample offset)

def rtcfifoDrop (num : UInt32) : RtcMem → Option Sample × RtcMem :=
  checkFifoMagic fun s => (none, dropSamples num s)

end NodeMcu.Rtc.Fifo
