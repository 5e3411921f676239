import Mathlib.Logic.Function.Basic
import Mathlib.Tactic.SplitIfs
import NodeMcu.Socket.Sending

namespace NodeMcu.Socket.Parsing

open NodeMcu.Socket.Sending

/-! ## The parser of frames -/

/-- What the parser calls: a callback with the bytes that it is given and with their number, or
`webSocketSendData`. -/
inductive Call
  | textReceived (data : List UInt8) (lgth : Int)
  | binaryReceived (data : List UInt8) (lgth : Int)
  | sendData (payload : List UInt8) (size : Nat) (opcode : UInt8)
  deriving DecidableEq

/-- The buffer, which is changed in place, the calls so far, and what the caller is given back: the
index of the last payload and its length. -/
structure Parser where
  mem : Nat → UInt8
  calls : List Call
  resData : Option Nat
  len : Int

/-- How the work on a frame ends: the function returns with a code, it calls itself for the data
from a position on, or it reads or writes outside. -/
inductive Next
  | ended (code : Int) (s : Parser)
  | again (pos dataLen : Nat) (s : Parser)
  | outside

def webSocketErrInvalidFrameOpcode : Int := -3

/-! ## The header of a frame -/

section Header

variable (mem : Nat → UInt8) (pos : Nat)

def opcode : UInt8 := mem pos &&& 0x0F

def isMasked : Bool := mem (pos + 1) &&& 0x80 != 0

def shortSize : UInt8 := mem (pos + 1) &&& 0x7F

/-- The bytes in front of the key. -/
def lgthOffset : Nat :=
  if shortSize mem pos = 126 then 4 else if shortSize mem pos = 127 then 10 else 2

/-- The last four of the eight bytes, all that an `int` keeps. -/
def size127 : Int :=
  (mem (pos + 6)).toUInt32 <<< 24 ||| (mem (pos + 7)).toUInt32 <<< 16 |||
    (mem (pos + 8)).toUInt32 <<< 8 ||| (mem (pos + 9)).toUInt32 |>.toInt32.toInt

def size : Int :=
  if shortSize mem pos = 126 then ((mem (pos + 3)).toNat ||| (mem (pos + 2)).toNat <<< 8 : Nat)
  else if shortSize mem pos = 127 then size127 mem pos
  else (shortSize mem pos).toNat

def offset : Nat := lgthOffset mem pos + if isMasked mem pos then 4 else 0

/-- An opcode that is an error. -/
def isInvalid : Bool := (3 < opcode mem pos && opcode mem pos < 8) || 11 < opcode mem pos

end Header

/-- The loop compares as `uint64_t`. `limit` is the last index of the buffer. -/
def unmaskLoop (limit : Nat) (mask : Nat → UInt8) (base : Nat) :
    Nat → Nat → (Nat → UInt8) → Option (Nat → UInt8)
  | 0, _, mem => some mem
  | n + 1, i, mem =>
    if base + i ≤ limit then
      unmaskLoop limit mask base n (i + 1)
        (Function.update mem (base + i) (mem (base + i) ^^^ mask (i % 4)))
    else none

/-- The payload without its mask. -/
def unmasked (limit : Nat) (mem : Nat → UInt8) (pos : Nat) : Option (Nat → UInt8) :=
  if isMasked mem pos then
    if pos + offset mem pos ≤ limit + 1 then
      unmaskLoop limit (fun i => mem (pos + lgthOffset mem pos + i)) (pos + offset mem pos)
        (size mem pos % 2 ^ 64).toNat 0 mem
    else none
  else some mem

/-- The callback for an opcode. -/
def received (op : UInt8) (data : List UInt8) (lgth : Int) : List Call :=
  if op = opcodeText then [.textReceived data lgth]
  else if op = opcodeBinary then [.binaryReceived data lgth]
  else []

/-- The part of the function behind the loop: the callback, the zero behind the payload, and where
the next frame begins. -/
def deliver (limit pos dataLen : Nat) (s : Parser) (mem : Nat → UInt8) : Next :=
  let size := size s.mem pos
  let offset := offset s.mem pos
  let data := (List.range size.toNat).map fun i => mem (pos + offset + i)
  let last : Int := pos + offset + size
  if 0 ≤ last ∧ last ≤ limit then
    let s : Parser :=
      ⟨Function.update mem last.toNat 0, s.calls ++ received (opcode s.mem pos) data size,
        some (pos + offset), size⟩
    let sum := ((size + offset) % 2 ^ 32).toNat
    if sum < dataLen then .again (pos + (size + offset)).toNat (dataLen - sum) s else .ended 0 s
  else .outside

/-- The work on the frame at a position, where so much data is left. -/
def parseFrame (limit pos dataLen : Nat) (s : Parser) : Next :=
  if limit < pos then .outside
  else if isInvalid s.mem pos then .ended webSocketErrInvalidFrameOpcode s
  else if opcode s.mem pos = opcodePing then
    .ended 0 { s with calls := s.calls ++ [.sendData [0x20] 1 opcodePong] }
  else if opcode s.mem pos = opcodePong then .ended 0 s
  else if limit < pos + 1 then .outside
  else if limit + 1 < pos + lgthOffset s.mem pos then .outside
  else
    match unmasked limit s.mem pos with
    | none => .outside
    | some mem => deliver limit pos dataLen s mem

inductive Outcome
  | returned (code : Int) (s : Parser)
  | outside

/-- `none` when the fuel ends. The result of the inner call is not looked at. -/
def webSocketParse (limit : Nat) : Nat → Nat → Nat → Parser → Option Outcome
  | 0, _, _, _ => none
  | fuel + 1, pos, dataLen, s =>
    match parseFrame limit pos dataLen s with
    | .ended code s => some (.returned code s)
    | .outside => some .outside
    | .again pos dataLen s =>
      match webSocketParse limit fuel pos dataLen s with
      | some (.returned _ s) => some (.returned 0 s)
      | r => r

/-! ## Received data -/

/-- What a parser meets: the received bytes and the zero behind them. -/
def start (bytes : List UInt8) : Parser := ⟨fun i => bytes.getD i 0, [], none, 0⟩

/-- `os_strlen`, the length that `webSocketRecv` supplies. -/
def osStrlen (bytes : List UInt8) : Nat := bytes.findIdx (· == 0)

/-- The branch of `webSocketRecv` for data that is no request with the URL of the socket. -/
def webSocketRecv (fuel : Nat) (isWebsocket : Nat) (bytes : List UInt8) : Option Outcome :=
  if isWebsocket = 1 then webSocketParse bytes.length fuel 0 (osStrlen bytes) (start bytes)
  else some (.returned 0 (start bytes))

/-- Who calls the parser: code that gives the number of the received bytes, or `webSocketRecv`
for a web socket. -/
inductive Caller
  | direct
  | webSocketRecv

def Caller.dataLen (bytes : List UInt8) : Caller → Nat
  | .direct => bytes.length
  | .webSocketRecv => osStrlen bytes

def Caller.call (fuel : Nat) (bytes : List UInt8) : Caller → Option Outcome
  | .direct => webSocketParse bytes.length fuel 0 bytes.length (start bytes)
  | .webSocketRecv => Parsing.webSocketRecv fuel 1 bytes

theorem Caller.call_eq (c : Caller) (fuel : Nat) (bytes : List UInt8) : c.call fuel bytes =
    webSocketParse bytes.length fuel 0 (c.dataLen bytes) (start bytes) := by
  cases c <;> rfl

theorem Caller.dataLen_le (c : Caller) (bytes : List UInt8) : c.dataLen bytes ≤ bytes.length := by
  cases c with
  | direct => exact Nat.le_refl _
  | webSocketRecv => exact List.findIdx_le_length

/-! ## What the work on a frame does -/

theorem unmaskLoop_some {limit base n i : Nat} (mask : Nat → UInt8) (mem : Nat → UInt8)
    (h : base + i + n ≤ limit + 1) : unmaskLoop limit mask base n i mem =
      some fun j => if base + i ≤ j ∧ j < base + i + n then mem j ^^^ mask ((j - base) % 4)
        else mem j := by
  induction n generalizing i mem with
  | zero =>
    rw [unmaskLoop]
    congr 1
    funext j
    rw [if_neg (by omega)]
  | succ n ih =>
    rw [unmaskLoop, if_pos (by omega), ih _ (by omega)]
    congr 1
    funext j
    rw [Function.update_apply]
    by_cases hj : j = base + i
    · rw [if_neg (by omega), if_pos hj, if_pos (by omega), hj, Nat.add_sub_cancel_left]
    · rw [if_neg hj]
      split_ifs <;> first | rfl | omega

theorem unmaskLoop_none {limit base n i : Nat} (mask : Nat → UInt8) (mem : Nat → UInt8)
    (h : limit + 1 < base + i + n) (hn : 0 < n) : unmaskLoop limit mask base n i mem = none := by
  induction n generalizing i mem with
  | zero => exact absurd hn (by decide)
  | succ n ih =>
    rw [unmaskLoop]
    by_cases hin : base + i ≤ limit
    · rw [if_pos hin]
      exact ih _ (by omega) (by omega)
    · rw [if_neg hin]

theorem size_bounds (mem : Nat → UInt8) (pos : Nat) :
    -2 ^ 31 ≤ size mem pos ∧ size mem pos < 2 ^ 31 := by
  rw [size]
  split_ifs
  · have h3 := (mem (pos + 3)).toNat_lt
    have h2 := (mem (pos + 2)).toNat_lt
    have hor : (mem (pos + 3)).toNat ||| (mem (pos + 2)).toNat <<< 8 < 2 ^ 16 :=
      Nat.or_lt_two_pow (by omega) (by rw [Nat.shiftLeft_eq]; omega)
    omega
  · exact ⟨Int32.le_toInt _, Int32.toInt_lt _⟩
  · have := (shortSize mem pos).toNat_lt
    omega

/-- The opcodes that end the work before the size is read. -/
def Ends (mem : Nat → UInt8) (pos : Nat) : Prop :=
  isInvalid mem pos ∨ opcode mem pos = opcodePing ∨ opcode mem pos = opcodePong

theorem parseFrame_ends {pos : Nat} {s : Parser} (limit dataLen : Nat) (hpos : pos ≤ limit)
    (he : Ends s.mem pos) : ∃ code t, parseFrame limit pos dataLen s = .ended code t ∧
      t.calls = s.calls ++
        if isInvalid s.mem pos = false ∧ opcode s.mem pos = opcodePing then
          [.sendData [0x20] 1 opcodePong]
        else [] := by
  rw [parseFrame, if_neg (by omega)]
  by_cases hinvalid : isInvalid s.mem pos = true
  · rw [if_pos hinvalid, if_neg (by simp [hinvalid])]
    exact ⟨_, s, rfl, (List.append_nil _).symm⟩
  rw [if_neg hinvalid]
  by_cases hping : opcode s.mem pos = opcodePing
  · rw [if_pos hping, if_pos ⟨Bool.eq_false_iff.mpr hinvalid, hping⟩]
    exact ⟨_, _, rfl, rfl⟩
  · rw [if_neg hping, if_pos ((he.resolve_left hinvalid).resolve_left hping),
      if_neg (fun h => hping h.2)]
    exact ⟨_, s, rfl, (List.append_nil _).symm⟩

/-- The header of a frame and the payload that it announces lie inside. -/
structure Fits (limit : Nat) (mem : Nat → UInt8) (pos : Nat) : Prop where
  second : pos + 1 ≤ limit
  header : pos + offset mem pos ≤ limit + 1
  masked : isMasked mem pos → 0 ≤ size mem pos
  first : 0 ≤ (pos : Int) + offset mem pos + size mem pos
  last : (pos : Int) + offset mem pos + size mem pos ≤ limit

/-- The payload loses its mask, and all else is as before. -/
structure Unmasks (pos : Nat) (mem mem' : Nat → UInt8) : Prop where
  payload : ∀ i, i < (size mem pos).toNat → mem' (pos + offset mem pos + i) =
    if isMasked mem pos then
      mem (pos + offset mem pos + i) ^^^ mem (pos + lgthOffset mem pos + i % 4)
    else mem (pos + offset mem pos + i)
  same : ∀ j, j < pos + offset mem pos ∨ pos + offset mem pos + (size mem pos).toNat ≤ j →
    mem' j = mem j

theorem unmasked_fits {limit pos : Nat} {mem : Nat → UInt8} (hf : Fits limit mem pos) :
    ∃ mem', unmasked limit mem pos = some mem' ∧ Unmasks pos mem mem' := by
  have hlast := hf.last
  have hsize := size_bounds mem pos
  rw [unmasked]
  by_cases hm : isMasked mem pos = true
  · have hpos := hf.masked hm
    have hn : (size mem pos % 2 ^ 64).toNat = (size mem pos).toNat := by omega
    rw [if_pos hm, if_pos hf.header, hn,
      unmaskLoop_some (i := 0) _ _ (by rw [Nat.add_zero]; omega)]
    refine ⟨_, rfl, fun i hi => ?_, fun j hj => ?_⟩
    · rw [if_pos (by omega), if_pos hm, Nat.add_sub_cancel_left]
    · rw [if_neg (by omega)]
  · rw [if_neg hm]
    exact ⟨mem, rfl, fun i _ => (if_neg hm).symm, fun _ _ => rfl⟩

theorem parseFrame_fits {limit pos : Nat} {s : Parser} (dataLen : Nat)
    (he : ¬Ends s.mem pos) (hf : Fits limit s.mem pos) :
    ∃ mem, Unmasks pos s.mem mem ∧
      parseFrame limit pos dataLen s = deliver limit pos dataLen s mem := by
  obtain ⟨mem, hmem, hu⟩ := unmasked_fits hf
  obtain ⟨hinvalid, hping, hpong⟩ : ¬isInvalid s.mem pos ∧ opcode s.mem pos ≠ opcodePing ∧
      opcode s.mem pos ≠ opcodePong := by
    rw [Ends, not_or, not_or] at he
    exact he
  have hsecond := hf.second
  have hheader := hf.header
  rw [offset] at hheader
  refine ⟨mem, hu, ?_⟩
  rw [parseFrame, if_neg (by omega), if_neg hinvalid, if_neg hping, if_neg hpong,
    if_neg (by omega), if_neg (by omega), hmem]

/-- Where the header or what it announces does not lie inside, something outside is read or
written. -/
theorem parseFrame_not_fits {limit pos : Nat} {s : Parser} (dataLen : Nat) (hl : limit < 2 ^ 31)
    (he : ¬Ends s.mem pos) (hf : ¬Fits limit s.mem pos) :
    parseFrame limit pos dataLen s = .outside := by
  obtain ⟨hinvalid, hping, hpong⟩ : ¬isInvalid s.mem pos ∧ opcode s.mem pos ≠ opcodePing ∧
      opcode s.mem pos ≠ opcodePong := by
    rw [Ends, not_or, not_or] at he
    exact he
  rw [parseFrame]
  by_cases hpos : limit < pos
  · rw [if_pos hpos]
  rw [if_neg hpos, if_neg hinvalid, if_neg hping, if_neg hpong]
  by_cases hsecond : limit < pos + 1
  · rw [if_pos hsecond]
  rw [if_neg hsecond]
  by_cases hheader : limit + 1 < pos + lgthOffset s.mem pos
  · rw [if_pos hheader]
  rw [if_neg hheader]
  have hdeliver : ∀ mem, ¬(0 ≤ (pos : Int) + offset s.mem pos + size s.mem pos ∧
      (pos : Int) + offset s.mem pos + size s.mem pos ≤ limit) →
      deliver limit pos dataLen s mem = .outside := fun mem h => if_neg h
  have hsize := size_bounds s.mem pos
  by_cases hm : isMasked s.mem pos = true
  · have hoffset : offset s.mem pos = lgthOffset s.mem pos + 4 := by rw [offset, if_pos hm]
    by_cases hkey : pos + offset s.mem pos ≤ limit + 1
    · rw [unmasked, if_pos hm, if_pos hkey]
      by_cases hin : 0 ≤ size s.mem pos ∧
          pos + offset s.mem pos + (size s.mem pos).toNat ≤ limit + 1
      · rw [unmaskLoop_some _ _ (by omega)]
        refine hdeliver _ fun h => hf ⟨by omega, hkey, fun _ => hin.1, h.1, h.2⟩
      · rw [unmaskLoop_none _ _ (by omega) (by omega)]
    · rw [unmasked, if_pos hm, if_neg hkey]
  · have hoffset : offset s.mem pos = lgthOffset s.mem pos := by
      rw [offset, if_neg hm, Nat.add_zero]
    rw [unmasked, if_neg hm]
    exact hdeliver _ fun h => hf ⟨by omega, by omega, fun hm' => (hm hm').elim, h.1, h.2⟩

/-- The place of the next frame where this one lies inside. -/
theorem deliver_fits {limit pos : Nat} {s : Parser} (dataLen : Nat) (mem : Nat → UInt8)
    (hf : Fits limit s.mem pos) :
    ∃ t : Parser,
      t.calls = s.calls ++ received (opcode s.mem pos)
        ((List.range (size s.mem pos).toNat).map fun i => mem (pos + offset s.mem pos + i))
        (size s.mem pos) ∧
      t.mem = Function.update mem ((pos : Int) + offset s.mem pos + size s.mem pos).toNat 0 ∧
      deliver limit pos dataLen s mem =
        if ((size s.mem pos + offset s.mem pos) % 2 ^ 32).toNat < dataLen then
          .again ((pos : Int) + (size s.mem pos + offset s.mem pos)).toNat
            (dataLen - ((size s.mem pos + offset s.mem pos) % 2 ^ 32).toNat) t
        else .ended 0 t :=
  ⟨⟨_, _, some (pos + offset s.mem pos), size s.mem pos⟩, rfl, rfl, if_pos ⟨hf.first, hf.last⟩⟩

end NodeMcu.Socket.Parsing
