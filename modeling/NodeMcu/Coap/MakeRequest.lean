import NodeMcu.Coap.Codec
import NodeMcu.Coap.SplitUri

namespace NodeMcu.Coap.MakeRequest

open NodeMcu.Lib.Text NodeMcu.Lib.Memory NodeMcu.Coap.Codec NodeMcu.Coap.SplitUri

/-! ## The segments of a path or a query -/

/-- Its pointer is the text from there to the end of the URI. -/
structure ParseIterator where
  n : Nat
  separator : UInt8
  delim : List UInt8
  pos : List UInt8
  segmentLength : Nat

def parseNext (it : ParseIterator) : Option ParseIterator :=
  let n := it.n - it.segmentLength
  let pos := it.pos.drop it.segmentLength
  if n = 0 ∨ pos.headD 0 ∈ it.delim then none
  else
    -- the first segment might have no separator in front
    let n' := if pos.headD 0 = it.separator then n - 1 else n
    let pos' := if pos.headD 0 = it.separator then pos.tail else pos
    if n' = 0 then none
    else some { it with
      n := n'
      pos := pos'
      segmentLength :=
        ((pos'.take n').takeWhile fun c => c != it.separator && !it.delim.contains c).length }

/-- Why a call does not come back in order. -/
inductive Stop
  | outside
  | endless
  deriving DecidableEq

/-- The handler is called with every segment. -/
def splitPathImpl {σ : Type} (h : List UInt8 → Nat → σ → Except Stop σ) :
    Nat → ParseIterator → σ → Except Stop σ
  | 0, _, _ => .error .endless
  | fuel + 1, it, data =>
    match parseNext it with
    | none => .ok data
    | some it =>
      match h it.pos it.segmentLength data with
      | .error e => .error e
      | .ok data => splitPathImpl h fuel it data

inductive Checked
  | malformed
  | decoded (n : Nat)
  | endless
  deriving DecidableEq

/-- The length of a segment once it is decoded. Two digits are looked for behind a `%` where the
segment has room for one, and the length that is left then goes below 0. -/
def checkSegment : Nat → List UInt8 → Nat → Checked
  | 0, _, n => .decoded n
  | length + 1, s, n =>
    if s.headD 0 = 0x25 then
      if length = 0 ∨ !(isXDigit (s.getD 1 0) && isXDigit (s.getD 2 0)) then .malformed
      else
        match length with
        | length + 2 => checkSegment length (s.drop 3) (n + 1)
        | _ => .endless
    else checkSegment length s.tail (n + 1)

def hexcharToDec (c : UInt8) : UInt8 := if c &&& 0x40 ≠ 0 then (c &&& 0x0F) + 9 else c &&& 0x0F

/-- The bytes that are written. -/
def decodeSegment : Nat → List UInt8 → Option (List UInt8)
  | 0, _ => some []
  | length + 1, s =>
    if s.headD 0 = 0x25 then
      match length with
      | length + 2 =>
        (decodeSegment length (s.drop 3)).map
          ((hexcharToDec (s.getD 1 0) <<< 4 + hexcharToDec (s.getD 2 0)) :: ·)
      | _ => none
    else (decodeSegment length s.tail).map (s.headD 0 :: ·)

/-! ## The options -/

structure Opt where
  num : UInt8
  buf : List UInt8
  deriving DecidableEq

/-- The options that are stored, the scratch as far as it is filled, the length it is said to have
left, and the options of the current split. -/
structure PktScr where
  opts : List Opt
  filled : List UInt8
  left : Nat
  n : Nat

/-- A scratch of `size` bytes. An entry of the table keeps the number it had until it is given
one. -/
structure Tables where
  size : Nat
  old : Nat → UInt8

def writeOption (t : Tables) (s : List UInt8) (len : Nat) (state : PktScr) : Except Stop PktScr :=
  if s.take (min len 2) = ([0x2E, 0x2E] : List UInt8).take (min len 2) then .ok state
  else
    match checkSegment len s 0 with
    | .malformed => .ok state
    | .endless => .error .endless
    | .decoded res =>
      if state.left < res then .ok state
      else
        match decodeSegment len s with
        | none => .error .endless
        | some bytes =>
          if t.size < state.filled.length + bytes.length then .error .outside
          else if res = 0 then .ok state
          else if maxopt ≤ state.opts.length then .error .outside
          else .ok
            { opts := state.opts ++ [⟨t.old state.opts.length, bytes.take res⟩]
              filled := state.filled ++ bytes.take res
              left := state.left - res
              n := state.n + 1 }

/-- The last options of the table get their number. -/
def renumber (num : UInt8) (state : PktScr) : PktScr :=
  let first := state.opts.length - state.n
  { state with
    opts := state.opts.take first ++ (state.opts.drop first).map fun o => { o with num := num } }

def splitOptions (t : Tables) (separator : UInt8) (delim : List UInt8) (num : UInt8) (str : Str)
    (state : PktScr) : Except Stop PktScr :=
  match splitPathImpl (writeOption t) (str.length + 1) ⟨str.length, separator, delim, str.s, 0⟩
    { state with n := 0 } with
  | .error e => .error e
  | .ok state => .ok (renumber num state)

def splitOptionsPath (t : Tables) (str : Str) (state : PktScr) : Except Stop PktScr :=
  splitOptions t 0x2F [0x3F, 0x23] uriPath str state

def splitOptionsQuery (t : Tables) (str : Str) (state : PktScr) : Except Stop PktScr :=
  splitOptions t 0x26 [0x23] uriQuery str state

/-! ## The request -/

/-- How many bytes a number takes, at most `k`. -/
def varLength : Nat → Nat → Nat
  | 0, _ => 0
  | k + 1, i => if i = 0 then 0 else varLength k (i / 256) + 1

def encodeVarBytes (val : UInt16) : List UInt8 := bigEndian (varLength 4 val.toNat) val.toNat

def addHost (uri : Uri) (state : PktScr) : Except Stop PktScr :=
  if uri.host.length = 0 then .ok state
  else if maxopt ≤ state.opts.length then .error .outside
  else .ok { state with opts := state.opts ++ [⟨uriHost, uri.host.bytes⟩] }

def addPort (t : Tables) (uri : Uri) (state : PktScr) : Except Stop PktScr :=
  if uri.port = defaultPort then .ok state
  else if maxopt ≤ state.opts.length then .error .outside
  else
    let bytes := encodeVarBytes uri.port
    if t.size < state.filled.length + bytes.length then .error .outside
    else .ok
      { state with
        opts := state.opts ++ [⟨uriPort, bytes⟩]
        filled := state.filled ++ bytes
        left := state.left - bytes.length }

def addPath (t : Tables) (uri : Uri) (state : PktScr) : Except Stop PktScr :=
  if uri.path.length = 0 then .ok state else splitOptionsPath t uri.path state

def addQuery (t : Tables) (uri : Uri) (state : PktScr) : Except Stop PktScr :=
  if uri.query.length = 0 then .ok state else splitOptionsQuery t uri.query state

structure Request where
  hdr : Header
  tok : List UInt8
  opts : List Opt
  payload : List UInt8

def theToken : List UInt8 := bytesOf "node"

/-- The integer that comes back, the request, and the next message id. -/
structure Made where
  rc : Nat
  request : Request
  messageId : UInt16

def makeRequest (t : Tables) (messageId : UInt16) (type method : UInt8) (uri : Uri)
    (payload : List UInt8) : Except Stop Made :=
  let hdr : Header := ⟨1, type, UInt8.ofNat theToken.length, method,
    ((messageId >>> 8).toUInt8, messageId.toUInt8)⟩
  if t.size < 2 then
    .ok ⟨Err.bufferTooSmall.code, ⟨hdr, theToken, [], []⟩, messageId + 1⟩
  else do
    let state ← addHost uri ⟨[], [], t.size, 0⟩
    let state ← addPort t uri state
    let state ← addPath t uri state
    let state ← addQuery t uri state
    .ok ⟨0, ⟨hdr, theToken, state.opts, payload⟩, messageId + 1⟩

end NodeMcu.Coap.MakeRequest
