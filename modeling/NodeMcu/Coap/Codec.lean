import NodeMcu.Lib.Memory

namespace NodeMcu.Coap.Codec

open NodeMcu.Lib.Memory

/-- Bytes whose number is a `size_t`. -/
structure Buffer where
  bytes : List UInt8
  fits : bytes.length < 2 ^ 32
  deriving DecidableEq

namespace Buffer

def empty : Buffer := ⟨[], Nat.two_pow_pos 32⟩

def len (b : Buffer) : UInt32 := UInt32.ofNat b.bytes.length

def take (b : Buffer) (n : Nat) : Buffer :=
  ⟨b.bytes.take n, Nat.lt_of_le_of_lt (List.length_take_le' _ _) b.fits⟩

def drop (b : Buffer) (n : Nat) : Buffer :=
  ⟨b.bytes.drop n, Nat.lt_of_le_of_lt (List.length_drop ▸ Nat.sub_le _ _) b.fits⟩

@[simp] theorem take_bytes (b : Buffer) (n : Nat) : (b.take n).bytes = b.bytes.take n := rfl

@[simp] theorem drop_bytes (b : Buffer) (n : Nat) : (b.drop n).bytes = b.bytes.drop n := rfl

@[ext] theorem ext {a b : Buffer} (h : a.bytes = b.bytes) : a = b := by
  cases a
  cases b
  cases h
  rfl

@[simp] theorem len_toNat (b : Buffer) : b.len.toNat = b.bytes.length := by
  rw [len, UInt32.toNat_ofNat']
  exact Nat.mod_eq_of_lt b.fits

end Buffer

structure Header where
  ver : UInt8
  t : UInt8
  tkl : UInt8
  code : UInt8
  id : UInt8 × UInt8
  deriving DecidableEq

structure Opt where
  num : UInt8
  buf : Buffer
  deriving DecidableEq

def uriHost : UInt8 := 3

def uriPort : UInt8 := 7

def uriPath : UInt8 := 11

def uriQuery : UInt8 := 15

def maxopt : Nat := 16

structure Packet where
  hdr : Header
  tok : Buffer
  opts : List Opt
  payload : Buffer
  numopts : opts.length ≤ maxopt
  deriving DecidableEq

inductive Err
  | headerTooShort
  | versionNot1
  | tokenTooShort
  | optionTooShortForHeader
  | optionOverrunsPacket
  | optionTooBig
  | optionLenInvalid
  | bufferTooSmall
  | unsupported
  | optionDeltaInvalid
  deriving DecidableEq

/-- An error and a length are the same integer to a caller. -/
def Err.code : Err → Nat
  | headerTooShort => 1
  | versionNot1 => 2
  | tokenTooShort => 3
  | optionTooShortForHeader => 4
  | optionOverrunsPacket => 6
  | optionTooBig => 7
  | optionLenInvalid => 8
  | bufferTooSmall => 9
  | unsupported => 10
  | optionDeltaInvalid => 11

/-! ## Parsing -/

def parseHeader (buf : Buffer) : Except Err Header :=
  match buf.bytes with
  | b0 :: b1 :: b2 :: b3 :: _ =>
    if (b0 &&& 0xC0) >>> 6 ≠ 1 then .error .versionNot1
    else .ok ⟨(b0 &&& 0xC0) >>> 6, (b0 &&& 0x30) >>> 4, b0 &&& 0x0F, b1, (b2, b3)⟩
  | _ => .error .headerTooShort

def parseToken (hdr : Header) (buf : Buffer) : Except Err Buffer :=
  if hdr.tkl = 0 then .ok .empty
  else if hdr.tkl ≤ 8 then
    if buf.bytes.length < 4 + hdr.tkl.toNat then .error .tokenTooShort
    else .ok ((buf.drop 4).take hdr.tkl.toNat)
  else .error .tokenTooShort

/-- A delta or a length behind its nibble, with the bytes that follow. -/
def parseExtended (nibble : UInt8) (invalid : Err) (p : Buffer) : Except Err (UInt16 × Buffer) :=
  if nibble = 13 then
    match p.bytes with
    | b :: _ => .ok (b.toUInt16 + 13, p.drop 1)
    | _ => .error .optionTooShortForHeader
  else if nibble = 14 then
    match p.bytes with
    | b :: b' :: _ => .ok ((b.toUInt16 <<< 8 ||| b'.toUInt16) + 269, p.drop 2)
    | _ => .error .optionTooShortForHeader
  else if nibble = 15 then .error invalid
  else .ok (nibble.toUInt16, p)

/-- The option at `p`, the running delta, and what is behind the option. -/
def parseOption (running : UInt16) (p : Buffer) : Except Err (Opt × UInt16 × Buffer) :=
  match p.bytes with
  | [] => .error .optionTooShortForHeader
  | b :: _ => do
    let (delta, q) ← parseExtended ((b &&& 0xF0) >>> 4) .optionDeltaInvalid (p.drop 1)
    let (len, q) ← parseExtended (b &&& 0x0F) .optionLenInvalid q
    if q.bytes.length < len.toNat then .error .optionTooBig
    else .ok (⟨(delta + running).toUInt8, q.take len.toNat⟩, running + delta, q.drop len.toNat)

/-- The options at `p`, as far as the table has room, and what is behind them. -/
def parseOptions : Nat → UInt16 → Buffer → Except Err (List Opt × Buffer)
  | 0, _, p => .ok ([], p)
  | room + 1, running, p =>
    if p.bytes = [] ∨ p.bytes.head? = some 0xFF then .ok ([], p)
    else do
      let (option, running, p) ← parseOption running p
      let (options, p) ← parseOptions room running p
      .ok (option :: options, p)

def parsePayload (p : Buffer) : Buffer :=
  if 1 < p.bytes.length ∧ p.bytes.head? = some 0xFF then p.drop 1 else .empty

def parseOptionsAndPayload (hdr : Header) (buf : Buffer) : Except Err (List Opt × Buffer) :=
  if buf.bytes.length < 4 + hdr.tkl.toNat then .error .optionOverrunsPacket
  else do
    let (options, p) ← parseOptions maxopt 0 (buf.drop (4 + hdr.tkl.toNat))
    .ok (options, parsePayload p)

theorem parseOptions_length (room : Nat) (running : UInt16) (p : Buffer) (opts : List Opt)
    (rest : Buffer) (h : parseOptions room running p = .ok (opts, rest)) : opts.length ≤ room := by
  induction room generalizing running p opts with
  | zero =>
    cases h
    exact Nat.le_refl 0
  | succ room ih =>
    rw [parseOptions] at h
    split at h
    · cases h
      exact Nat.zero_le _
    · cases hopt : parseOption running p with
      | error e =>
        rw [hopt] at h
        cases h
      | ok r =>
        cases hrest : parseOptions room r.2.1 r.2.2 with
        | error e =>
          rw [hopt] at h
          change (parseOptions room r.2.1 r.2.2).bind _ = _ at h
          rw [hrest] at h
          cases h
        | ok q =>
          rw [hopt] at h
          change (parseOptions room r.2.1 r.2.2).bind _ = _ at h
          rw [hrest] at h
          cases h
          exact Nat.succ_le_succ (ih r.2.1 r.2.2 q.1 hrest)

theorem parseOptionsAndPayload_length (hdr : Header) (buf : Buffer) (opts : List Opt)
    (payload : Buffer) (h : parseOptionsAndPayload hdr buf = .ok (opts, payload)) :
    opts.length ≤ maxopt := by
  rw [parseOptionsAndPayload] at h
  split at h
  · cases h
  · cases hopts : parseOptions maxopt 0 (buf.drop (4 + hdr.tkl.toNat)) with
    | error e =>
      rw [hopts] at h
      cases h
    | ok r =>
      rw [hopts] at h
      cases h
      exact parseOptions_length _ _ _ _ _ hopts

def parse (buf : Buffer) : Except Err Packet :=
  match parseHeader buf with
  | .error e => .error e
  | .ok hdr =>
    match parseToken hdr buf with
    | .error e => .error e
    | .ok tok =>
      match h : parseOptionsAndPayload hdr buf with
      | .error e => .error e
      | .ok (opts, payload) =>
        .ok ⟨hdr, tok, opts, payload, parseOptionsAndPayload_length hdr buf opts payload h⟩

/-! ## Building -/

/-- A value beyond the last range leaves the nibble as it was. -/
def optionNibble (value : UInt32) (nibble : UInt8) : UInt8 :=
  if value < 13 then value.toUInt8
  else if value ≤ 0xFF + 13 then 13
  else if value ≤ 0xFFFF + 269 then 14
  else nibble

def headerBytes (hdr : Header) : List UInt8 :=
  [(hdr.ver &&& 0x03) <<< 6 ||| (hdr.t &&& 0x03) <<< 4 ||| (hdr.tkl &&& 0x0F), hdr.code,
    hdr.id.1, hdr.id.2]

/-- The integer that comes back, and the bytes that are stored. -/
def buildHeader (hdr : Header) (buflen : UInt32) : Nat × List UInt8 :=
  if buflen < 4 then (Err.bufferTooSmall.code, []) else (4, headerBytes hdr)

def buildToken (tok : Buffer) (hdr : Header) (buflen : UInt32) : Nat × List UInt8 :=
  if buflen < 4 + hdr.tkl.toUInt32 then (Err.bufferTooSmall.code, [])
  else if 0 < hdr.tkl ∧ hdr.tkl.toUInt32 ≠ tok.len then (Err.unsupported.code, [])
  else (hdr.tkl.toNat, if 0 < hdr.tkl then tok.bytes else [])

def optionHeaderBytes (junk : UInt8) (optDelta length : UInt32) : List UInt8 :=
  let delta := optionNibble optDelta 0
  let len := optionNibble length junk
  (delta <<< 4 ||| len) ::
    ((if delta = 13 then [(optDelta - 13).toUInt8]
      else if delta = 14 then [((optDelta - 269) >>> 8).toUInt8, (optDelta - 269).toUInt8]
      else []) ++
    -- the high byte is of the length itself
    (if len = 13 then [(length - 13).toUInt8]
      else if len = 14 then [(length >>> 8).toUInt8, (length - 269).toUInt8]
      else []))

/-- `junk` is what the nibble of the length holds before it is set. -/
def buildOptionHeader (junk : UInt8) (optDelta length left : UInt32) : Nat × List UInt8 :=
  if left < 5 then (Err.bufferTooSmall.code, [])
  else
    let bytes := optionHeaderBytes junk optDelta length
    (bytes.length, bytes)

/-- The state of the loop: where the next byte goes, seen from the beginning of the buffer, the
space that is counted as left, and what has been stored. -/
structure Out where
  p : Nat
  left : UInt32
  running : UInt16
  writes : List (Nat × List UInt8)

/-- Whatever comes back for the header is taken for its length. -/
def buildOption (junk : UInt8) (o : Opt) (s : Out) : Out :=
  let optDelta := o.num.toUInt16 - s.running
  let r := buildOptionHeader junk optDelta.toUInt32 o.buf.len s.left
  { p := s.p + r.1 + o.buf.bytes.length
    left := s.left - UInt32.ofNat r.1 - o.buf.len
    running := o.num.toUInt16
    writes := s.writes ++ [(s.p, r.2), (s.p + r.1, o.buf.bytes)] }

structure Built where
  rc : Nat
  buflen : UInt32
  writes : List (Nat × List UInt8)

/-- The payload behind the options. -/
def buildPayload (buflen : UInt32) (payload : Buffer) (s : Out) : Built :=
  let optsLen := UInt32.ofNat s.p - 4
  if 0 < payload.len then
    if buflen < 4 + 1 + payload.len + optsLen then ⟨Err.bufferTooSmall.code, buflen, s.writes⟩
    else
      ⟨0, optsLen + 5 + payload.len, s.writes ++
        [(4 + optsLen.toNat, [0xFF]), (5 + optsLen.toNat, payload.bytes)]⟩
  else ⟨0, optsLen + 4, s.writes⟩

/-- The options from one on, and the payload behind them. -/
def buildOptions (junk : UInt8) (buflen : UInt32) (payload : Buffer) : List Opt → Out → Built
  | [], s => buildPayload buflen payload s
  | o :: os, s =>
    if buflen < UInt32.ofNat s.p then ⟨Err.bufferTooSmall.code, buflen, s.writes⟩
    else buildOptions junk buflen payload os (buildOption junk o s)

def build (junk : UInt8) (buflen : UInt32) (pkt : Packet) : Built :=
  let h := buildHeader pkt.hdr buflen
  let t := buildToken pkt.tok pkt.hdr buflen
  buildOptions junk buflen pkt.payload pkt.opts
    ⟨h.1 + t.1, buflen - UInt32.ofNat h.1 - UInt32.ofNat t.1, 0, [(0, h.2), (4, t.2)]⟩

/-- The memory behind the stores. -/
def stored (m : Mem) (writes : List (Nat × List UInt8)) : Mem :=
  writes.foldl (fun m w => write m w.1 w.2) m

end NodeMcu.Coap.Codec
