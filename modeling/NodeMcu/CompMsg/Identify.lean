import NodeMcu.CompMsg.BuildMsg

namespace NodeMcu.CompMsg.Identify

open NodeMcu.Lib.Memory
open NodeMcu.CompMsg.Codes NodeMcu.CompMsg.View NodeMcu.CompMsg.Fields NodeMcu.CompMsg.Headers
open NodeMcu.CompMsg.Layout NodeMcu.CompMsg.Crc NodeMcu.CompMsg.PrepareMsg
open NodeMcu.CompMsg.Crypto NodeMcu.CompMsg.BuildMsg

def dispBufLgth : Nat := 1024
def dispGuidLgth : Nat := 16
def dispMaxHdrFillerLgth : Nat := 40

/-- `msgParts_t`. -/
structure Received where
  fromPart : Nat
  toPart : Nat
  totalLgth : Nat
  guid : List UInt8
  srcId : Nat
  hdrReserve : Nat
  hdrFiller : List UInt8
  u16CmdKey : Nat
  u16CmdLgth : Nat
  partsFlags : Nat
  lgth : Nat
  encryption : Char
  fieldOffset : Nat
  buf : Mem

/-- Where a data view points to: the receive buffer or a buffer allocated for the message. -/
inductive Ptr
  | receivedBuf
  | heap
  deriving DecidableEq, Repr

structure ViewRef where
  ptr : Ptr
  lgth : Nat
  deriving DecidableEq, Repr

inductive Handled
  | stored (bytes : List UInt8)
  | forwarded (bytes : List UInt8)
  deriving DecidableEq, Repr

/-- The receiving side of a dispatcher. The last two components record what happens: the messages
that were accepted, and whether all writes to `buf` and `hdrFiller` stayed inside them. -/
structure Receiver where
  received : Received
  currPartIdx : Nat
  seqIdx : Nat
  seqIdxAfterHeader : Nat
  view : Option ViewRef
  msg : CompMsgData
  fieldsNull : Bool
  counters : Counters
  handled : List Handled
  inBounds : Bool

/-- What the receiver relies on. Two locals of the source may be read before they are set. -/
structure Env where
  infos : MsgHeaderInfos
  aes : Aes
  keys : Keys
  sendMsg : List UInt8 → Result
  unsetResult : Result
  unsetU16 : Nat

/-- `checkErrOK` in front of calls that may crash. -/
def checkRet (r : Result × Receiver) (next : Receiver → Ret × Receiver) : Ret × Receiver :=
  match r.1 with
  | .ok _ => next r.2
  | .error e => (.error e, r.2)

/-- The test of a header entry in `nextFittingEntry`. -/
def fits (r : Received) (u16CmdKey : Nat) (hdr : HeaderPart) : Bool :=
  hdr.hdrToPart == r.toPart && hdr.hdrFromPart == r.fromPart &&
  (hdr.hdrTotalLgth == r.totalLgth || hdr.hdrTotalLgth == 0) &&
  (u16CmdKey == 0 || u16CmdKey == r.u16CmdKey)

def nextFittingEntry (infos : MsgHeaderInfos) (u16CmdKey : Nat) (s : Receiver) :
    Result × Receiver :=
  let s := { s with seqIdx := s.seqIdxAfterHeader }
  match (infos.headerParts.drop s.currPartIdx).findIdx? (fits s.received u16CmdKey) with
  | none => (.error .headerNotFound, s)
  | some k =>
    let hdrIdx := s.currPartIdx + k
    let encryption := (infos.headerParts[hdrIdx]?.map HeaderPart.hdrEncryption).getD
      s.received.encryption
    (.ok (), { s with
      currPartIdx := hdrIdx
      received := { s.received with encryption := encryption } })

/-- The numeric cases of the header loop: read at `fieldOffset` and move on. -/
def readNumber (n : Nat) (set : Received → Nat → Received) (s : Receiver) : Result × Receiver :=
  let r := s.received
  match getBytes ⟨r.buf, r.lgth⟩ (toInt r.fieldOffset) n with
  | .error e => (.error e, s)
  | .ok value =>
    (.ok (), { s with received := { set r value with fieldOffset := r.fieldOffset + n } })

/-- The vector cases. `room` is the size of the array the bytes are copied to. -/
def readVector (n room : Nat) (set : Received → List UInt8 → Received) (s : Receiver) :
    Result × Receiver :=
  let r := s.received
  if r.lgth < (r.fieldOffset + n) % 4294967296 then (.error .outOfRange, s)
  else
    (.ok (), { s with
      received := { set r (read r.buf (toInt r.fieldOffset) n) with
        fieldOffset := r.fieldOffset + n }
      inBounds := s.inBounds && decide (n ≤ room) })

/-- The length of a header filler: the rest of the header, in a `uint8_t`. -/
def hdrFillerLgth (headerLgth fieldOffset : Nat) : Nat := sizeSub headerLgth fieldOffset % 256

/-- One round of the loop of `getHeaderIndexFromHeaderFields`. -/
def headerField (infos : MsgHeaderInfos) (s : Receiver) : SeqEntry → Result × Receiver
  | .u16Dst => readNumber 2 (fun r v => { r with toPart := v }) s
  | .u16Src => readNumber 2 (fun r v => { r with fromPart := v }) s
  | .u16TotalLgth => readNumber 2 (fun r v => { r with totalLgth := v }) s
  | .u16SrcId => readNumber 4 (fun r v => { r with srcId := v }) s
  | .hdrReserve => readNumber 2 (fun r v => { r with hdrReserve := v }) s
  | .u8VectorGuid => readVector dispGuidLgth dispGuidLgth (fun r bs => { r with guid := bs }) s
  | .u8VectorHdrFiller =>
    readVector (hdrFillerLgth infos.headerLgth s.received.fieldOffset) dispMaxHdrFillerLgth
      (fun r bs => { r with hdrFiller := bs }) s
  | _ => (.ok (), s)

def headerFields (infos : MsgHeaderInfos) (s : Receiver) : List SeqEntry → Result × Receiver
  | [] => (.ok (), s)
  | e :: es => checkErrOK (headerField infos s e) fun s =>
      headerFields infos { s with seqIdx := s.seqIdx + 1 } es

def getHeaderIndexFromHeaderFields (infos : MsgHeaderInfos) (s : Receiver) : Result × Receiver :=
  let s := { s with received := { s.received with fieldOffset := 0 }, seqIdx := 0 }
  checkErrOK (headerFields infos s infos.headerSequence) fun s =>
    nextFittingEntry infos 0 { s with seqIdxAfterHeader := s.seqIdx, currPartIdx := 0 }

/-- The loop that looks for an entry with the received command key. Every round moves on in the
table, so that the number of entries bounds the rounds. -/
def cmdKeyLoop (infos : MsgHeaderInfos) : Nat → Receiver → Result × Receiver
  | 0, s => (.error .headerNotFound, s)
  | rounds + 1, s =>
    checkErrOK (nextFittingEntry infos s.received.u16CmdKey
        { s with currPartIdx := (s.currPartIdx + 1) % 256 }) fun s =>
      match infos.headerParts[s.currPartIdx]? with
      | none => (.error .headerNotFound, s)
      | some hdr =>
        if s.received.u16CmdKey = hdr.hdrU16CmdKey then (.ok (), s)
        else cmdKeyLoop infos rounds s

/-- The loop of `handleReceivedHeader` over a field sequence. Once another entry is chosen for its
command key, `restart` goes on with the sequence of that one. -/
def fieldLoop (env : Env) (u8TotalCrc : Bool) (restart : Receiver → Result × Receiver)
    (hdr : HeaderPart) : List SeqEntry → Result → Receiver → Result × Receiver
  | [], _, s => (.ok (), s)
  | e :: es, result, s =>
    let h := env.infos.headerLgth
    let v : DataView := ⟨s.received.buf, s.received.totalLgth⟩
    let readTo (n : Nat) (r : Received) : Receiver :=
      { s with received := { r with fieldOffset := n } }
    let next (result : Result) (s : Receiver) : Result × Receiver :=
      checkErrOK (result, s) fun s =>
        fieldLoop env u8TotalCrc restart hdr es result { s with seqIdx := s.seqIdx + 1 }
    match e with
    | .u16CmdKey =>
      let u16 := getUint16 v h
      let s := readTo (h + 2) { s.received with
        u16CmdKey := u16.toOption.getD env.unsetU16
        partsFlags := s.received.partsFlags ||| 0x80 }
      if s.received.u16CmdKey = hdr.hdrU16CmdKey then next (u16.map fun _ => ()) s
      else checkErrOK (cmdKeyLoop env.infos (env.infos.headerParts.length + 1) s) restart
    | .u0CmdLgth => next result (readTo (h + 2) s.received)
    | .u16CmdLgth =>
      let u16 := getUint16 v h
      next (u16.map fun _ => ()) (readTo (h + 2) { s.received with
        u16CmdLgth := u16.toOption.getD env.unsetU16 })
    | .u8Crc =>
      next (headerCrc env.infos hdr u8TotalCrc s.received.totalLgth 1 v) (readTo h s.received)
    | .u16Crc =>
      next (headerCrc env.infos hdr u8TotalCrc s.received.totalLgth 2 v) (readTo h s.received)
    | .u0Crc | .u0TotalCrc | .u8TotalCrc | .u16TotalCrc => next (.ok ()) (readTo h s.received)
    | _ => next result (readTo h s.received)

/-- The loop with up to `n` changes of the entry. -/
def entryLoop (env : Env) (u8TotalCrc : Bool) : Nat → HeaderPart → List SeqEntry → Result →
    Receiver → Result × Receiver
  | 0, hdr => fieldLoop env u8TotalCrc (fun s => (.error .headerNotFound, s)) hdr
  | n + 1, hdr => fieldLoop env u8TotalCrc (fun s =>
      match env.infos.headerParts[s.currPartIdx]? with
      | none => (.error .headerNotFound, s)
      | some hdr => entryLoop env u8TotalCrc n hdr (hdr.fieldSequence.drop (s.seqIdx + 1)) (.ok ())
          { s with seqIdx := s.seqIdx + 1 }) hdr

/-- `deleteMsg`, as far as the receiver is concerned. -/
def deleteMsg (s : Receiver) : Receiver := { s with fieldsNull := true, view := none }

/-- `hdr` is the entry number `currPartIdx`. -/
def handleReceivedHeader (env : Env) (hdr : HeaderPart) (s : Receiver) : Result × Receiver :=
  let s := { s with received := { s.received with lgth := env.infos.headerLgth } }
  checkErrOK (entryLoop env hdr.u8TotalCrc env.infos.headerParts.length hdr
      (hdr.fieldSequence.drop s.seqIdx) env.unsetResult s) fun s => (.ok (), deleteMsg s)

/-- One round of the loop of `initReceivedMsg`. -/
def layoutReceivedField (d : CompMsgData) (f : CompMsgField) : CompMsgField × CompMsgData :=
  if isHeaderField f || f.fieldNameId == specFieldFiller then layoutField d f
  else ({ f with fieldOffset := d.fieldOffset },
    { d with fieldOffset := d.fieldOffset + f.fieldLgth })

def layoutReceivedFields (d : CompMsgData) : List CompMsgField → List CompMsgField × CompMsgData
  | [] => ([], d)
  | f :: fs =>
    let r := layoutReceivedField d f
    let rs := layoutReceivedFields r.2 fs
    (r.1 :: rs.1, rs.2)

def initReceivedMsg (d : CompMsgData) : Result × CompMsgData :=
  if hasFlag d.flags isInitted then (.error .alreadyInitted, d)
  else
    let r := layoutReceivedFields { d with fieldOffset := 0, headerLgth := 0 } d.fields
    let d : CompMsgData := { r.2 with fields := r.1 }
    if d.totalLgth = 0 then (.error .fieldTotalLgthMissing, d)
    else (.ok (), { d with flags := d.flags ||| isInitted })

/-- Whether `initMsg` comes to the point where it makes a new data view. -/
def makesView (d : CompMsgData) : Bool :=
  !hasFlag d.flags isInitted && (initMsg d).2.totalLgth != 0

/-- `deleteMsg` has cleared `prepareValuesCbName`, so that `createMsgFromHeaderPart` comes down to
`buildMsg`. -/
def prepareAnswerMsg (env : Env) (s : Receiver) : Result × Receiver :=
  let b := buildMsg env.aes env.keys env.infos env.sendMsg ⟨s.msg, s.counters, none⟩
  (b.1, { s with
    msg := b.2.msg
    counters := b.2.counters
    view := if makesView s.msg then some ⟨.heap, b.2.msg.totalLgth⟩ else s.view })

def resetMsgInfo (s : Receiver) : Receiver :=
  { s with received := { s.received with
    lgth := 0
    fieldOffset := 0
    fromPart := 0
    toPart := 0
    totalLgth := 0
    guid := List.replicate dispGuidLgth 32
    srcId := 0
    u16CmdKey := 0 } }

/-- A message counts as handled when `handleReceivedHeader` has accepted it. -/
def storeReceivedMsg (env : Env) (hdr : HeaderPart) (s : Receiver) : Ret × Receiver :=
  checkRet (handleReceivedHeader env hdr s) fun s =>
  let r := s.received
  let s := { s with
    view := some ⟨.receivedBuf, r.totalLgth⟩
    handled := s.handled ++ [.stored (read r.buf 0 r.totalLgth)] }
  -- The loop of initReceivedMsg goes through the field array.
  if !hasFlag s.msg.flags isInitted && !s.msg.fields.isEmpty && s.fieldsNull then (.crash, s)
  else
    checkRet ((initReceivedMsg s.msg).1, { s with msg := (initReceivedMsg s.msg).2 }) fun s =>
    checkRet (prepareAnswerMsg env (deleteMsg s)) fun s =>
    (.ok, resetMsgInfo s)

/-- The field in which `handleReceivedPart` expects the total CRC. -/
def totalCrcField (hdr : HeaderPart) (totalLgth : Nat) : CompMsgField :=
  let width := if hdr.u8TotalCrc then 1 else 2
  { fieldNameId := specFieldTotalCrc
    fieldTypeId := .none
    fieldLgth := width
    fieldOffset := sizeSub totalLgth width }

/-- The check of the total CRC through the view of the message, which is put back only when the
check succeeds. -/
def checkTotalCrc (hdr : HeaderPart) (s : Receiver) : Result × Receiver :=
  let r := s.received
  let f := totalCrcField hdr r.totalLgth
  match s.view with
  | none => (getTotalCrc ⟨r.buf, r.lgth⟩ f, { s with view := some ⟨.receivedBuf, r.lgth⟩ })
  | some _ =>
    match getTotalCrc ⟨r.buf, r.totalLgth⟩ f with
    | .error e => (.error e, { s with view := some ⟨.receivedBuf, r.totalLgth⟩ })
    | .ok _ => (.ok (), s)

/-- How many bytes the decryption copies back into the receive buffer. -/
def decryptCopy (infos : MsgHeaderInfos) (hdr : HeaderPart) (totalLgth : Nat) : Nat :=
  cryptLgth (decryptLgth infos hdr totalLgth)

def decryptReceived (env : Env) (hdr : HeaderPart) (s : Receiver) : Result × Receiver :=
  let r := s.received
  if hdr.hdrEncryption = 'E' then
    match decryptPart env.aes env.keys env.infos hdr r.totalLgth r.buf with
    | .error e => (.error e, s)
    | .ok buf =>
      let copied := decryptCopy env.infos hdr r.totalLgth
      (.ok (), { s with
        received := { r with buf := buf }
        inBounds := s.inBounds &&
          decide (copied = 0 ∨ env.infos.headerLgth + copied ≤ dispBufLgth) })
  else (.ok (), s)

/-- What `handleReceivedPart` does with a complete message. -/
def handleComplete (env : Env) (s : Receiver) : Ret × Receiver :=
  match env.infos.headerParts[s.currPartIdx]? with
  | none => (.crash, s)
  | some hdr =>
    match hdr.hdrHandleType with
    | 'G' | 'R' | 'D' =>
      checkRet (checkTotalCrc hdr s) fun s =>
      checkRet (decryptReceived env hdr s) fun s =>
      storeReceivedMsg env hdr s
    | 'U' | 'W' =>
      let bytes := read s.received.buf 0 s.received.totalLgth
      (.ok, { s with
        msg := { s.msg with currHdr := hdr }
        handled := s.handled ++ [.forwarded bytes] })
    | _ => (.error .funnyHandleType, s)

def storeByte (s : Receiver) (c : UInt8) : Receiver :=
  let r := s.received
  { s with
    received := { r with buf := write r.buf r.lgth [c], lgth := r.lgth + 1 }
    inBounds := s.inBounds && decide (r.lgth < dispBufLgth) }

/-- The third component is the part of the buffer that is not looked at. -/
def handleReceivedPart (env : Env) (s : Receiver) : List UInt8 → Ret × Receiver × List UInt8
  | [] => (.ok, s, [])
  | c :: cs =>
    let s := storeByte s c
    let h := if s.received.lgth = env.infos.headerLgth then
        getHeaderIndexFromHeaderFields env.infos s
      else (.ok (), s)
    match h.1 with
    | .error e => (.error e, h.2, cs)
    | .ok _ =>
      if h.2.received.lgth = h.2.received.totalLgth then
        let x := handleComplete env h.2
        (x.1, x.2, cs)
      else handleReceivedPart env h.2 cs

end NodeMcu.CompMsg.Identify
