import NodeMcu.Lib.Text

namespace NodeMcu.CompMsg.HttpParse

open NodeMcu.Lib.Text

/-! ## The names of the headers -/

/-- `httpHeaderKeyInfo_t`. -/
structure HttpHeaderKeyInfo where
  lowerKey : String
  key : String
  id : Nat

/-- `COMP_MSG_HTTP_CODE`. -/
def codeId : Nat := 1

/-- `COMP_MSG_HTTP_CONTENT_LENGTH`. -/
def contentLengthId : Nat := 3

/-- The table without the entry that ends it. -/
def httpHeaderKeyInfos : List HttpHeaderKeyInfo :=
  [⟨"content-type", "Content-Type", 2⟩,
   ⟨"content-length", "Content-Length", contentLengthId⟩,
   ⟨"connection", "Connection", 4⟩,
   ⟨"server", "Server", 5⟩,
   ⟨"date", "Date", 6⟩,
   ⟨"cache-control", "Cache-Control", 7⟩,
   ⟨"node-code", "Node-Code", 8⟩,
   ⟨"set-cookie", "Set-Cookie", 9⟩,
   ⟨"x-powered-by", "X-Powered-By", 10⟩,
   ⟨"content-encoding", "Content-Encoding", 11⟩,
   ⟨"sec-websocket-key", "Sec-WebSocket-Key", 12⟩,
   ⟨"upgrade", "Upgrade", 13⟩,
   ⟨"access-control-allow-origin", "Access-Control-Allow-Origin", 14⟩,
   ⟨"access-control-allow-credentials", "Access-Control-Allow-Credentials", 15⟩,
   ⟨"access-control-allow-headers", "Access-Control-Allow-Headers", 16⟩,
   ⟨"sec-websocket-accept", "Sec-WebSocket-Accept", 17⟩,
   ⟨"host", "Host", 18⟩,
   ⟨"user-agent", "User-Agent", 19⟩,
   ⟨"sec-websocket-version", "Sec-WebSocket-Version", 20⟩,
   ⟨"sec-websocket-protocol", "Sec-WebSocket-Protocol", 21⟩,
   ⟨"accept", "Accept", 22⟩,
   ⟨"accept-encoding", "Accept-Encoding", 23⟩,
   ⟨"accept-language", "Accept-Language", 24⟩,
   ⟨"host", "Host", 18⟩,
   ⟨"x-aspnet-version", "X-Aspnet-Version", 25⟩,
   ⟨"sec-websocket-extensions", "Sec-WebSocket-Extensions", 26⟩,
   ⟨"pragma", "Pragma", 27⟩,
   ⟨"origin", "Origin", 28⟩,
   ⟨"upgrade-insecure-requests", "Upgrade-Insecure-Requests", 29⟩]

def getHttpHeaderKeyIdFromLowerKey (httpHeaderKey : List UInt8) : Option Nat :=
  (httpHeaderKeyInfos.find? fun e => bytesOf e.lowerKey == httpHeaderKey).map
    HttpHeaderKeyInfo.id

/-! ## The steps -/

/-- What a string of a header part points to: nothing, the literal of the code, or the data from an
index on. -/
inductive Text
  | null
  | code
  | data (idx : Nat)
  deriving DecidableEq, Repr

/-- `httpHeaderPart_t`. -/
structure HttpHeaderPart where
  httpHeaderId : Nat
  httpHeaderName : Text
  httpHeaderValue : Text
  deriving DecidableEq, Repr

/-- `httpMsgInfo_t`. The content is its distance from the data. Where it is not set, that is
whatever the pointer that is left from before makes of it. -/
structure HttpMsgInfo where
  receivedHeaders : List HttpHeaderPart
  httpRequestCode : Int
  numHeaders : Nat
  currLgth : Nat
  expectedLgth : Nat
  content : Nat
  data : List UInt8
  deriving DecidableEq, Repr

inductive Code
  | ok
  | outOfMemory
  | headerNotFound
  deriving DecidableEq, Repr

/-- Which allocations find memory. The one of the data in lower case is not checked. -/
structure Heap where
  data : Bool
  receivedHeaders : Bool
  lowerData : Bool

def newLine : UInt8 := 0x0A
def colon : UInt8 := 0x3A
def space : UInt8 := 0x20

/-- The loop of `getContentAndNumHeaders` over the bytes from `cp` on: the number of lines, which is
a `uint8_t`, and where the header ends, if it does. -/
def countLines (cp lastNewLine numHeaders : Nat) : List UInt8 → Nat × Option Nat
  | [] => (numHeaders, none)
  | c :: cs =>
    if c = newLine then
      if cp - lastNewLine < 3 then (numHeaders, some cp)
      else countLines (cp + 1) cp ((numHeaders + 1) % 256) cs
    else countLines (cp + 1) lastNewLine numHeaders cs

def getContentAndNumHeaders (size : Nat) (httpMsgInfo : HttpMsgInfo) : HttpMsgInfo :=
  match countLines 0 0 0 (httpMsgInfo.data.take size) with
  | (numHeaders, none) => { httpMsgInfo with numHeaders := numHeaders }
  | (numHeaders, some cp) => { httpMsgInfo with
      numHeaders := numHeaders
      data := httpMsgInfo.data.set cp 0
      content := cp + 1
      currLgth := size - (cp + 1) }

/-- A number that begins a text. It is looked for up to a zero. -/
def readNumber (text : List UInt8) : Option Nat :=
  if 0 ∈ text then some (strtoul10 (cString text)) else none

/-! In what follows there is no result where a byte outside of the data is touched, or a header
part outside of those that are allocated. -/

/-- The loop of `getHttpRequestCode`: the text behind the first space of the first line. -/
def findCode : List UInt8 → Option (Option (List UInt8))
  | [] => none
  | c :: cs =>
    if c = newLine then some none
    else if c = space then some (some cs)
    else findCode cs

def getHttpRequestCode (httpMsgInfo : HttpMsgInfo) : Option HttpMsgInfo :=
  match httpMsgInfo.receivedHeaders with
  | [] => none
  | _ :: parts =>
    let httpMsgInfo :=
      { httpMsgInfo with receivedHeaders := ⟨codeId, .code, .data 0⟩ :: parts }
    match findCode httpMsgInfo.data with
    | none => none
    | some none => some httpMsgInfo
    | some (some text) => (readNumber text).map fun uval =>
        { httpMsgInfo with httpRequestCode := Int.bmod uval (2 ^ 32) }

/-- The variables of `getHttpHeaders`. The pointer `cp` parts the data into the bytes it has passed,
the last one first, and the rest; `idx` is how many it has passed. The pointers into the lower data
are their indices. -/
structure Pass where
  passed : List UInt8
  rest : List UInt8
  lowerData : List UInt8
  dp : Nat
  lowerHeaderStr : Nat
  headerStr : Nat
  httpHeaderIdx : Nat
  hadColon : Bool
  receivedHeaders : List HttpHeaderPart

/-- The branch for a new line. The byte in front of it is taken for a carriage return. -/
def startLine (s : Pass) : Option Pass :=
  match s.passed, s.rest with
  | _ :: passed, c :: rest => some { s with
      passed := c :: 0 :: passed
      rest := rest
      dp := passed.length + 2
      lowerHeaderStr := passed.length + 2
      headerStr := passed.length + 2
      httpHeaderIdx := s.httpHeaderIdx + 1
      hadColon := false }
  | _, _ => none

/-- The branch for the first colon of a line. The part of the header is not written before its id is
known. -/
def endName (s : Pass) (rest : List UInt8) : Option (Code × Pass) :=
  let lowerData := s.lowerData.set s.dp 0
  match getHttpHeaderKeyIdFromLowerKey (cString (lowerData.drop s.lowerHeaderStr)) with
  | none => some (.headerNotFound,
      { s with rest := 0 :: rest, lowerData := lowerData, hadColon := true })
  | some httpHeaderId =>
    let passed := rest.takeWhile (· == space) ++ 0 :: s.passed
    let rest := rest.dropWhile (· == space)
    if s.receivedHeaders.length ≤ s.httpHeaderIdx ∨ rest = [] then none
    else
      some (.ok, { s with
        passed := passed
        rest := rest
        lowerData := lowerData
        dp := s.dp + 1
        hadColon := true
        receivedHeaders := s.receivedHeaders.set s.httpHeaderIdx
          ⟨httpHeaderId, .data s.headerStr, .data passed.length⟩ })

/-- What is done with the byte at `cp`, be it a new line or not. -/
def readByte (s : Pass) : Option (Code × Pass) :=
  match s.rest with
  | [] => none
  | c :: rest =>
    if s.lowerData.length ≤ s.dp then none
    else if 0 < s.httpHeaderIdx ∧ s.hadColon = false ∧ c = colon then endName s rest
    else
      let lower := if 0 < s.httpHeaderIdx then toLower c else c
      some (.ok, { s with
        passed := c :: s.passed
        rest := rest
        lowerData := s.lowerData.set s.dp lower
        dp := s.dp + 1 })

/-- One round of the loop. -/
def readRound (s : Pass) : Option (Code × Pass) :=
  if s.rest.head? = some newLine then (startLine s).bind readByte else readByte s

theorem readByte_passed (s s' : Pass) (r : Code) (h : readByte s = some (r, s')) (hr : r = .ok) :
    s.passed.length < s'.passed.length := by
  subst hr
  unfold readByte at h
  split at h
  · cases h
  · split at h
    · cases h
    · split at h
      · unfold endName at h
        dsimp only at h
        split at h
        · cases h
        · split at h
          · cases h
          · cases h
            simp
            omega
      · cases h
        simp

theorem startLine_passed (s s' : Pass) (h : startLine s = some s') :
    s.passed.length < s'.passed.length := by
  unfold startLine at h
  split at h
  · rename_i c rest hpassed _
    cases h
    simp [hpassed]
  · cases h

theorem readRound_passed (s s' : Pass) (h : readRound s = some (.ok, s')) :
    s.passed.length < s'.passed.length := by
  unfold readRound at h
  split at h
  · obtain ⟨t, ht, hread⟩ := Option.bind_eq_some_iff.mp h
    exact (startLine_passed s t ht).trans (readByte_passed t s' .ok hread rfl)
  · exact readByte_passed s s' .ok h rfl

/-- The loop of `getHttpHeaders`. -/
def readHeaders (headerLgth : Nat) (s : Pass) : Option (Code × Pass) :=
  if s.passed.length < headerLgth then
    match _h : readRound s with
    | none => none
    | some (.ok, s') => readHeaders headerLgth s'
    | some r => some r
  else some (.ok, s)
termination_by headerLgth - s.passed.length
decreasing_by
  have hlt := readRound_passed s s' _h
  omega

def getHttpHeaders (heap : Heap) (size : Nat) (httpMsgInfo : HttpMsgInfo) :
    Option (Code × HttpMsgInfo) :=
  let s : Pass :=
    { passed := []
      rest := httpMsgInfo.data
      lowerData := if heap.lowerData then List.replicate (size + 1) 0 else []
      dp := 0
      lowerHeaderStr := 0
      headerStr := 0
      httpHeaderIdx := 0
      hadColon := false
      receivedHeaders := httpMsgInfo.receivedHeaders }
  (readHeaders httpMsgInfo.content s).map fun r => (r.1, { httpMsgInfo with
    data := r.2.passed.reverse ++ r.2.rest
    receivedHeaders := r.2.receivedHeaders })

/-- The loop of `httpParse` that looks for the content length. -/
def scanContentLength (data : List UInt8) (expectedLgth : Nat) :
    List HttpHeaderPart → Option Nat
  | [] => some expectedLgth
  | p :: ps =>
    if p.httpHeaderId = contentLengthId ∧ expectedLgth = 0 then
      match p.httpHeaderValue with
      | .data idx =>
        match readNumber (data.drop idx) with
        | none => none
        | some uval => scanContentLength data uval ps
      | _ => none
    else scanContentLength data expectedLgth ps

/-- `httpParse` up to the handling of the message. -/
def httpParse (heap : Heap) (httpMsgInfo : HttpMsgInfo) (data : List UInt8) :
    Option (Code × HttpMsgInfo) :=
  if heap.data then
    let httpMsgInfo :=
      getContentAndNumHeaders data.length { httpMsgInfo with data := data ++ [0] }
    if heap.receivedHeaders then
      let parts := List.replicate httpMsgInfo.numHeaders ⟨0, .null, .null⟩
      match getHttpRequestCode { httpMsgInfo with receivedHeaders := parts } with
      | none => none
      | some httpMsgInfo =>
        match getHttpHeaders heap data.length httpMsgInfo with
        | none => none
        | some (.ok, httpMsgInfo) =>
          (scanContentLength httpMsgInfo.data httpMsgInfo.expectedLgth
            (httpMsgInfo.receivedHeaders.take httpMsgInfo.numHeaders)).map fun expectedLgth =>
            (.ok, { httpMsgInfo with expectedLgth := expectedLgth })
        | some r => some r
    else some (.outOfMemory, httpMsgInfo)
  else some (.outOfMemory, httpMsgInfo)

end NodeMcu.CompMsg.HttpParse
