import NodeMcu.Lib.Run
import NodeMcu.Lib.Search
import NodeMcu.Lib.Text

namespace NodeMcu.Ota.Upgrade

open NodeMcu.Lib.Run NodeMcu.Lib.Search NodeMcu.Lib.Text

/-! ## Strings -/

def contentLength : List UInt8 := bytesOf "Content-Length: "

def blankLine : List UInt8 := bytesOf "\r\n\r\n"

def lineEnd : List UInt8 := bytesOf "\r\n"

/-! ## The download -/

inductive UpgradeFlag
  | idle
  | start
  | finish
  deriving DecidableEq

inductive EspconnState
  | connect
  | write
  | read
  | close
  deriving DecidableEq

structure UserUpgradeData where
  romSlot : UInt8
  callback : Bool
  totalLen : UInt32
  contentLen : UInt32
  conn : Option EspconnState

/-- The data of an upgrade that is going on, the flag of the system, what was handed to
`rboot_write_flash`, and the calls of the user's callback. -/
structure CompMsgOta where
  uud : Option UserUpgradeData
  upgradeFlag : UpgradeFlag
  written : List (List UInt8)
  callbacks : List (Bool × UInt8)

/-- The data is freed, and the connection is closed. -/
def compMsgOtaDeinit (u : UserUpgradeData) (s : CompMsgOta) : CompMsgOta :=
  let result := decide (s.upgradeFlag = .finish)
  { s with
    uud := none
    upgradeFlag := if result then .finish else .idle
    callbacks := if u.callback then s.callbacks ++ [(result, u.romSlot)] else s.callbacks }

/-- The text in front of the next line end. -/
def lineOf (len : List UInt8) : List UInt8 :=
  len.take (len.length - ((search lineEnd len).getD []).length)

/-- The index behind the header of a valid answer, and the text of its length. -/
def httpHeader (pusrdata : List UInt8) : Option (Nat × List UInt8) :=
  let text := cString pusrdata
  match search contentLength text with
  | none => none
  | some ptrLen =>
    match search blankLine ptrLen with
    | none => none
    | some ptrData =>
      if (pusrdata.drop 9).take 3 = bytesOf "200" then
        -- the line end is found, since the blank line is behind
        some (text.length - ptrData.length + 4, lineOf (ptrLen.drop 16))
      else none

/-- The end of a callback: the download is complete, it failed, or it goes on. -/
def checkFinished (u : UserUpgradeData) (s : CompMsgOta) : CompMsgOta :=
  if u.totalLen = u.contentLen then compMsgOtaDeinit u { s with upgradeFlag := .finish }
  else if u.conn ≠ some .read then compMsgOtaDeinit u s
  else { s with uud := some u }

def upgradeRecvCb (overflow : Int) (pusrdata : List UInt8) (u : UserUpgradeData)
    (s : CompMsgOta) : CompMsgOta :=
  if u.contentLen = 0 then
    match httpHeader pusrdata with
    | none => compMsgOtaDeinit u s
    | some (dataAt, len) =>
      let chunk := pusrdata.drop dataAt
      checkFinished
        { u with
          totalLen := u.totalLen + UInt32.ofNat chunk.length
          contentLen := UInt32.ofInt (atoi overflow len) }
        { s with written := s.written ++ [chunk] }
  else
    checkFinished { u with totalLen := u.totalLen + UInt32.ofNat pusrdata.length }
      { s with written := s.written ++ [pusrdata] }

def upgradeDisconCb (s : CompMsgOta) : CompMsgOta :=
  match s.uud with
  | none => s
  | some u => compMsgOtaDeinit { u with conn := none } s

/-! ## What happens to a download -/

/-- What a callback is given: at least a byte, and no more than the length has room for. -/
structure Segment where
  bytes : List UInt8
  nonempty : bytes ≠ []
  fits : bytes.length < 65536

inductive Event
  | segment (seg : Segment)
  | disconnected
  | timedOut

/-- Without data of an upgrade the connection is closed and the timer is off. Before the callback
the network sets the state of the connection. -/
def step (overflow : Int) (s : CompMsgOta) (e : Event) : CompMsgOta :=
  match s.uud with
  | none => s
  | some u =>
    match e with
    | .segment seg => upgradeRecvCb overflow seg.bytes
        { u with conn := u.conn.map fun _ => .read } s
    | .disconnected => upgradeDisconCb s
    | .timedOut => compMsgOtaDeinit u s

/-- After the request was sent. -/
def requested (romSlot : UInt8) (callback : Bool) : CompMsgOta :=
  ⟨some ⟨romSlot, callback, 0, 0, some .write⟩, .start, [], []⟩

end NodeMcu.Ota.Upgrade
