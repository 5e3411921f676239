import NodeMcu.CompMsg.Crypto
import NodeMcu.CompMsg.PrepareMsg

namespace NodeMcu.CompMsg.BuildMsg

open NodeMcu.Lib.Memory NodeMcu.Lib.Cbc
open NodeMcu.CompMsg.Codes NodeMcu.CompMsg.View NodeMcu.CompMsg.Fields NodeMcu.CompMsg.Headers
open NodeMcu.CompMsg.Layout NodeMcu.CompMsg.Tiling NodeMcu.CompMsg.Crc NodeMcu.CompMsg.PrepareMsg
open NodeMcu.CompMsg.Crypto

/-- How many bytes behind the header `buildMsg` encrypts. -/
def encryptLgth (d : CompMsgData) : Nat :=
  let mlen := sizeSub d.totalLgth d.headerLgth
  if hasFlag d.currHdr.hdrFlags dispTotalCrc then sizeSub mlen 1 else sizeSub mlen 2

/-- The encryption in `buildMsg`. The key is passed as the IV, too. -/
def encryptPart (aes : Aes) (keys : Keys) (d : CompMsgData) : Result × CompMsgData :=
  let v := d.compMsgDataView
  match encryptMsg aes v.data d.headerLgth (encryptLgth d) keys.cryptKey keys.cryptKey with
  | .error e => (.error e, d)
  | .ok bytes =>
    (.ok (), { d with compMsgDataView := { v with data := write v.data d.headerLgth bytes } })

theorem encryptPart_ok (aes : Aes) (keys : Keys) (d : CompMsgData) (bytes : List UInt8)
    (h : encryptMsg aes d.compMsgDataView.data d.headerLgth (encryptLgth d) keys.cryptKey
      keys.cryptKey = .ok bytes) :
    encryptPart aes keys d = (.ok (), { d with
      compMsgDataView := { d.compMsgDataView with
        data := write d.compMsgDataView.data d.headerLgth bytes } }) := by
  rw [encryptPart]
  simp only [h]

/-- The end of `buildMsg` in front of `sendMsg`: encryption and total CRC. -/
def sealMsg (aes : Aes) (keys : Keys) (d : CompMsgData) : Result × CompMsgData :=
  checkErrOK
      (if d.currHdr.hdrEncryption = 'E' then encryptPart aes keys d else (.ok (), d)) fun d =>
    if hasFlag d.currHdr.hdrFlags dispTotalCrc then
      match d.fields.getLast? with
      | none => (.ok (), d)
      | some f =>
        let r := setTotalCrc d.compMsgDataView f
        (r.1, { d with compMsgDataView := r.2 })
    else (.ok (), d)

/-- `setDataValue` for `@cmdKey`: the first such field, if there is one. -/
def setCmdKey (d : CompMsgData) : Result × CompMsgData :=
  if hasFlag d.flags isInitted = false then (.error .notYetInitted, d)
  else
    match d.fields.find? (·.fieldNameId == specFieldCmdKey) with
    | none => (.ok (), d)
    | some f =>
      let r := setFieldValue d.compMsgDataView f d.currHdr.hdrU16CmdKey none 0
      (r.1, { d with compMsgDataView := r.2 })

/-- The result of `prepareMsg` is not looked at. -/
def setMsgValues (infos : MsgHeaderInfos) (c : Counters) (d : CompMsgData) :
    Result × (CompMsgData × Counters) :=
  checkErrOK ((setCmdKey d).1, ((setCmdKey d).2, c)) fun s =>
    (.ok (), (prepareMsg infos s.2 s.1).2)

def getMsgData (d : CompMsgData) : Result :=
  if hasFlag d.flags isInitted = false then .error .notYetInitted
  else if hasFlag d.flags isPrepared = false then .error .notYetPrepared
  else .ok ()

/-- What `buildMsg` works with: the message, the counters and the bytes handed to `sendMsg`. -/
structure Building where
  msg : CompMsgData
  counters : Counters
  sent : Option (List UInt8)

def buildMsg (aes : Aes) (keys : Keys) (infos : MsgHeaderInfos)
    (sendMsg : List UInt8 → Result) (s : Building) : Result × Building :=
  checkErrOK ((initMsg s.msg).1, { s with msg := (initMsg s.msg).2 }) fun s =>
  let r := setMsgValues infos s.counters s.msg
  checkErrOK (r.1, { s with msg := r.2.1, counters := r.2.2 }) fun s =>
  checkErrOK (getMsgData s.msg, s) fun s =>
  checkErrOK ((sealMsg aes keys s.msg).1, { s with msg := (sealMsg aes keys s.msg).2 }) fun s =>
  let v := s.msg.compMsgDataView
  (sendMsg (read v.data 0 v.lgth), { s with sent := some (read v.data 0 v.lgth) })

/-- A message that `buildMsg` gets out is an initialised and prepared one, sealed. -/
theorem buildMsg_sent (aes : Aes) (keys : Keys) (infos : MsgHeaderInfos)
    (sendMsg : List UInt8 → Result) (s s' : Building)
    (h : buildMsg aes keys infos sendMsg s = (.ok (), s')) :
    (initMsg s.msg).1 = .ok () ∧
      ∃ d, getMsgData d = .ok () ∧ (setMsgValues infos s.counters (initMsg s.msg).2).2.1 = d ∧
        (sealMsg aes keys d).1 = .ok () ∧
        s'.sent = some (read (sealMsg aes keys d).2.compMsgDataView.data 0
          (sealMsg aes keys d).2.compMsgDataView.lgth) := by
  obtain ⟨h1, h⟩ := checkErrOK_eq_ok _ _ _ h
  obtain ⟨h2, h⟩ := checkErrOK_eq_ok _ _ _ h
  obtain ⟨h3, h⟩ := checkErrOK_eq_ok _ _ _ h
  obtain ⟨h4, h⟩ := checkErrOK_eq_ok _ _ _ h
  refine ⟨h1, _, h3, rfl, h4, ?_⟩
  rw [Prod.mk.injEq] at h
  rw [← h.2]

end NodeMcu.CompMsg.BuildMsg
