import NodeMcu.CompMsg.Deletion
import NodeMcu.Socket.Sending

namespace NodeMcu.Socket.SendMsg

open NodeMcu.CompMsg.Codes NodeMcu.CompMsg.Deletion NodeMcu.Socket.Sending

/-! ## Sending a message -/

/-- How `sendMsg` ends. -/
inductive Sent
  | ok
  | noWebsocketOpened
  | badHandleType
  | webSocket (code : UInt8)
  | compMsg (e : CompMsgErr)
  | crash
  deriving DecidableEq

/-- `sud` stands for the user data of the socket, which may be missing. -/
structure Sender where
  dispatcher : Dispatcher
  sud : Bool
  transport : Transport
  cloudMsgData : List UInt8

/-- The results of the functions behind the handle types of the OTA and of the cloud. -/
structure Others where
  storeUserData : List UInt8 → Ret
  checkClientMode : Ret

def platformUartSend (c : UInt8) (t : Transport) : Transport := { t with uart := t.uart ++ [c] }

/-- The loop with so many bytes to go. -/
def uartSendLoop (data : List UInt8) : Nat → Nat → Transport → Transport
  | 0, _, t => t
  | n + 1, idx, t => uartSendLoop data n (idx + 1) (platformUartSend (data.getD idx 0) t)

def uartSendAnswer (data : List UInt8) (msgLgth : UInt8) (t : Transport) : Transport :=
  uartSendLoop data msgLgth.toNat 0 t

def endOf : Ret → Sent
  | .ok => .ok
  | .error e => .compMsg e
  | .crash => .crash

/-- A deletion whose result is not looked at. -/
def deleteAfter (s : Sender) : Sent × Sender :=
  let r := deleteMsg s.dispatcher
  (if r.1 = .crash then .crash else .ok, { s with dispatcher := r.2 })

def sendMsg (p : Platform) (others : Others) (hdrHandleType : Char) (msgData : List UInt8)
    (msgLgth : Nat) (s : Sender) : Sent × Sender :=
  match hdrHandleType with
  | 'A' =>
    if !s.sud then (.noWebsocketOpened, s)
    else
      let r := webSocketSendData p msgData msgLgth opcodeBinary s.transport
      let s := { s with transport := r.2 }
      if r.1 ≠ webSocketErrOk then (.webSocket r.1, s) else deleteAfter s
  | 'D' =>
    match others.storeUserData msgData with
    | .ok => deleteAfter s
    | r => (endOf r, s)
  | 'G' | 'R' | 'N' => (.ok, s)
  | 'S' =>
    -- the length goes through a parameter of 8 bits
    let s := { s with transport := uartSendAnswer msgData (UInt8.ofNat msgLgth) s.transport }
    let r := deleteMsg s.dispatcher
    (endOf r.1, { s with dispatcher := r.2 })
  | 'U' => (endOf others.checkClientMode, { s with cloudMsgData := msgData })
  | 'W' =>
    (.ok, { s with transport := uartSendAnswer msgData (UInt8.ofNat msgLgth) s.transport })
  | _ => (.badHandleType, s)

/-! ## Complete transmission -/

/-- A message as `buildMsg` hands it over. -/
structure BuiltMsg where
  data : List UInt8
  pos : 0 < data.length
  fits : data.length ≤ 65535

/-- `sendMsg` comes back, and with an error. -/
def Sent.IsError (r : Sent) : Prop := r ≠ .ok ∧ r ≠ .crash

/-- The bytes were given to the UART one by one, and nothing else. -/
def GivenBytes (data : List UInt8) (t t' : Transport) : Prop :=
  t'.uart = t.uart ++ data ∧ t'.sent = t.sent

def Given (hdrHandleType : Char) (data : List UInt8) (t t' : Transport) : Prop :=
  if hdrHandleType = 'A' then GivenFrame opcodeBinary data t t' else GivenBytes data t t'

def Complete (p : Platform) (others : Others) (hdrHandleType : Char) (m : BuiltMsg)
    (s : Sender) : Prop :=
  let r := sendMsg p others hdrHandleType m.data m.data.length s
  Given hdrHandleType m.data s.transport r.2.transport ∨ r.1.IsError

/-- The frame was given, and `espconn_sent` took it. -/
def Taken (data : List UInt8) (t t' : Transport) : Prop :=
  t'.uart = t.uart ∧
    ∃ buff, t'.sent = t.sent ++ [(buff, 0)] ∧ readFrame buff = some (opcodeBinary, data)

def CompleteTaken (p : Platform) (others : Others) (m : BuiltMsg) (s : Sender) : Prop :=
  let r := sendMsg p others 'A' m.data m.data.length s
  Taken m.data s.transport r.2.transport ∨ r.1.IsError

/-- Where there is a socket, a header for the length and memory for the frame, `espconn_sent` takes
the frame. -/
def Accepts (p : Platform) (m : BuiltMsg) (s : Sender) : Prop :=
  s.sud = true → ∀ hdr, hdrBytes m.data.length opcodeBinary = some hdr →
    p.hasMemory (m.data.length + hdr.length) = true → p.espconnSent (hdr ++ m.data) = 0

theorem uartSendLoop_uart (data : List UInt8) (n idx : Nat) (t : Transport)
    (h : idx + n ≤ data.length) :
    uartSendLoop data n idx t = { t with uart := t.uart ++ (data.drop idx).take n } := by
  induction n generalizing idx t with
  | zero => rw [uartSendLoop, List.take_zero, List.append_nil]
  | succ n ih =>
    have hdrop : data.drop idx = data.getD idx 0 :: data.drop (idx + 1) := by
      rw [List.drop_eq_getElem_cons (by omega), List.getD_eq_getElem?_getD,
        List.getElem?_eq_getElem (by omega)]
      rfl
    rw [uartSendLoop, ih _ _ (by omega), hdrop, List.take_succ_cons]
    simp only [platformUartSend, List.append_assoc, List.singleton_append]

theorem uartSendAnswer_uart (data : List UInt8) (t : Transport) :
    uartSendAnswer data (UInt8.ofNat data.length) t =
      { t with uart := t.uart ++ data.take (data.length % 256) } := by
  have hlen : (UInt8.ofNat data.length).toNat = data.length % 256 := UInt8.toNat_ofNat'
  rw [uartSendAnswer, hlen, uartSendLoop_uart data _ 0 t (by omega), List.drop_zero]

/-- All bytes are given exactly where the length fits into 8 bits. -/
theorem uartSendAnswer_given (data : List UInt8) (t : Transport) :
    GivenBytes data t (uartSendAnswer data (UInt8.ofNat data.length) t) ↔ data.length < 256 := by
  rw [uartSendAnswer_uart, GivenBytes]
  simp only [and_true, List.append_cancel_left_eq]
  constructor
  · intro h
    have := congrArg List.length h
    rw [List.length_take] at this
    omega
  · intro h
    rw [Nat.mod_eq_of_lt h, List.take_length]

/-- A deletion ends well or not at all. -/
theorem deleteMsg_not_error (d : Dispatcher) : ∀ e, (deleteMsg d).1 ≠ .error e := by
  intro e
  rw [deleteMsg, freeCompMsgData, freeCompMsgTypesAndNames]
  split
  · intro h
    cases h
  · split
    · intro h
      cases h
    · intro h
      cases h

theorem endOf_deleteMsg (d : Dispatcher) : ¬(endOf (deleteMsg d).1).IsError := by
  have hne := deleteMsg_not_error d
  rw [Sent.IsError]
  cases hr : (deleteMsg d).1 with
  | ok => exact fun h => h.1 rfl
  | error e => exact (hne e hr).elim
  | crash => exact fun h => h.2 rfl

section Complete

variable (p : Platform) (others : Others) (m : BuiltMsg) (s : Sender)

theorem sendMsg_webSocket (h : s.sud = true) :
    let r := webSocketSendData p m.data m.data.length opcodeBinary s.transport
    (r.1 ≠ webSocketErrOk ∧ (sendMsg p others 'A' m.data m.data.length s).1 = .webSocket r.1) ∨
      (r.1 = webSocketErrOk ∧ ¬(sendMsg p others 'A' m.data m.data.length s).1.IsError ∧
        (sendMsg p others 'A' m.data m.data.length s).2.transport = r.2) := by
  intro r
  have hsend : sendMsg p others 'A' m.data m.data.length s =
      if r.1 ≠ webSocketErrOk then (.webSocket r.1, { s with transport := r.2 })
      else deleteAfter { s with transport := r.2 } := by
    change (if !s.sud then _ else _) = _
    rw [h]
    rfl
  rw [hsend]
  by_cases hr : r.1 = webSocketErrOk
  · rw [if_neg (not_not.mpr hr)]
    refine .inr ⟨hr, ?_, rfl⟩
    rw [Sent.IsError, deleteAfter]
    dsimp only
    split_ifs
    · exact fun hc => hc.2 rfl
    · exact fun hc => hc.1 rfl
  · rw [if_pos hr]
    exact .inl ⟨hr, rfl⟩

theorem sendMsg_noSocket (h : s.sud = false) :
    sendMsg p others 'A' m.data m.data.length s = (.noWebsocketOpened, s) := by
  change (if !s.sud then _ else _) = _
  rw [h]
  rfl

theorem complete_webSocket : Complete p others 'A' m s := by
  rw [Complete]
  by_cases hs : s.sud = true
  · obtain ⟨hr, hend⟩ | ⟨hr, -, htransport⟩ := sendMsg_webSocket p others m s hs
    · refine .inr ?_
      rw [hend]
      exact ⟨(nomatch ·), (nomatch ·)⟩
    · refine .inl ?_
      rw [htransport, Given, if_pos rfl]
      have hgiven := webSocketSendData_given p m.data opcodeBinary (by decide) s.transport
      exact hgiven.resolve_left fun h => h hr
  · refine .inr ?_
    rw [sendMsg_noSocket p others m s (Bool.not_eq_true _ ▸ hs)]
    exact ⟨(nomatch ·), (nomatch ·)⟩

theorem complete_uart (hdrHandleType : Char) (h : hdrHandleType = 'S' ∨ hdrHandleType = 'W') :
    Complete p others hdrHandleType m s ↔ m.data.length < 256 := by
  have hne : hdrHandleType ≠ 'A' := by
    rintro rfl
    exact absurd h (by decide)
  have hsent : ¬(sendMsg p others hdrHandleType m.data m.data.length s).1.IsError ∧
      (sendMsg p others hdrHandleType m.data m.data.length s).2.transport =
        uartSendAnswer m.data (UInt8.ofNat m.data.length) s.transport := by
    obtain rfl | rfl := h
    · exact ⟨endOf_deleteMsg s.dispatcher, rfl⟩
    · exact ⟨fun hc => hc.1 rfl, rfl⟩
  rw [Complete, Given, if_neg hne, hsent.2, uartSendAnswer_given]
  exact or_iff_left hsent.1

/-- An error goes with a frame that was not given, and else the answer decides. -/
theorem completeTaken_iff : CompleteTaken p others m s ↔ Accepts p m s := by
  rw [CompleteTaken, Accepts]
  by_cases hs : s.sud = true
  · have hcases := webSocketSendData_cases p m.data opcodeBinary s.transport
    obtain ⟨hr, hend⟩ | ⟨hr, hnot, htransport⟩ := sendMsg_webSocket p others m s hs
    · have herror : (sendMsg p others 'A' m.data m.data.length s).1.IsError := by
        rw [hend]
        exact ⟨(nomatch ·), (nomatch ·)⟩
      obtain ⟨-, -, hnone⟩ := hcases.resolve_right fun h => hr h.1
      exact iff_of_true (.inr herror) fun _ hdr hhdr hmem => (hnone hdr hhdr hmem).elim
    · obtain ⟨-, hdr, hhdr, hmem, hsent⟩ := hcases.resolve_left fun h => h.1 hr
      have hframe : readFrame (hdr ++ m.data) = some (opcodeBinary, m.data) :=
        readFrame_hdrBytes (by decide) hhdr
      rw [or_iff_left hnot, htransport, hsent, Taken]
      constructor
      · rintro ⟨-, buff, hbuff, -⟩ - hdr' hhdr' -
        rw [hhdr] at hhdr'
        have hlast := List.append_cancel_left hbuff
        rw [List.cons.injEq, Prod.mk.injEq] at hlast
        rw [← Option.some.inj hhdr']
        exact hlast.1.2
      · intro h
        refine ⟨rfl, hdr ++ m.data, ?_, hframe⟩
        rw [h hs hdr hhdr hmem]
  · have herror : (sendMsg p others 'A' m.data m.data.length s).1.IsError := by
      rw [sendMsg_noSocket p others m s (Bool.not_eq_true _ ▸ hs)]
      exact ⟨(nomatch ·), (nomatch ·)⟩
    exact iff_of_true (.inr herror) fun h => (hs h).elim

/-- For a socket a message is given completely or `sendMsg` fails, and so it is with its being
taken where `espconn_sent` does take it. For the UART this holds of the messages of less than 256
bytes. -/
theorem complete_iff :
    Complete p others 'A' m s ∧ (CompleteTaken p others m s ↔ Accepts p m s) ∧
      (Complete p others 'S' m s ↔ m.data.length < 256) ∧
      (Complete p others 'W' m s ↔ m.data.length < 256) :=
  ⟨complete_webSocket p others m s, completeTaken_iff p others m s,
    complete_uart p others m s 'S' (.inl rfl), complete_uart p others m s 'W' (.inr rfl)⟩

end Complete

/-- There is memory, and the network takes everything. -/
def willing : Platform := ⟨fun _ => true, fun _ => 0⟩

def others : Others := ⟨fun _ => .ok, .ok⟩

def idle : Sender := ⟨start, true, ⟨[], []⟩, []⟩

def longMsg : BuiltMsg where
  data := List.replicate 300 7
  pos := by rw [List.length_replicate]; decide
  fits := by rw [List.length_replicate]; decide

/-- `sendMsg` gives the first 44 bytes to the UART and reports no error. -/
theorem longMsg_not_complete : ¬Complete willing others 'W' longMsg idle := by
  rw [complete_uart willing others longMsg idle 'W' (.inr rfl), longMsg, List.length_replicate]
  decide

end NodeMcu.Socket.SendMsg
