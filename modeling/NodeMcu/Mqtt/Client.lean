import NodeMcu.Mqtt.Msg

namespace NodeMcu.Mqtt.Client

open NodeMcu.Lib.Memory NodeMcu.Lib.Reading NodeMcu.Mqtt.Msg

/-! ## The queue of pending messages -/

/-- A message of the queue. `serial` stands for the address of the node: it counts the messages
that were ever queued. `origin` is the message a release continues, elsewhere the message
itself. -/
structure MsgQueue where
  msg : List UInt8
  msgId : Nat
  msgType : MqttMessageType
  publishQos : Nat
  serial : Nat
  origin : Nat
  deriving DecidableEq

/-- What has taken a message out of the queue. -/
inductive Cause
  | acknowledgement (type : MqttMessageType) (msgId : Nat)
  | sent
  | timeout
  deriving DecidableEq

/-- What a client does that can be seen, in the order in which it does it. -/
inductive Effect
  | packet (bytes : List UInt8)
  | queued (node : MsgQueue)
  | send (node : MsgQueue)
  | removed (node : MsgQueue) (cause : Cause)
  | published (node : MsgQueue)
  | message (topic : List UInt8) (data : Option (List UInt8))
  | suback
  | unsuback
  | connect
  | connectFail (code : Int)
  | connectSent
  | disconnect
  deriving DecidableEq

inductive ConnState
  | init | connectSent | connectSending | data
  deriving DecidableEq

/-- Which of the references to Lua functions are set. -/
structure Callbacks where
  self : Bool
  connect : Bool
  connectFail : Bool
  message : Bool
  suback : Bool
  unsuback : Bool
  puback : Bool

/-- The client. Only the record of effects, the number of messages queued so far and the number
of sends without their callback are not fields of the source. -/
structure Mud where
  connState : ConnState
  connected : Bool
  eventTimeout : Nat
  keepAliveTick : Nat
  keepalive : Int
  pendingMsgQ : List MsgQueue
  mqttConnection : MqttConnection
  callbacks : Callbacks
  queued : Nat
  outstanding : Nat
  effects : List Effect

def defaultKeepalive : Int := 60

/-- A client as it is made, with no function set. -/
def mqttSocketClient : Mud where
  connState := .init
  connected := false
  eventTimeout := 0
  keepAliveTick := 0
  keepalive := defaultKeepalive
  pendingMsgQ := []
  mqttConnection := firstConnection
  callbacks := ⟨false, false, false, false, false, false, false⟩
  queued := 0
  outstanding := 0
  effects := []

/-- What comes from outside: whether there is memory for one more message, what a send answers,
and the shifts that the language leaves open. -/
structure Env where
  zalloc : List MsgQueue → MsgQueue → Bool
  espconnSend : MsgQueue → Int
  wide : Nat → Nat → Int

/-- There is memory, every send is taken, and a wide shift gives 0. -/
def plainEnv : Env := ⟨fun _ _ => true, fun _ => 0, fun _ _ => 0⟩

def Mud.record (s : Mud) (e : Effect) : Mud := { s with effects := s.effects ++ [e] }

def sendTimeout : Nat := 5

/-- The message of the connection goes to the end of the queue. -/
def msgEnqueue (env : Env) (msgId : Nat) (msgType : MqttMessageType) (publishQos : Nat)
    (origin : Nat) (s : Mud) : Bool × Mud :=
  if s.mqttConnection.message.length = 0 then (false, s)
  else
    let node : MsgQueue := {
      msg := read s.mqttConnection.buffer s.mqttConnection.message.data
        s.mqttConnection.message.length
      msgId, msgType, publishQos, origin
      serial := s.queued }
    if env.zalloc s.pendingMsgQ node then
      (true, { s with
        pendingMsgQ := s.pendingMsgQ ++ [node]
        queued := s.queued + 1
        effects := s.effects ++ [.queued node] })
    else (false, s)

/-- `msg_destroy(msg_dequeue(..))` -/
def msgDequeue (cause : Cause) (s : Mud) : Mud :=
  match s.pendingMsgQ with
  | [] => s
  | node :: rest =>
    { s with pendingMsgQ := rest, effects := s.effects ++ [.removed node cause] }

def msgPeek (s : Mud) : Option MsgQueue := s.pendingMsgQ.head?

/-- The status is that of the send, and `ESPCONN_OK` without one. -/
def mqttSendIfPossible (env : Env) (s : Mud) : Int × Mud :=
  if s.eventTimeout = 0 then
    match msgPeek s with
    | none => (0, s)
    | some node =>
      (env.espconnSend node, { s with
        eventTimeout := sendTimeout
        keepAliveTick := 0
        outstanding := s.outstanding + 1
        effects := s.effects ++ [.send node] })
  else (0, s)

/-- A Lua function is called when it is set and the client itself is referenced. -/
def luaCall (callback : Bool) (e : Effect) (s : Mud) : Mud :=
  if callback ∧ s.callbacks.self then s.record e else s

def mqttConnackFail (code : Int) (s : Mud) : Mud :=
  luaCall s.callbacks.connectFail (.connectFail code) s

/-! ## Functions of the application -/

def withBuffer (s : Mud) : Mud :=
  { s with
    mqttConnection := mqttMsgInit s.mqttConnection s.mqttConnection.buffer mqttBufSize }

/-- The end that the three functions share: the message is queued and sent. -/
def enqueueAndSend (env : Env) (msgId : Nat) (msgType : MqttMessageType) (publishQos : Nat)
    (s : Mud) : Bool × Mud :=
  let r := msgEnqueue env msgId msgType publishQos s.queued s
  let t := mqttSendIfPossible env r.2
  (r.1 && t.1 == 0, t.2)

def messageQos (c : MqttConnection) : Nat := (mqttGetQos (after c.message.data c.buffer)).val

/-- No result stands for an error raised in Lua. -/
def mqttSocketPublish (env : Env) (topic : CString) (payload : List UInt8) (qos retain : UInt8)
    (callback : Bool) (s : Mud) : Option Bool × Mud :=
  if ¬s.connected then (none, s)
  else
    let s := withBuffer s
    let r := mqttMsgPublish s.mqttConnection (some topic) payload qos.toNat retain.toNat 0
    let s := { s with
      mqttConnection := r.1
      callbacks := { s.callbacks with puback := callback || s.callbacks.puback } }
    let r := enqueueAndSend env r.2.toNat .publish qos.toNat s
    (some r.1, r.2)

/-- The topics of a call: one, or the pairs of a table. -/
inductive Topics
  | string (topic : CString) (qos : UInt8)
  | table (topics : List (CString × UInt8))

/-- The loop over a table. It ends at the first topic that does not fit. -/
def tableLoop (add : MqttConnection → CString × UInt8 → MqttConnection) :
    MqttConnection → List (CString × UInt8) → Bool × MqttConnection
  | c, [] => (true, c)
  | c, t :: ts =>
    if (add c t).message.length = 0 then (false, add c t) else tableLoop add (add c t) ts

/-- The message for a table, and its id; no id where the function raises an error. -/
def tableMessage (init : MqttConnection → MqttConnection × UInt16)
    (add : MqttConnection → CString × UInt8 → MqttConnection)
    (fini : MqttConnection → MqttConnection) (c : MqttConnection)
    (topics : List (CString × UInt8)) : MqttConnection × Option UInt16 :=
  if topics = [] then (c, none)
  else
    let r := init c
    let t := tableLoop add r.1 topics
    if ¬t.1 then (t.2, none)
    else if (fini t.2).message.length = 0 then (fini t.2, none)
    else (fini t.2, some r.2)

/-- A message with its id, where there is no table to go wrong. -/
def stringMessage (r : MqttConnection × UInt16) : MqttConnection × Option UInt16 :=
  (r.1, some r.2)

def mqttSocketSubscribe (env : Env) (topics : Topics) (callback : Bool) (s : Mud) :
    Option Bool × Mud :=
  if ¬s.connected then (none, s)
  else
    let s := withBuffer s
    let r := match topics with
      | .string topic qos => stringMessage (mqttMsgSubscribe s.mqttConnection topic qos)
      | .table topics => tableMessage mqttMsgSubscribeInit
          (fun c t => mqttMsgSubscribeTopic c t.1 t.2) mqttMsgSubscribeFini
          s.mqttConnection topics
    let s := { s with mqttConnection := r.1 }
    match r.2 with
    | none => (none, s)
    | some msgId =>
      let s := { s with
        callbacks := { s.callbacks with suback := callback || s.callbacks.suback } }
      let t := enqueueAndSend env msgId.toNat .subscribe (messageQos r.1) s
      (some t.1, t.2)

def mqttSocketUnsubscribe (env : Env) (topics : Topics) (callback : Bool) (s : Mud) :
    Option Bool × Mud :=
  if ¬s.connected then (none, s)
  else
    let s := withBuffer s
    let r := match topics with
      | .string topic _ => stringMessage (mqttMsgUnsubscribe s.mqttConnection topic)
      | .table topics => tableMessage mqttMsgUnsubscribeInit
          (fun c t => mqttMsgUnsubscribeTopic c t.1) mqttMsgUnsubscribeFini
          s.mqttConnection topics
    let s := { s with mqttConnection := r.1 }
    match r.2 with
    | none => (none, s)
    | some msgId =>
      let s := { s with
        callbacks := { s.callbacks with unsuback := callback || s.callbacks.unsuback } }
      let t := enqueueAndSend env msgId.toNat .unsubscribe (messageQos r.1) s
      (some t.1, t.2)

/-! ## Received segments -/

/-- The bytes that the Lua call is given are read where the readers say they are. -/
def deliverPublish (env : Env) (message : Mem) (length : Nat) (s : Mud) : Reads Mud := do
  let topic ← mqttGetPublishTopic env.wide message length
  let data ← mqttGetPublishData env.wide message length
  if ¬s.callbacks.message ∨ ¬s.callbacks.self then pure s
  else
    match topic.1 with
    | none => pure s
    | some p =>
      if topic.2 = 0 then pure s
      else do
        let t ← bytes message p topic.2
        match data.1 with
        | none => pure (s.record (.message t none))
        | some q =>
          if data.2 = 0 then pure (s.record (.message t none))
          else do
            let d ← bytes message q data.2
            pure (s.record (.message t (some d)))

/-- The test of the acknowledgements: the head of the queue has the type and the id. -/
def Fits (expected : MqttMessageType) (msgId : Nat) (node : MsgQueue) : Prop :=
  node.msgType = expected ∧ node.msgId = msgId

instance (expected : MqttMessageType) (msgId : Nat) (node : MsgQueue) :
    Decidable (Fits expected msgId node) := instDecidableAnd

/-- A handler of acknowledgements: `expected` is the type it looks for at the head. -/
def acknowledge (expected type : MqttMessageType) (msgId : Nat)
    (next : MsgQueue → Mud → Mud) (s : Mud) : Mud :=
  match msgPeek s with
  | none => s
  | some node =>
    if Fits expected msgId node then
      next node (msgDequeue (.acknowledgement type msgId) s)
    else s

/-- An answer to a packet: built by `build`, it goes to the end of the queue. -/
def respond (env : Env) (build : MqttConnection → MqttConnection) (msgType : MqttMessageType)
    (msgId : Nat) (origin : Option Nat) (s : Mud) : Mud :=
  let s := { s with mqttConnection := build s.mqttConnection }
  (msgEnqueue env msgId msgType (messageQos s.mqttConnection) (origin.getD s.queued) s).2

def handlePublish (env : Env) (msgQos msgId : Nat) (s : Mud) : Mud :=
  if msgQos = 1 then
    respond env (fun c => mqttMsgPuback c (UInt16.ofNat msgId)) .puback msgId none s
  else if msgQos = 2 then
    respond env (fun c => mqttMsgPubrec c (UInt16.ofNat msgId)) .pubrec msgId none s
  else s

def handleSuback (msgId : Nat) (s : Mud) : Mud :=
  acknowledge .subscribe .suback msgId (fun _ s => luaCall s.callbacks.suback .suback s) s

def handleUnsuback (msgId : Nat) (s : Mud) : Mud :=
  acknowledge .unsubscribe .unsuback msgId
    (fun _ s => luaCall s.callbacks.unsuback .unsuback s) s

def handlePuback (msgId : Nat) (s : Mud) : Mud :=
  acknowledge .publish .puback msgId
    (fun node s => luaCall s.callbacks.puback (.published node) s) s

def handlePubrec (env : Env) (msgId : Nat) (s : Mud) : Mud :=
  acknowledge .publish .pubrec msgId (fun node s =>
    respond env (fun c => mqttMsgPubrel c (UInt16.ofNat msgId)) .pubrel msgId
      (some node.origin) s) s

def handlePubrel (env : Env) (msgId : Nat) (s : Mud) : Mud :=
  acknowledge .pubrec .pubrel msgId (fun _ s =>
    respond env (fun c => mqttMsgPubcomp c (UInt16.ofNat msgId)) .pubcomp msgId none s) s

def handlePubcomp (msgId : Nat) (s : Mud) : Mud :=
  acknowledge .pubrel .pubcomp msgId
    (fun node s => luaCall s.callbacks.puback (.published node) s) s

/-- The switch over the type of a packet, but for the delivery of a publication. -/
def handlePacket (env : Env) (msgType : Option MqttMessageType) (msgQos msgId : Nat) (s : Mud) :
    Mud :=
  match msgType with
  | some .suback => handleSuback msgId s
  | some .unsuback => handleUnsuback msgId s
  | some .publish => handlePublish env msgQos msgId s
  | some .puback => handlePuback msgId s
  | some .pubrec => handlePubrec env msgId s
  | some .pubrel => handlePubrel env msgId s
  | some .pubcomp => handlePubcomp msgId s
  | some .pingreq => respond env mqttMsgPingresp .pingresp msgId none s
  | _ => s

/-- The length of the packet at the beginning of the buffer, as the client stores it. -/
def messageLength (env : Env) (inBuffer : Mem) (length : Nat) : Reads Nat := do
  let total ← mqttGetTotalLength env.wide inBuffer length
  pure (total % 65536).toNat

/-- The state for data. A number asks for one more round, after as many bytes. -/
def mqttData (env : Env) (inBuffer : Mem) (length : Nat) (s : Mud) :
    Reads (Mud × Option Nat) := do
  let messageLength ← messageLength env inBuffer length
  let msgType ← mqttGetType inBuffer
  let msgQos ← mqttGetQos inBuffer
  let msgId ← mqttGetId env.wide inBuffer messageLength
  let s := handlePacket env msgType msgQos msgId s
  if msgType = some .publish then do
    let s ← deliverPublish env inBuffer messageLength s
    if messageLength < length then pure (s, some messageLength) else pure (s, none)
  else pure (s, none)

def connFailNotAConnackMsg : Int := -4

/-- The states that wait for the answer to a connection. -/
def mqttConnect (inBuffer : Mem) (s : Mud) : Reads Mud := do
  let s := { s with eventTimeout := 0 }
  let type ← mqttGetType inBuffer
  if type ≠ some .connack then
    pure (mqttConnackFail connFailNotAConnackMsg
      ({ s with connState := .init }.record .disconnect))
  else do
    let code ← mqttGetConnectRetCode inBuffer
    if code ≠ 0 then
      pure (mqttConnackFail code.toNat ({ s with connState := .init }.record .disconnect))
    else
      pure (luaCall s.callbacks.connect .connect { s with connState := .data })

/-- One round of the loop, without the test of the length. -/
def readPacket (env : Env) (inBuffer : Mem) (length : Nat) (s : Mud) :
    Reads (Mud × Option Nat) :=
  let s := withBuffer s
  let packet := Effect.packet (read inBuffer 0 (messageLength env inBuffer length).val)
  match s.connState with
  | .init => pure (s, none)
  | .connectSending | .connectSent => do
    let s ← mqttConnect inBuffer (s.record packet)
    pure (s, none)
  | .data => mqttData env inBuffer length (s.record packet)

/-- The loop, for as many rounds as there is fuel. -/
def mqttSocketReceived (env : Env) : Nat → Mem → Nat → Mud → Option (Reads Mud)
  | 0, _, _, _ => none
  | n + 1, inBuffer, length, s =>
    if mqttBufSize.toNat < length ∨ length = 0 then some (pure s)
    else
      let r := readPacket env inBuffer length s
      match r.val.2 with
      | none => some ⟨(mqttSendIfPossible env r.val.1).2, r.reads⟩
      | some m =>
        (mqttSocketReceived env n (after m inBuffer) (length - m) r.val.1).map fun x =>
          ⟨x.val, r.reads ++ (shift m x).reads⟩

/-! ## Callbacks and the timer -/

/-- The types of messages that nothing answers: they leave the queue when they are sent. -/
def ForgottenWhenSent (node : MsgQueue) : Prop :=
  (node.msgType = .publish ∧ node.publishQos = 0) ∨ node.msgType = .puback ∨
    node.msgType = .pubcomp ∨ node.msgType = .pingreq

instance (node : MsgQueue) : Decidable (ForgottenWhenSent node) := instDecidableOr

def mqttSocketSent (env : Env) (s : Mud) : Mud :=
  let s := { s with outstanding := s.outstanding - 1 }
  if ¬s.connected then s
  else
    let s := { s with eventTimeout := 0, keepAliveTick := 0 }
    if s.connState = .connectSending then
      { s with connState := .connectSent, eventTimeout := sendTimeout }
    else
      match msgPeek s with
      | none => s
      | some node =>
        if ForgottenWhenSent node then
          let s := msgDequeue .sent s
          let s :=
            if node.msgType = .publish then luaCall s.callbacks.puback (.published node) s else s
          (mqttSendIfPossible env s).2
        else s

def mqttSocketConnected (s : Mud) : Mud :=
  { s with
    connected := true
    eventTimeout := sendTimeout
    keepAliveTick := 0
    connState := .connectSending
    outstanding := s.outstanding + 1
    effects := s.effects ++ [.connectSent] }

def connFailServerNotFound : Int := -5

def connFailTimeoutSending : Int := -1

def connFailTimeoutReceiving : Int := -2

/-- The timer behind the count of the event timeout. -/
def timerStates (env : Env) (s : Mud) : Mud :=
  match s.connState with
  | .init => mqttConnackFail connFailServerNotFound s
  | .connectSending =>
    { (mqttConnackFail connFailTimeoutSending { s with connState := .init }).record .disconnect
      with keepAliveTick := 0 }
  | .connectSent =>
    mqttConnackFail connFailTimeoutReceiving ({ s with connState := .init }.record .disconnect)
  | .data =>
    match msgPeek s with
    | some _ => (mqttSendIfPossible env s).2
    | none =>
      let s := { s with keepAliveTick := (s.keepAliveTick + 1) % 65536 }
      if s.keepalive < s.keepAliveTick then
        (mqttSendIfPossible env
          (respond env mqttMsgPingreq .pingreq 0 none (withBuffer s))).2
      else s

def mqttSocketTimer (env : Env) (s : Mud) : Mud :=
  if 0 < s.eventTimeout then
    let s := { s with eventTimeout := s.eventTimeout - 1 }
    if 0 < s.eventTimeout then s
    else timerStates env (if s.connState = .data then msgDequeue .timeout s else s)
  else timerStates env s

/-! ## What the parts of a handler leave alone -/

/-- A delivery does nothing to the client but call a Lua function. -/
theorem deliverPublish_val (env : Env) (b : Mem) (m : Nat) (s : Mud) :
    (deliverPublish env b m s).val = s ∨
      ∃ t d, (deliverPublish env b m s).val = s.record (.message t d) := by
  rw [deliverPublish, bind_val, bind_val]
  by_cases hc : ¬s.callbacks.message ∨ ¬s.callbacks.self
  · rw [if_pos hc]
    exact .inl rfl
  rw [if_neg hc]
  cases (mqttGetPublishTopic env.wide b m).val.1 with
  | none => exact .inl rfl
  | some p =>
    by_cases ht : (mqttGetPublishTopic env.wide b m).val.2 = 0
    · simp only [if_pos ht]
      exact .inl rfl
    simp only [if_neg ht, bind_val]
    cases (mqttGetPublishData env.wide b m).val.1 with
    | none => exact .inr ⟨_, none, rfl⟩
    | some q =>
      by_cases hd : (mqttGetPublishData env.wide b m).val.2 = 0
      · simp only [if_pos hd]
        exact .inr ⟨_, none, rfl⟩
      · simp only [if_neg hd]
        exact .inr ⟨_, some _, rfl⟩

/-- The fields that nothing changes but the handlers themselves. -/
structure SameState (s t : Mud) : Prop where
  connState : t.connState = s.connState
  connected : t.connected = s.connected
  eventTimeout : t.eventTimeout = s.eventTimeout
  outstanding : t.outstanding = s.outstanding

theorem SameState.refl (s : Mud) : SameState s s := ⟨rfl, rfl, rfl, rfl⟩

theorem SameState.trans {s t u : Mud} (h : SameState s t) (h' : SameState t u) : SameState s u :=
  ⟨h'.connState.trans h.connState, h'.connected.trans h.connected,
    h'.eventTimeout.trans h.eventTimeout, h'.outstanding.trans h.outstanding⟩

/-- The fields that no answer to a packet changes. -/
structure SameClient (s t : Mud) : Prop extends SameState s t where
  callbacks : t.callbacks = s.callbacks

theorem SameClient.refl (s : Mud) : SameClient s s := ⟨.refl s, rfl⟩

theorem SameClient.trans {s t u : Mud} (h : SameClient s t) (h' : SameClient t u) :
    SameClient s u :=
  ⟨h.toSameState.trans h'.toSameState, h'.callbacks.trans h.callbacks⟩

theorem record_same (s : Mud) (e : Effect) : SameClient s (s.record e) :=
  ⟨⟨rfl, rfl, rfl, rfl⟩, rfl⟩

theorem luaCall_same (callback : Bool) (e : Effect) (s : Mud) :
    SameClient s (luaCall callback e s) := by
  rw [luaCall]
  split_ifs
  · exact record_same s e
  · exact .refl s

theorem msgDequeue_same (cause : Cause) (s : Mud) : SameClient s (msgDequeue cause s) := by
  unfold msgDequeue
  cases s.pendingMsgQ with
  | nil => exact .refl s
  | cons node rest => exact ⟨⟨rfl, rfl, rfl, rfl⟩, rfl⟩

theorem respond_same (env : Env) (build : MqttConnection → MqttConnection)
    (msgType : MqttMessageType) (msgId : Nat) (origin : Option Nat) (s : Mud) :
    SameClient s (respond env build msgType msgId origin s) := by
  simp only [respond, msgEnqueue]
  split_ifs <;> exact ⟨⟨rfl, rfl, rfl, rfl⟩, rfl⟩

theorem acknowledge_same (expected type : MqttMessageType) (msgId : Nat)
    (next : MsgQueue → Mud → Mud) (h : ∀ node s, SameClient s (next node s)) (s : Mud) :
    SameClient s (acknowledge expected type msgId next s) := by
  unfold acknowledge
  cases msgPeek s with
  | none => exact .refl s
  | some node =>
    simp only
    split_ifs
    · exact (msgDequeue_same _ s).trans (h node _)
    · exact .refl s

/-- The effects of the Lua calls that acknowledgements lead to. -/
def IsCall (node : MsgQueue) (e : Effect) : Prop :=
  e = .suback ∨ e = .unsuback ∨ e = .published node

/-- What a packet does is one of four things: nothing, an answer, the end of a message with a
call, the end of a message with an answer. -/
theorem handlePacket_cases (env : Env) (msgType : Option MqttMessageType) (msgQos msgId : Nat)
    (P : (Mud → Mud) → Prop) (nothing : P id)
    (answer : ∀ build type, P (respond env build type msgId none))
    (call : ∀ expected type (callback : Callbacks → Bool) (e : MsgQueue → Effect),
      (∀ node, IsCall node (e node)) →
      P (acknowledge expected type msgId fun node s =>
        luaCall (callback s.callbacks) (e node) s))
    (next : ∀ expected type build type' (origin : MsgQueue → Option Nat),
      (∀ node, origin node = none ∨ origin node = some node.origin) →
      P (acknowledge expected type msgId fun node s =>
        respond env build type' msgId (origin node) s)) :
    P (handlePacket env msgType msgQos msgId) := by
  have publish : P (handlePublish env msgQos msgId) := by
    by_cases h1 : msgQos = 1
    · have h : handlePublish env msgQos msgId =
          respond env (fun c => mqttMsgPuback c (UInt16.ofNat msgId)) .puback msgId none := by
        funext s
        rw [handlePublish, if_pos h1]
      rw [h]
      exact answer _ _
    by_cases h2 : msgQos = 2
    · have h : handlePublish env msgQos msgId =
          respond env (fun c => mqttMsgPubrec c (UInt16.ofNat msgId)) .pubrec msgId none := by
        funext s
        rw [handlePublish, if_neg h1, if_pos h2]
      rw [h]
      exact answer _ _
    · have h : handlePublish env msgQos msgId = id := by
        funext s
        rw [handlePublish, if_neg h1, if_neg h2]
        rfl
      rw [h]
      exact nothing
  cases msgType with
  | none => exact nothing
  | some type =>
    cases type with
    | publish => exact publish
    | suback => exact call .subscribe .suback (·.suback) (fun _ => .suback) fun _ => .inl rfl
    | unsuback =>
      exact call .unsubscribe .unsuback (·.unsuback) (fun _ => .unsuback) fun _ => .inr (.inl rfl)
    | puback => exact call .publish .puback (·.puback) .published fun _ => .inr (.inr rfl)
    | pubrec =>
      exact next .publish .pubrec _ .pubrel (fun node => some node.origin) fun _ => .inr rfl
    | pubrel => exact next .pubrec .pubrel _ .pubcomp (fun _ => none) fun _ => .inl rfl
    | pubcomp => exact call .pubrel .pubcomp (·.puback) .published fun _ => .inr (.inr rfl)
    | pingreq => exact answer _ _
    | connect => exact nothing
    | connack => exact nothing
    | subscribe => exact nothing
    | unsubscribe => exact nothing
    | pingresp => exact nothing
    | disconnect => exact nothing

theorem handlePacket_same (env : Env) (msgType : Option MqttMessageType) (msgQos msgId : Nat)
    (s : Mud) : SameClient s (handlePacket env msgType msgQos msgId s) := by
  refine handlePacket_cases env msgType msgQos msgId (fun f => ∀ s, SameClient s (f s))
    ?_ ?_ ?_ ?_ s
  · exact .refl
  · exact fun build type s => respond_same env build type _ _ s
  · exact fun _ _ _ _ _ s => acknowledge_same _ _ _ _ (fun _ s => luaCall_same _ _ s) s
  · exact fun _ _ _ _ _ _ s =>
      acknowledge_same _ _ _ _ (fun _ s => respond_same env _ _ _ _ s) s

theorem deliverPublish_same (env : Env) (b : Mem) (m : Nat) (s : Mud) :
    SameClient s (deliverPublish env b m s).val := by
  obtain h | ⟨t, d, h⟩ := deliverPublish_val env b m s
  · rw [h]
    exact .refl s
  · rw [h]
    exact record_same s _

/-- In the state for data a packet is read as data. -/
theorem readPacket_eq_mqttData (env : Env) (b : Mem) (l : Nat) (s : Mud) (h : s.connState = .data) :
    readPacket env b l s = mqttData env b l
      ((withBuffer s).record (.packet (read b 0 (messageLength env b l).val))) := by
  simp only [readPacket]
  rw [show (withBuffer s).connState = .data from h]

/-- A round for data: what the packet does to the client, and whether another round follows. -/
theorem mqttData_val (env : Env) (b : Mem) (l : Nat) (s : Mud) :
    (mqttData env b l s).val =
      (if (mqttGetType b).val = some .publish then
        (deliverPublish env b (messageLength env b l).val
          (handlePacket env (mqttGetType b).val (mqttGetQos b).val
            (mqttGetId env.wide b (messageLength env b l).val).val s)).val
      else handlePacket env (mqttGetType b).val (mqttGetQos b).val
        (mqttGetId env.wide b (messageLength env b l).val).val s,
      if (mqttGetType b).val = some .publish ∧ (messageLength env b l).val < l then
        some (messageLength env b l).val
      else none) := by
  simp only [mqttData, bind_val, ite_val, pure_val]
  by_cases ht : (mqttGetType b).val = some .publish
  · by_cases hm : (messageLength env b l).val < l
    · simp only [ht, hm, if_true, and_self]
    · simp only [ht, hm, if_true, if_false, and_false]
  · simp only [ht, if_false, false_and]

theorem mqttData_same (env : Env) (b : Mem) (l : Nat) (s : Mud) :
    SameClient s (mqttData env b l s).val.1 := by
  rw [mqttData_val]
  dsimp only
  split_ifs
  · exact (handlePacket_same env _ _ _ s).trans (deliverPublish_same env b _ _)
  · exact handlePacket_same env _ _ _ s

end NodeMcu.Mqtt.Client
