import NodeMcu.Lib.Run
import NodeMcu.Mqtt.Handlers

namespace NodeMcu.Mqtt.Runs

open NodeMcu.Lib.Memory NodeMcu.Lib.Reading
open NodeMcu.Mqtt.Msg NodeMcu.Mqtt.Client NodeMcu.Mqtt.Handlers

/-! ## The events of a client -/

inductive Event
  | publish (topic : CString) (payload : List UInt8) (qos retain : UInt8) (callback : Bool)
  | subscribe (topics : Topics) (callback : Bool)
  | unsubscribe (topics : Topics) (callback : Bool)
  | received (inBuffer : Mem) (length : Nat)
  | sent
  | tick

/-- The client after an event. There is none after a segment whose handler does not return. -/
def handle (env : Env) : Event → Mud → Option Mud
  | .publish topic payload qos retain callback, s =>
    some (mqttSocketPublish env topic payload qos retain callback s).2
  | .subscribe topics callback, s => some (mqttSocketSubscribe env topics callback s).2
  | .unsubscribe topics callback, s => some (mqttSocketUnsubscribe env topics callback s).2
  | .received inBuffer length, s =>
    (mqttSocketReceived env (length + 1) inBuffer length s).map (·.val)
  | .sent, s => some (mqttSocketSent env s)
  | .tick, s => some (mqttSocketTimer env s)

def step (s : Option Mud) (i : Env × Event) : Option Mud := s.bind (handle i.1 i.2)

/-- A condition on the client in front of an event. -/
def Met (P : Mud → Env × Event → Prop) (s : Option Mud) (i : Env × Event) : Prop :=
  ∀ t, s = some t → P t i

instance (P : Mud → Env × Event → Prop) [∀ s i, Decidable (P s i)] (i : Env × Event) :
    ∀ s, Decidable (Met P s i)
  | none => isTrue fun _ h => nomatch h
  | some s => decidable_of_iff (P s i)
    ⟨fun h _ ht => Option.some.inj ht ▸ h, fun h => h s rfl⟩

theorem Met.imp {P Q : Mud → Env × Event → Prop} (h : ∀ s i, P s i → Q s i) (s : Option Mud)
    (i : Env × Event) (hp : Met P s i) : Met Q s i :=
  fun t ht => h t i (hp t ht)

/-- A client whose connection was just made. The record of what it does begins here, and no send
but that of the connection is under way. -/
def connected (s : Mud) : Mud := mqttSocketConnected { s with outstanding := 0, effects := [] }

/-- A client whose application is told of publications. -/
def listening : Mud :=
  { mqttSocketClient with callbacks := ⟨true, false, false, false, false, false, true⟩ }

/-- The answer that accepts a connection. -/
def acceptance : Mem := fun i => [0x20, 2, 0, 0].getD i.toNat 0

/-- The acknowledgement of the message with id 1. -/
def firstPuback : Mem := fun i => [0x40, 2, 0, 1].getD i.toNat 0

def topicT : CString := ⟨[0x74], by decide⟩

/-! ## The loop over a segment -/

section Loop

variable (env : Env)

def packetId (b : Mem) (l : Nat) : Nat :=
  (mqttGetId env.wide b (messageLength env b l).val).val

/-- The client when the loop turns to a packet. -/
def atPacket (b : Mem) (l : Nat) (s : Mud) : Mud :=
  (withBuffer s).record (.packet (read b 0 (messageLength env b l).val))

/-- The loop ends with this packet. -/
def Last (b : Mem) (l : Nat) : Prop :=
  ¬((mqttGetType b).val = some .publish ∧ (messageLength env b l).val < l)

/-- The packets at which the loop of the state for data arrives, with the client in front of
each. -/
inductive Arrives : Mem → Nat → Mud → Mem → Nat → Mud → Prop
  | here (b : Mem) (l : Nat) (s : Mud) : Arrives b l s b l s
  | next (b b' : Mem) (l l' : Nat) (s t : Mud) (more : ¬Last env b l)
      (rest : Arrives (after (messageLength env b l).val b) (l - (messageLength env b l).val)
        (readPacket env b l s).val.1 b' l' t) : Arrives b l s b' l' t

theorem atPacket_appends (b : Mem) (l : Nat) (s : Mud) : Appends s (atPacket env b l s) :=
  (withBuffer_appends s).trans (record_appends _ _ trivial)

theorem readPacket_data (b : Mem) (l : Nat) (s : Mud) (h : s.connState = .data) :
    readPacket env b l s = mqttData env b l (atPacket env b l s) :=
  readPacket_eq_mqttData env b l s h

theorem readPacket_same (b : Mem) (l : Nat) (s : Mud) (h : s.connState = .data) :
    SameState s (readPacket env b l s).val.1 := by
  rw [readPacket_data env b l s h]
  have hp : SameState s (atPacket env b l s) := ⟨rfl, rfl, rfl, rfl⟩
  exact hp.trans (mqttData_same env b l (atPacket env b l s)).toSameState

theorem readPacket_more (b : Mem) (l : Nat) (s : Mud) (h : s.connState = .data) :
    (readPacket env b l s).val.2 =
      if (mqttGetType b).val = some .publish ∧ (messageLength env b l).val < l then
        some (messageLength env b l).val
      else none := by
  rw [readPacket_data env b l s h, mqttData_val]

/-- A packet that is no publication. -/
theorem readPacket_other (b : Mem) (l : Nat) (s : Mud) (h : s.connState = .data)
    (ht : (mqttGetType b).val ≠ some .publish) :
    (readPacket env b l s).val.1 = handlePacket env (mqttGetType b).val (mqttGetQos b).val
      (packetId env b l) (atPacket env b l s) := by
  rw [readPacket_data env b l s h, mqttData_val]
  exact if_neg ht

theorem not_publish_of_acknowledges {type : Option MqttMessageType} {msgId : Nat}
    {node : MsgQueue} (h : Acknowledges type msgId node) : type ≠ some .publish := by
  rintro rfl
  cases h.1

theorem last_of_acknowledges {b : Mem} {l : Nat} {msgId : Nat} {node : MsgQueue}
    (h : Acknowledges (mqttGetType b).val msgId node) : Last env b l :=
  fun hp => not_publish_of_acknowledges h hp.1

theorem readPacket_appends (b : Mem) (l : Nat) (s : Mud) (h : s.connState = .data)
    (hn : ∀ node ∈ s.pendingMsgQ.head?,
      ¬Acknowledges (mqttGetType b).val (packetId env b l) node) :
    Appends s (readPacket env b l s).val.1 := by
  have hp : Appends s (handlePacket env (mqttGetType b).val (mqttGetQos b).val
      (packetId env b l) (atPacket env b l s)) :=
    (atPacket_appends env b l s).trans (handlePacket_appends env _ _ _ _ hn)
  rw [readPacket_data env b l s h, mqttData_val]
  dsimp only
  split_ifs
  · exact hp.trans (deliverPublish_appends env b _ _)
  · exact hp

theorem readPacket_removes (b : Mem) (l : Nat) (s : Mud) (h : s.connState = .data)
    (node : MsgQueue) (rest : List MsgQueue) (hq : s.pendingMsgQ = node :: rest)
    (ha : Acknowledges (mqttGetType b).val (packetId env b l) node) :
    ∃ type, (mqttGetType b).val = some type ∧
      Removes (.acknowledgement type (packetId env b l)) node (atPacket env b l s)
        (readPacket env b l s).val.1 := by
  rw [readPacket_other env b l s h (not_publish_of_acknowledges ha)]
  cases ht : (mqttGetType b).val with
  | none =>
    rw [ht] at ha
    cases ha.1
  | some type =>
    rw [ht] at ha
    exact ⟨type, rfl, handlePacket_removes env type _ _ _ node rest hq ha⟩

theorem readPacket_appends_of_more (b : Mem) (l : Nat) (s : Mud) (h : s.connState = .data)
    (hm : ¬Last env b l) : Appends s (readPacket env b l s).val.1 :=
  readPacket_appends env b l s h fun _ _ ha => hm (last_of_acknowledges env ha)

variable {env}

theorem arrives_appends {b b' : Mem} {l l' : Nat} {s t : Mud} (ha : Arrives env b l s b' l' t)
    (h : s.connState = .data) : Appends s t ∧ SameState s t := by
  induction ha with
  | here b l s => exact ⟨.refl s, .refl s⟩
  | next b b' l l' s t more rest ih =>
    have hs := readPacket_same env b l s h
    obtain ⟨h1, h2⟩ := ih (hs.connState.trans h)
    exact ⟨(readPacket_appends_of_more env b l s h more).trans h1, hs.trans h2⟩

/-- A loop over a packet of length zero stays there. -/
theorem arrives_zero {b b' : Mem} {l l' : Nat} {s t : Mud} (ha : Arrives env b l s b' l' t)
    (h : (messageLength env b l).val = 0) : b' = b ∧ l' = l := by
  induction ha with
  | here => exact ⟨rfl, rfl⟩
  | next b b' l l' s t more rest ih =>
    have hb : after ((0 : Nat) : Int) b = b := by
      funext i
      simp [after]
    rw [h, hb, Nat.sub_zero] at ih
    exact ih h

variable (env)

theorem received_data (n : Nat) (b : Mem) (l : Nat) (s : Mud) (h : s.connState = .data)
    (hl : 0 < l) (hmax : l ≤ mqttBufSize.toNat) :
    (mqttSocketReceived env (n + 1) b l s).map (·.val) =
      if (mqttGetType b).val = some .publish ∧ (messageLength env b l).val < l then
        (mqttSocketReceived env n (after (messageLength env b l).val b)
          (l - (messageLength env b l).val) (readPacket env b l s).val.1).map (·.val)
      else some (mqttSendIfPossible env (readPacket env b l s).val.1).2 := by
  have hc : ¬(mqttBufSize.toNat < l ∨ l = 0) := by omega
  simp only [mqttSocketReceived, if_neg hc, readPacket_more env b l s h]
  split_ifs with hm
  · simp only [Option.map_map]
    rfl
  · rfl

/-- A handler that returns has arrived at a last packet. -/
theorem received_arrives (n : Nat) (b : Mem) (l : Nat) (s u : Mud) (h : s.connState = .data)
    (hl : 0 < l) (hmax : l ≤ mqttBufSize.toNat)
    (hr : (mqttSocketReceived env n b l s).map (·.val) = some u) :
    ∃ b' l' t, Arrives env b l s b' l' t ∧ Last env b' l' ∧
      u = (mqttSendIfPossible env (readPacket env b' l' t).val.1).2 := by
  induction n generalizing b l s with
  | zero => cases hr
  | succ n ih =>
    rw [received_data env n b l s h hl hmax] at hr
    split_ifs at hr with hm
    · obtain ⟨b', l', t, ha, hlast, hu⟩ := ih _ _ _
        ((readPacket_same env b l s h).connState.trans h) (by omega) (by omega) hr
      exact ⟨b', l', t, .next b b' l l' s t (not_not.mpr hm) ha, hlast, hu⟩
    · exact ⟨b, l, s, .here b l s, hm, (Option.some.inj hr).symm⟩

/-- A handler that arrives at a last packet returns, within as many rounds as there are
bytes. -/
theorem received_of_arrives {b b' : Mem} {l l' : Nat} {s t : Mud}
    (ha : Arrives env b l s b' l' t) (hlast : Last env b' l') (h : s.connState = .data)
    (hl : 0 < l) (hmax : l ≤ mqttBufSize.toNat) (n : Nat) (hn : l ≤ n) :
    (mqttSocketReceived env (n + 1) b l s).map (·.val) =
      some (mqttSendIfPossible env (readPacket env b' l' t).val.1).2 := by
  induction ha generalizing n with
  | here b l s => rw [received_data env n b l s h hl hmax, if_neg hlast]
  | next b b' l l' s t more rest ih =>
    rw [Last, not_not] at more
    rw [received_data env n b l s h hl hmax, if_pos more]
    have h0 : (messageLength env b l).val ≠ 0 := by
      intro h0
      obtain ⟨rfl, rfl⟩ := arrives_zero (.next b b' l l' s t (not_not.mpr more) rest) h0
      exact hlast more
    obtain ⟨k, rfl⟩ : ∃ k, n = k + 1 := ⟨n - 1, by omega⟩
    exact ih hlast ((readPacket_same env b l s h).connState.trans h) (by omega) (by omega) k
      (by omega)

/-- More rounds than there are bytes never help a handler to return. -/
theorem received_fuel (n : Nat) (b : Mem) (l : Nat) (s u : Mud) (h : s.connState = .data)
    (hl : 0 < l) (hmax : l ≤ mqttBufSize.toNat)
    (hr : (mqttSocketReceived env n b l s).map (·.val) = some u) :
    handle env (.received b l) s = some u := by
  obtain ⟨b', l', t, ha, hlast, rfl⟩ := received_arrives env n b l s u h hl hmax hr
  exact received_of_arrives env ha hlast h hl hmax l (Nat.le_refl l)

end Loop

/-! ## What an event does -/

/-- A client that stays as it is but for messages at the end of the queue, which is then sent
from; or one that neither queues nor sends. -/
inductive Outcome (env : Env) (s t : Mud) : Prop
  | stays (more : Appends s t) (same : SameState s t) (queue : t.pendingMsgQ = s.pendingMsgQ)
  | sends (u : Mud) (more : Appends s u) (same : SameState s u)
      (sent : t = (mqttSendIfPossible env u).2)

section Events

variable (env : Env)

theorem enqueueAndSend_outcome (msgId : Nat) (msgType : MqttMessageType) (publishQos : Nat)
    (s u : Mud) (more : Appends s u) (same : SameState s u) :
    Outcome env s (enqueueAndSend env msgId msgType publishQos u).2 := by
  refine .sends (msgEnqueue env msgId msgType publishQos u.queued u).2
    (more.trans (msgEnqueue_appends env msgId msgType publishQos u)) (same.trans ?_) rfl
  simp only [msgEnqueue]
  split_ifs <;> exact ⟨rfl, rfl, rfl, rfl⟩

theorem mqttSocketPublish_outcome (topic : CString) (payload : List UInt8) (qos retain : UInt8)
    (callback : Bool) (s : Mud) :
    Outcome env s (mqttSocketPublish env topic payload qos retain callback s).2 := by
  rw [mqttSocketPublish]
  by_cases hc : ¬s.connected
  · rw [if_pos hc]
    exact .stays (.refl s) (.refl s) rfl
  · rw [if_neg hc]
    exact enqueueAndSend_outcome env _ _ _ s _ (.of_eq rfl rfl rfl) ⟨rfl, rfl, rfl, rfl⟩

theorem mqttSocketSubscribe_outcome (topics : Topics) (callback : Bool) (s : Mud) :
    Outcome env s (mqttSocketSubscribe env topics callback s).2 := by
  rw [mqttSocketSubscribe]
  by_cases hc : ¬s.connected
  · rw [if_pos hc]
    exact .stays (.refl s) (.refl s) rfl
  · rw [if_neg hc]
    dsimp only
    split
    · exact .stays (.of_eq rfl rfl rfl) ⟨rfl, rfl, rfl, rfl⟩ rfl
    · exact enqueueAndSend_outcome env _ _ _ s _ (.of_eq rfl rfl rfl) ⟨rfl, rfl, rfl, rfl⟩

theorem mqttSocketUnsubscribe_outcome (topics : Topics) (callback : Bool) (s : Mud) :
    Outcome env s (mqttSocketUnsubscribe env topics callback s).2 := by
  rw [mqttSocketUnsubscribe]
  by_cases hc : ¬s.connected
  · rw [if_pos hc]
    exact .stays (.refl s) (.refl s) rfl
  · rw [if_neg hc]
    dsimp only
    split
    · exact .stays (.of_eq rfl rfl rfl) ⟨rfl, rfl, rfl, rfl⟩ rfl
    · exact enqueueAndSend_outcome env _ _ _ s _ (.of_eq rfl rfl rfl) ⟨rfl, rfl, rfl, rfl⟩

/-- The states that wait for the answer to a connection. -/
def Waiting (s : Mud) : Prop := s.connState = .connectSending ∨ s.connState = .connectSent

/-- The answer to a connection ends the wait. -/
structure Answered (s t : Mud) : Prop where
  more : Appends s t
  eventTimeout : t.eventTimeout = 0
  ended : ¬Waiting t

theorem mqttConnackFail_appends (code : Int) (s : Mud) : Appends s (mqttConnackFail code s) :=
  luaCall_appends _ s _ trivial

theorem mqttConnect_answered (b : Mem) (s : Mud) : Answered s (mqttConnect b s).val := by
  have hcall : ∀ t : Mud, Appends s t → t.eventTimeout = 0 → ¬Waiting t → ∀ callback e, Quiet e →
      Answered s (luaCall callback e t) := by
    intro t hm ht hw callback e he
    have hs := luaCall_same callback e t
    refine ⟨hm.trans (luaCall_appends callback t e he), hs.eventTimeout.trans ht, ?_⟩
    rwa [Waiting, hs.connState]
  have hinit : ∀ t : Mud, t.connState = .init → ¬Waiting t := by
    rintro t ht (h | h) <;> simp [ht] at h
  have hd : Appends s ({ s with eventTimeout := 0, connState := .init }.record .disconnect) :=
    ⟨[], [.disconnect], by simp [Mud.record, Quiet]⟩
  simp only [mqttConnect, bind_val, ite_val, pure_val]
  split_ifs
  · exact hcall _ hd rfl (hinit _ rfl) _ _ trivial
  · exact hcall _ hd rfl (hinit _ rfl) _ _ trivial
  · refine hcall { s with eventTimeout := 0, connState := .data } (.of_eq rfl rfl rfl) rfl ?_
      s.callbacks.connect .connect trivial
    rintro (h | h) <;> cases h

/-- What the handler of a segment does. -/
inductive Handled (b : Mem) (l : Nat) (s : Mud) : Mud → Prop
  | ignored : Handled b l s s
  | notConnected (h : s.connState = .init) :
      Handled b l s (mqttSendIfPossible env (withBuffer s)).2
  | answered (h : Waiting s) (u : Mud) (ha : Answered s u) :
      Handled b l s (mqttSendIfPossible env u).2
  | data (h : s.connState = .data) (hl : 0 < l) (hmax : l ≤ mqttBufSize.toNat) (b' : Mem)
      (l' : Nat) (t : Mud) (ha : Arrives env b l s b' l' t) (hlast : Last env b' l') :
      Handled b l s (mqttSendIfPossible env (readPacket env b' l' t).val.1).2

theorem received_handled (b : Mem) (l : Nat) (s u : Mud)
    (hr : handle env (.received b l) s = some u) : Handled env b l s u := by
  by_cases hc : mqttBufSize.toNat < l ∨ l = 0
  · simp only [handle, mqttSocketReceived, if_pos hc, Option.map_some, Option.some.injEq] at hr
    subst hr
    exact .ignored
  have hwait : Waiting s → Handled env b l s u := by
    intro hw
    have hrp : (readPacket env b l s).val = ((mqttConnect b (atPacket env b l s)).val, none) := by
      have hs : (withBuffer s).connState = s.connState := rfl
      rcases hw with hw | hw <;> rw [readPacket, hs, hw] <;> rfl
    simp only [handle, mqttSocketReceived, if_neg hc, hrp, Option.map_some,
      Option.some.injEq] at hr
    subst hr
    obtain ⟨hm, ht, ho⟩ := mqttConnect_answered b (atPacket env b l s)
    exact .answered hw _ ⟨(atPacket_appends env b l s).trans hm, ht, ho⟩
  cases hs : s.connState with
  | connectSending => exact hwait (.inl hs)
  | connectSent => exact hwait (.inr hs)
  | init =>
    have hrp : (readPacket env b l s).val = (withBuffer s, none) := by
      rw [readPacket, show (withBuffer s).connState = .init from hs]
      rfl
    simp only [handle, mqttSocketReceived, if_neg hc, hrp, Option.map_some,
      Option.some.injEq] at hr
    subst hr
    exact .notConnected hs
  | data =>
    obtain ⟨b', l', t, ha, hlast, rfl⟩ :=
      received_arrives env _ b l s u hs (by omega) (by omega) hr
    exact .data hs (by omega) (by omega) b' l' t ha hlast

/-- The timer where no event timeout runs. -/
theorem timerStates_outcome (s : Mud) (hw : ¬Waiting s) : Outcome env s (timerStates env s) := by
  unfold timerStates
  split
  case h_1 hs =>
    have h := luaCall_same s.callbacks.connectFail (.connectFail connFailServerNotFound) s
    refine .stays (mqttConnackFail_appends _ s) h.toSameState ?_
    simp only [mqttConnackFail, luaCall]
    split_ifs <;> rfl
  case h_2 hs => exact (hw (.inl hs)).elim
  case h_3 hs => exact (hw (.inr hs)).elim
  case h_4 hs =>
    cases msgPeek s with
    | some node => exact .sends s (.refl s) (.refl s) rfl
    | none =>
      simp only
      split_ifs
      · have hm : Appends s (withBuffer
            { s with keepAliveTick := (s.keepAliveTick + 1) % 65536 }) := .of_eq rfl rfl rfl
        have hs : SameState s (withBuffer
            { s with keepAliveTick := (s.keepAliveTick + 1) % 65536 }) := ⟨rfl, rfl, rfl, rfl⟩
        exact .sends _ (hm.trans (respond_appends env mqttMsgPingreq .pingreq 0 _))
          (hs.trans (respond_same env mqttMsgPingreq .pingreq 0 none _).toSameState) rfl
      · exact .stays (.of_eq rfl rfl rfl) ⟨rfl, rfl, rfl, rfl⟩ rfl

theorem timerStates_waiting (s : Mud) (hw : Waiting s) : Appends s (timerStates env s) := by
  unfold timerStates
  obtain hs | hs := hw
  · rw [hs]
    have h1 : Appends s { s with connState := .init } := .of_eq rfl rfl rfl
    have h2 := (h1.trans (mqttConnackFail_appends connFailTimeoutSending _)).trans
      (record_appends _ .disconnect trivial)
    exact h2.trans (.of_eq rfl rfl rfl)
  · rw [hs]
    have h1 : Appends s { s with connState := .init } := .of_eq rfl rfl rfl
    exact (h1.trans (record_appends _ .disconnect trivial)).trans (mqttConnackFail_appends _ _)

/-- A tick with which no event timeout expires. -/
theorem mqttSocketTimer_eq (s : Mud) (h : s.eventTimeout ≠ 1) :
    mqttSocketTimer env s =
      if s.eventTimeout = 0 then timerStates env s
      else { s with eventTimeout := s.eventTimeout - 1 } := by
  rw [mqttSocketTimer]
  by_cases h0 : s.eventTimeout = 0
  · rw [if_pos h0, if_neg (by omega)]
  · rw [if_neg h0, if_pos (by omega), if_pos]
    change 0 < s.eventTimeout - 1
    omega

/-- The client of a connection after the callback of a send. -/
def afterSent (s : Mud) : Mud :=
  { s with outstanding := s.outstanding - 1, eventTimeout := 0, keepAliveTick := 0 }

/-- What the callback of a send does. -/
inductive Sent (s : Mud) : Mud → Prop
  | disconnected : Sent s { s with outstanding := s.outstanding - 1 }
  | connect (h : s.connState = .connectSending) :
      Sent s { afterSent s with connState := .connectSent, eventTimeout := sendTimeout }
  | kept (h : s.connState ≠ .connectSending) : Sent s (afterSent s)
  | forgotten (h : s.connState ≠ .connectSending) (node : MsgQueue) (u : Mud)
      (hf : ForgottenWhenSent node) (hr : Removes .sent node (afterSent s) u)
      (same : SameState (afterSent s) u) : Sent s (mqttSendIfPossible env u).2

theorem sent_forgotten (s : Mud) (node : MsgQueue) (rest : List MsgQueue)
    (h : s.pendingMsgQ = node :: rest) :
    let t := msgDequeue .sent s
    let u := if node.msgType = .publish then luaCall t.callbacks.puback (.published node) t else t
    Removes .sent node s u ∧ SameState s u := by
  have hd := msgDequeue_cons .sent s node rest h
  have hs := (msgDequeue_same .sent s).toSameState
  simp only [luaCall]
  split_ifs
  · refine ⟨⟨rest, [], [.published node], h, ?_, ?_, .call _ (.inr (.inr rfl)), ?_⟩,
      hs.trans ⟨rfl, rfl, rfl, rfl⟩⟩ <;> simp [hd, Mud.record]
  · exact ⟨⟨rest, [], [], h, by simp [hd], by simp [hd], .nothing, by simp [hd]⟩, hs⟩
  · exact ⟨⟨rest, [], [], h, by simp [hd], by simp [hd], .nothing, by simp [hd]⟩, hs⟩

theorem mqttSocketSent_sent (s : Mud) : Sent env s (mqttSocketSent env s) := by
  rw [mqttSocketSent]
  by_cases hc : ¬s.connected
  · rw [if_pos hc]
    exact .disconnected
  rw [if_neg hc]
  by_cases hs : s.connState = .connectSending
  · dsimp only
    rw [if_pos hs]
    exact .connect hs
  dsimp only
  rw [if_neg hs]
  cases hq : s.pendingMsgQ with
  | nil =>
    simp only [msgPeek, List.head?_nil]
    rw [← hq]
    exact .kept hs
  | cons node rest =>
    simp only [msgPeek, List.head?_cons]
    rw [← hq]
    by_cases hf : ForgottenWhenSent node
    · rw [if_pos hf]
      obtain ⟨hr, same⟩ := sent_forgotten (afterSent s) node rest hq
      exact .forgotten hs node _ hf hr same
    · rw [if_neg hf]
      exact .kept hs

end Events

end NodeMcu.Mqtt.Runs
