import NodeMcu.Mqtt.Client

namespace NodeMcu.Mqtt.Handlers

open NodeMcu.Lib.Memory NodeMcu.Lib.Reading NodeMcu.Mqtt.Msg NodeMcu.Mqtt.Client

/-! ## What a handler does to the queue -/

/-- The effects by which no message is sent or comes to its end. -/
def Quiet : Effect → Prop
  | .send _ | .removed _ _ | .published _ => False
  | _ => True

/-- Messages come to the end of the queue, each with a number of its own, and none leaves it. -/
structure Appends (s t : Mud) : Prop where
  more : ∃ nodes es, t.pendingMsgQ = s.pendingMsgQ ++ nodes ∧ t.effects = s.effects ++ es ∧
    (∀ e ∈ es, Quiet e) ∧ nodes.map (·.origin) = List.range' s.queued nodes.length ∧
    t.queued = s.queued + nodes.length

/-- What follows the end of a message: nothing, a call, or a message that continues it or
answers. -/
inductive Follows (node : MsgQueue) (queued : Nat) : List MsgQueue → List Effect → Prop
  | nothing : Follows node queued [] []
  | call (e : Effect) (h : IsCall node e) : Follows node queued [] [e]
  | answer (next : MsgQueue) (h : next.origin = node.origin ∨ next.origin = queued) :
      Follows node queued [next] [.queued next]

/-- The head leaves the queue. -/
structure Removes (cause : Cause) (node : MsgQueue) (s t : Mud) : Prop where
  removed : ∃ rest nodes es, s.pendingMsgQ = node :: rest ∧ t.pendingMsgQ = rest ++ nodes ∧
    t.effects = s.effects ++ .removed node cause :: es ∧ Follows node s.queued nodes es ∧
    t.queued = s.queued + nodes.length

theorem Appends.refl (s : Mud) : Appends s s :=
  ⟨[], [], by simp⟩

theorem Appends.trans {s t u : Mud} (h : Appends s t) (h' : Appends t u) : Appends s u := by
  obtain ⟨ns, es, hq, he, hes, hns, hn⟩ := h.more
  obtain ⟨ns', es', hq', he', hes', hns', hn'⟩ := h'.more
  refine ⟨ns ++ ns', es ++ es', ?_, ?_, ?_, ?_, ?_⟩
  · rw [hq', hq, List.append_assoc]
  · rw [he', he, List.append_assoc]
  · exact List.forall_mem_append.mpr ⟨hes, hes'⟩
  · rw [List.map_append, List.length_append, hns, hns', hn, List.range'_append_1]
  · rw [hn', hn, List.length_append, Nat.add_assoc]

theorem Appends.of_eq {s t : Mud} (hq : t.pendingMsgQ = s.pendingMsgQ)
    (he : t.effects = s.effects) (hn : t.queued = s.queued) : Appends s t :=
  ⟨[], [], by simp [hq, he, hn]⟩

theorem withBuffer_appends (s : Mud) : Appends s (withBuffer s) :=
  .of_eq rfl rfl rfl

theorem record_appends (s : Mud) (e : Effect) (h : Quiet e) : Appends s (s.record e) :=
  ⟨[], [e], by simpa [Mud.record] using h⟩

theorem luaCall_appends (callback : Bool) (s : Mud) (e : Effect) (h : Quiet e) :
    Appends s (luaCall callback e s) := by
  rw [luaCall]
  split_ifs
  · exact record_appends s e h
  · exact .refl s

theorem msgEnqueue_appends (env : Env) (msgId : Nat) (msgType : MqttMessageType)
    (publishQos : Nat) (s : Mud) :
    Appends s (msgEnqueue env msgId msgType publishQos s.queued s).2 := by
  simp only [msgEnqueue]
  split_ifs
  · exact .refl s
  · refine ⟨[_], [_], rfl, rfl, ?_, rfl, rfl⟩
    intro e he
    obtain rfl := List.mem_singleton.mp he
    trivial
  · exact .refl s

theorem respond_appends (env : Env) (build : MqttConnection → MqttConnection)
    (msgType : MqttMessageType) (msgId : Nat) (s : Mud) :
    Appends s (respond env build msgType msgId none s) := by
  have h : Appends s { s with mqttConnection := build s.mqttConnection } :=
    .of_eq rfl rfl rfl
  exact h.trans (msgEnqueue_appends env msgId msgType (messageQos (build s.mqttConnection)) _)

theorem deliverPublish_appends (env : Env) (b : Mem) (m : Nat) (s : Mud) :
    Appends s (deliverPublish env b m s).val := by
  obtain h | ⟨t, d, h⟩ := deliverPublish_val env b m s
  · rw [h]
    exact .refl s
  · rw [h]
    exact record_appends s _ trivial

/-! ## Acknowledgements -/

/-- The type of message that an acknowledgement looks for at the head of the queue. -/
def expectedType : MqttMessageType → Option MqttMessageType
  | .suback => some .subscribe
  | .unsuback => some .unsubscribe
  | .puback => some .publish
  | .pubrec => some .publish
  | .pubrel => some .pubrec
  | .pubcomp => some .pubrel
  | _ => none

/-- A packet of that type and id ends the message. -/
def Acknowledges (msgType : Option MqttMessageType) (msgId : Nat) (node : MsgQueue) : Prop :=
  msgType.bind expectedType = some node.msgType ∧ node.msgId = msgId

/-- The message that answers to the end of a message: what `respond` puts at the end of the
queue. -/
def answerNode (build : MqttConnection → MqttConnection) (msgType : MqttMessageType)
    (msgId origin : Nat) (s : Mud) : MsgQueue :=
  let c := build s.mqttConnection
  { msg := read c.buffer c.message.data c.message.length
    msgId, msgType, origin
    publishQos := messageQos c
    serial := s.queued }

theorem msgDequeue_cons (cause : Cause) (s : Mud) (node : MsgQueue) (rest : List MsgQueue)
    (h : s.pendingMsgQ = node :: rest) :
    msgDequeue cause s =
      { s with pendingMsgQ := rest, effects := s.effects ++ [.removed node cause] } := by
  unfold msgDequeue
  rw [h]

theorem acknowledge_head (expected type : MqttMessageType) (msgId : Nat)
    (next : MsgQueue → Mud → Mud) (s : Mud) (node : MsgQueue) (rest : List MsgQueue)
    (h : s.pendingMsgQ = node :: rest) (hf : Fits expected msgId node) :
    acknowledge expected type msgId next s =
      next node (msgDequeue (.acknowledgement type msgId) s) := by
  simp only [acknowledge, msgPeek, h, List.head?_cons, if_pos hf]

theorem acknowledge_other (expected type : MqttMessageType) (msgId : Nat)
    (next : MsgQueue → Mud → Mud) (s : Mud)
    (h : ∀ node ∈ s.pendingMsgQ.head?, ¬Fits expected msgId node) :
    acknowledge expected type msgId next s = s := by
  unfold acknowledge msgPeek
  cases hq : s.pendingMsgQ.head? with
  | none => rfl
  | some node => simp only [if_neg (h node hq)]

theorem call_removes (expected type : MqttMessageType) (msgId : Nat)
    (callback : Callbacks → Bool) (e : MsgQueue → Effect) (s : Mud) (node : MsgQueue)
    (rest : List MsgQueue) (h : s.pendingMsgQ = node :: rest) (hf : Fits expected msgId node)
    (he : IsCall node (e node)) :
    Removes (.acknowledgement type msgId) node s
      (acknowledge expected type msgId (fun node s =>
        luaCall (callback s.callbacks) (e node) s) s) := by
  rw [acknowledge_head expected type msgId _ s node rest h hf, msgDequeue_cons _ s node rest h,
    luaCall]
  split_ifs
  · exact ⟨rest, [], [e node], h, by simp [Mud.record],
      by simp [Mud.record], .call _ he, rfl⟩
  · exact ⟨rest, [], [], h, by simp, by simp, .nothing, rfl⟩

theorem respond_removes (env : Env) (expected type : MqttMessageType) (msgId : Nat)
    (build : MqttConnection → MqttConnection) (type' : MqttMessageType)
    (origin : MsgQueue → Option Nat) (s : Mud) (node : MsgQueue) (rest : List MsgQueue)
    (h : s.pendingMsgQ = node :: rest) (hf : Fits expected msgId node)
    (ho : origin node = none ∨ origin node = some node.origin) :
    Removes (.acknowledgement type msgId) node s
      (acknowledge expected type msgId (fun node s =>
        respond env build type' msgId (origin node) s) s) := by
  rw [acknowledge_head expected type msgId _ s node rest h hf, msgDequeue_cons _ s node rest h]
  simp only [respond, msgEnqueue]
  split_ifs
  · exact ⟨rest, [], [], h, by simp, by simp, .nothing, rfl⟩
  · refine ⟨rest, [_], [_], h, rfl, by simp, .answer _ ?_, rfl⟩
    obtain ho | ho := ho
    · exact .inr (by rw [ho]; rfl)
    · exact .inl (by rw [ho]; rfl)
  · exact ⟨rest, [], [], h, by simp, by simp, .nothing, rfl⟩

theorem handlePacket_removes (env : Env) (type : MqttMessageType) (msgQos msgId : Nat) (s : Mud)
    (node : MsgQueue) (rest : List MsgQueue) (h : s.pendingMsgQ = node :: rest)
    (ha : Acknowledges (some type) msgId node) :
    Removes (.acknowledgement type msgId) node s
      (handlePacket env (some type) msgQos msgId s) := by
  obtain ⟨ht, hid⟩ := ha
  have hf : ∀ expected, expectedType type = some expected → Fits expected msgId node :=
    fun expected he => ⟨Option.some.inj (ht.symm.trans he), hid⟩
  cases type with
  | suback =>
    exact call_removes _ _ _ (·.suback) (fun _ => .suback) s node rest h (hf _ rfl) (.inl rfl)
  | unsuback =>
    exact call_removes _ _ _ (·.unsuback) (fun _ => .unsuback) s node rest h (hf _ rfl)
      (.inr (.inl rfl))
  | puback =>
    exact call_removes _ _ _ (·.puback) .published s node rest h (hf _ rfl) (.inr (.inr rfl))
  | pubrec =>
    exact respond_removes env _ _ _ _ _ (fun node => some node.origin) s node rest h (hf _ rfl)
      (.inr rfl)
  | pubrel =>
    exact respond_removes env _ _ _ _ _ (fun _ => none) s node rest h (hf _ rfl) (.inl rfl)
  | pubcomp =>
    exact call_removes _ _ _ (·.puback) .published s node rest h (hf _ rfl) (.inr (.inr rfl))
  | publish | pingreq | connect | connack | subscribe | unsubscribe | pingresp | disconnect =>
    cases ht

theorem handlePacket_appends (env : Env) (msgType : Option MqttMessageType)
    (msgQos msgId : Nat) (s : Mud)
    (h : ∀ node ∈ s.pendingMsgQ.head?, ¬Acknowledges msgType msgId node) :
    Appends s (handlePacket env msgType msgQos msgId s) := by
  -- an acknowledgement of another message leaves the client as it is
  have other : ∀ expected type next, msgType.bind expectedType = some expected →
      Appends s (acknowledge expected type msgId next s) := by
    intro expected type next he
    rw [acknowledge_other expected type msgId next s fun node hn hf =>
      h node hn ⟨he.trans (congrArg some hf.1.symm), hf.2⟩]
    exact .refl s
  cases msgType with
  | none => exact .refl s
  | some type =>
    cases type with
    | suback | unsuback | puback | pubrec | pubrel | pubcomp => exact other _ _ _ rfl
    | publish =>
      simp only [handlePacket, handlePublish]
      split_ifs
      · exact respond_appends env _ _ _ s
      · exact respond_appends env _ _ _ s
      · exact .refl s
    | pingreq => exact respond_appends env _ _ _ s
    | connect | connack | subscribe | unsubscribe | pingresp | disconnect => exact .refl s

end NodeMcu.Mqtt.Handlers
