import NodeMcu.Lib.Run
import NodeMcu.Mqtt.Msg
import Mathlib.Logic.Function.Iterate

namespace NodeMcu.Mqtt.MessageIds

open NodeMcu.Lib.Memory NodeMcu.Lib.Run NodeMcu.Mqtt.Msg

/-! ## The counter -/

theorem nextMessageId_toNat (n : UInt16) : (nextMessageId n).toNat = n.toNat % 65535 + 1 := by
  have hlt := n.toNat_lt
  have hadd : (n + 1).toNat = (n.toNat + 1) % 2 ^ 16 := UInt16.toNat_add n 1
  rw [nextMessageId]
  by_cases h : n + 1 = 0
  · have hzero : (n.toNat + 1) % 2 ^ 16 = 0 := by
      rw [← hadd, h]
      rfl
    rw [if_pos h, h]
    change 1 = _
    omega
  · have hne : (n.toNat + 1) % 2 ^ 16 ≠ 0 := fun hz => h (UInt16.toNat_inj.mp (hadd.trans hz))
    rw [if_neg h, hadd]
    omega

theorem iterate_toNat (n : UInt16) (k : Nat) :
    (nextMessageId^[k + 1] n).toNat = (n.toNat + k) % 65535 + 1 := by
  induction k with
  | zero => exact nextMessageId_toNat n
  | succ k ih =>
    rw [Function.iterate_succ_apply', nextMessageId_toNat, ih]
    omega

theorem next_iterate {n : UInt16} {k : Nat} (h : (n.toNat + k) % 65535 + 1 = n.toNat) :
    nextMessageId (nextMessageId^[k] n) = n := by
  rw [← UInt16.toNat_inj, ← Function.iterate_succ_apply' nextMessageId, iterate_toNat, h]

/-- The counter comes back after 65535 steps, and not before. -/
theorem iterate_eq_iff (n : UInt16) {i j : Nat} (h : i ≤ j) :
    nextMessageId^[i + 1] n = nextMessageId^[j + 1] n ↔ 65535 ∣ j - i := by
  rw [← UInt16.toNat_inj, iterate_toNat, iterate_toNat]
  omega

/-! ## Runs of builders -/

/-- Setting a connection up, and the builders that can ask for an id. -/
inductive Op
  | init (buffer : Mem) (bufferLength : UInt16)
  | publish (topic : Option CString) (data : List UInt8) (qos retain : Nat) (messageId : UInt16)
  | acknowledgement (type : MqttMessageType) (qos : Nat) (messageId : UInt16)
  | subscribeInit
  | subscribe (topic : CString) (qos : UInt8)
  | unsubscribe (topic : CString)

def step (c : MqttConnection) : Op → MqttConnection
  | .init buffer bufferLength => mqttMsgInit c buffer bufferLength
  | .publish topic data qos retain messageId =>
    (mqttMsgPublish c topic data qos retain messageId).1
  | .acknowledgement type qos messageId => acknowledgement type qos c messageId
  | .subscribeInit => (mqttMsgSubscribeInit c).1
  | .subscribe topic qos => (mqttMsgSubscribe c topic qos).1
  | .unsubscribe topic => (mqttMsgUnsubscribe c topic).1

/-- The connection with the message so far, where a builder asks for an id. -/
def asks (c : MqttConnection) : Op → Option MqttConnection
  | .init _ _ => none
  | .publish none _ _ _ _ => none
  | .publish (some topic) _ qos _ _ =>
    if topic.bytes = [] ∨ qos = 0 then none else appendString (initMessage c) topic.bytes
  | .acknowledgement _ _ messageId => if messageId = 0 then some (initMessage c) else none
  | _ => some (initMessage c)

/-- The id that is given, unless it does not fit. -/
def allocate (d : MqttConnection) : Option UInt16 :=
  if d.bufferLength.toNat < d.message.length + 2 then none else some (appendMessageId d 0).1

/-- What the builders that ask for an id get, in order. -/
def allocations : MqttConnection → List Op → List (Option UInt16)
  | _, [] => []
  | c, op :: ops =>
    match asks c op with
    | none => allocations (step c op) ops
    | some d => allocate d :: allocations (step c op) ops

/-! ## The counter in a connection -/

theorem finiMessage_messageId (c : MqttConnection) (type : MqttMessageType)
    (dup qos retain : Nat) : (finiMessage c type dup qos retain).messageId = c.messageId := by
  rw [finiMessage]
  split_ifs <;> rfl

theorem initMessage_messageId (c : MqttConnection) : (initMessage c).messageId = c.messageId := rfl

theorem appendString_messageId {c d : MqttConnection} {string : List UInt8}
    (h : appendString c string = some d) : d.messageId = c.messageId := by
  rw [appendString] at h
  split_ifs at h
  cases h
  rfl

theorem appendMessageId_zero (d : MqttConnection) :
    (appendMessageId d 0).2.messageId = nextMessageId d.messageId := by
  rw [appendMessageId]
  simp only [if_true]
  split_ifs <;> rfl

theorem appendMessageId_given (d : MqttConnection) {messageId : UInt16} (h : messageId ≠ 0) :
    (appendMessageId d messageId).2.messageId = d.messageId := by
  rw [appendMessageId]
  simp only [if_neg h]
  split_ifs <;> rfl

/-- An id that fits is the next one, and it is not 0. One that does not fit is reported as 0. -/
theorem allocate_eq (d : MqttConnection) :
    (allocate d).getD 0 = (appendMessageId d 0).1 ∧
      ∀ id, allocate d = some id → id = nextMessageId d.messageId := by
  rw [allocate, appendMessageId]
  simp only [if_true]
  split_ifs
  · refine ⟨rfl, fun id h => ?_⟩
    cases h
  · exact ⟨rfl, fun id h => (Option.some.inj h).symm⟩

theorem asks_messageId {c d : MqttConnection} {op : Op} (h : asks c op = some d) :
    d.messageId = c.messageId := by
  cases op with
  | init => cases h
  | publish topic data qos retain messageId =>
    cases topic with
    | none => cases h
    | some topic =>
      rw [asks] at h
      split_ifs at h
      rw [appendString_messageId h, initMessage_messageId]
  | acknowledgement type qos messageId =>
    rw [asks] at h
    split_ifs at h
    cases h
    rfl
  | subscribeInit | subscribe topic qos | unsubscribe topic =>
    cases h
    rfl

/-! ## One step -/

theorem subscribeInit_messageId (c : MqttConnection) :
    (mqttMsgSubscribeInit c).1.messageId = nextMessageId c.messageId := by
  have hid := appendMessageId_zero (initMessage c)
  rw [mqttMsgSubscribeInit]
  split_ifs
  · exact hid
  · exact hid

theorem subscribeTopic_messageId (c : MqttConnection) (topic : CString) (qos : UInt8) :
    (mqttMsgSubscribeTopic c topic qos).messageId = c.messageId := by
  rw [mqttMsgSubscribeTopic]
  split_ifs
  · rfl
  · cases hs : appendString c topic.bytes with
    | none => rfl
    | some d =>
      have hd := appendString_messageId hs
      dsimp only
      split_ifs
      · exact hd
      · exact hd

theorem unsubscribeTopic_messageId (c : MqttConnection) (topic : CString) :
    (mqttMsgUnsubscribeTopic c topic).messageId = c.messageId := by
  rw [mqttMsgUnsubscribeTopic]
  split_ifs
  · rfl
  · cases hs : appendString c topic.bytes with
    | none => rfl
    | some d => exact appendString_messageId hs

theorem publish_messageId (c : MqttConnection) (topic : CString) (data : List UInt8)
    (qos retain : Nat) (messageId : UInt16) :
    (mqttMsgPublish c (some topic) data qos retain messageId).1.messageId =
      match asks c (.publish (some topic) data qos retain messageId) with
      | none => c.messageId
      | some _ => nextMessageId c.messageId := by
  rw [mqttMsgPublish, asks]
  dsimp only
  by_cases hnil : topic.bytes = []
  · rw [if_pos hnil, if_pos (.inl hnil)]
    rfl
  rw [if_neg hnil]
  cases hs : appendString (initMessage c) topic.bytes with
  | none =>
    rw [ite_self]
    rfl
  | some d =>
    have hd := appendString_messageId hs
    rw [initMessage_messageId] at hd
    by_cases hqos : qos = 0
    · have hpos : ¬0 < qos := by omega
      rw [if_pos (.inr hqos)]
      dsimp only
      rw [if_neg hpos, if_neg fun h => hpos h.1]
      split_ifs
      · exact hd
      · rw [finiMessage_messageId]
        exact hd
    · have hpos : 0 < qos := Nat.pos_of_ne_zero hqos
      have hid : (appendMessageId d 0).2.messageId = nextMessageId c.messageId := by
        rw [appendMessageId_zero, hd]
      rw [if_neg (not_or.mpr ⟨hnil, hqos⟩)]
      dsimp only
      rw [if_pos hpos]
      split_ifs
      · exact hid
      · exact hid
      · rw [finiMessage_messageId]
        exact hid

/-- A builder that asks for an id moves the counter by one, whether the id fits or not. -/
theorem step_messageId (c : MqttConnection) (op : Op) : (step c op).messageId =
    match asks c op with
    | none => c.messageId
    | some _ => nextMessageId c.messageId := by
  cases op with
  | init buffer bufferLength => rfl
  | publish topic data qos retain messageId =>
    cases topic with
    | none => rfl
    | some topic => exact publish_messageId c topic data qos retain messageId
  | acknowledgement type qos messageId =>
    rw [step, acknowledgement, asks]
    by_cases hzero : messageId = 0
    · have hid := appendMessageId_zero (initMessage c)
      rw [if_pos hzero, hzero]
      split_ifs
      · exact hid
      · rw [finiMessage_messageId]
        exact hid
    · have hid := appendMessageId_given (initMessage c) hzero
      rw [if_neg hzero]
      split_ifs
      · exact hid
      · rw [finiMessage_messageId]
        exact hid
  | subscribeInit => exact subscribeInit_messageId c
  | subscribe topic qos =>
    have hinit := subscribeInit_messageId c
    have htopic := subscribeTopic_messageId (mqttMsgSubscribeInit c).1 topic qos
    rw [step, mqttMsgSubscribe]
    dsimp only
    split_ifs
    · exact (finiMessage_messageId _ _ _ _ _).trans (htopic.trans hinit)
    · exact htopic.trans hinit
    · exact hinit
  | unsubscribe topic =>
    have hinit := subscribeInit_messageId c
    have htopic := unsubscribeTopic_messageId (mqttMsgSubscribeInit c).1 topic
    rw [step, mqttMsgUnsubscribe]
    dsimp only
    split_ifs
    · exact (finiMessage_messageId _ _ _ _ _).trans (htopic.trans hinit)
    · exact htopic.trans hinit
    · exact hinit

/-- What a publication asks for is what it gives back. -/
theorem publish_id {c d : MqttConnection} {topic : CString} {data : List UInt8}
    {qos retain : Nat} {messageId : UInt16}
    (h : asks c (.publish (some topic) data qos retain messageId) = some d) :
    (mqttMsgPublish c (some topic) data qos retain messageId).2 = (allocate d).getD 0 := by
  rw [asks] at h
  split_ifs at h with hnone
  obtain ⟨hnil, hqos⟩ := not_or.mp hnone
  rw [mqttMsgPublish, (allocate_eq d).1]
  dsimp only
  rw [if_neg hnil, h]
  dsimp only
  rw [if_pos (Nat.pos_of_ne_zero hqos)]
  split_ifs <;> rfl

/-! ## Whole runs -/

theorem allocations_cons {c d : MqttConnection} {op : Op} (h : asks c op = some d)
    (ops : List Op) : allocations c (op :: ops) = allocate d :: allocations (step c op) ops := by
  rw [allocations, h]

theorem allocations_getElem (c : MqttConnection) (ops : List Op) (i : Nat) (id : UInt16)
    (h : (allocations c ops)[i]? = some (some id)) :
    id = nextMessageId^[i + 1] c.messageId := by
  induction ops generalizing c i with
  | nil => cases h
  | cons op ops ih =>
    have hstep := step_messageId c op
    rw [allocations] at h
    cases hasks : asks c op with
    | none =>
      rw [hasks] at h hstep
      have hrest := ih _ i h
      rw [hstep] at hrest
      exact hrest
    | some d =>
      rw [hasks] at h hstep
      cases i with
      | zero =>
        have hid := (allocate_eq d).2 id (Option.some.inj h)
        rw [asks_messageId hasks] at hid
        exact hid
      | succ i =>
        have hrest := ih _ i h
        rw [hstep] at hrest
        exact hrest

/-- An id that is given is not 0, and two of them are equal exactly where the askings between them,
those that do not fit included, are a multiple of 65535. -/
theorem allocations_eq_iff (c : MqttConnection) (ops : List Op) (i j : Nat) (a b : UInt16)
    (hi : (allocations c ops)[i]? = some (some a)) (hj : (allocations c ops)[j]? = some (some b))
    (h : i ≤ j) : a ≠ 0 ∧ (a = b ↔ 65535 ∣ j - i) := by
  have ha := allocations_getElem c ops i a hi
  have hb := allocations_getElem c ops j b hj
  refine ⟨fun hzero => ?_, ?_⟩
  · have hnat := iterate_toNat c.messageId i
    rw [← ha, hzero] at hnat
    exact absurd hnat (Nat.zero_ne_add_one _)
  · rw [ha, hb]
    exact iterate_eq_iff c.messageId h

/-- A topic of one letter. -/
def shortTopic : CString := ⟨[0x61], by decide⟩

theorem first_ids : (1 : UInt16) ≠ 0 ∧ ((1 : UInt16) = 2 ↔ 65535 ∣ 1 - 0) :=
  allocations_eq_iff firstConnection
    [.subscribe shortTopic 0, .publish (some shortTopic) [] 1 0 0] 0 1 1 2 rfl rfl (Nat.zero_le 1)

/-! ## Ids that do not fit -/

/-- A publication whose topic fits, without room for an id behind it. -/
def crowded (topic : CString) : Op := .publish (some topic) [] 1 0 0

theorem crowded_step {c : MqttConnection} {topic : CString} (hnil : topic.bytes ≠ [])
    (hfits : 3 + topic.bytes.length + 2 ≤ c.bufferLength.toNat)
    (hlong : c.bufferLength.toNat < 3 + topic.bytes.length + 4) :
    ∃ d, asks c (crowded topic) = some d ∧ allocate d = none ∧
      (step c (crowded topic)).bufferLength = c.bufferLength := by
  have hstring : appendString (initMessage c) topic.bytes = some (append (append (initMessage c)
      (bigEndian 2 topic.bytes.length)) topic.bytes) := if_neg (Nat.not_lt.mpr hfits)
  have hlength : (append (append (initMessage c) (bigEndian 2 topic.bytes.length))
      topic.bytes).message.length = 3 + 2 + topic.bytes.length := rfl
  have hfull : (append (append (initMessage c) (bigEndian 2 topic.bytes.length))
      topic.bytes).bufferLength.toNat < (append (append (initMessage c)
        (bigEndian 2 topic.bytes.length)) topic.bytes).message.length + 2 := by
    rw [hlength]
    change c.bufferLength.toNat < _
    omega
  refine ⟨_, ?_, if_pos hfull, ?_⟩
  · rw [crowded, asks, if_neg (not_or.mpr ⟨hnil, by decide⟩), hstring]
  · rw [crowded, step, mqttMsgPublish]
    dsimp only
    rw [if_neg hnil, hstring]
    dsimp only
    rw [if_pos Nat.one_pos, appendMessageId]
    simp only [if_true, if_pos hfull, Nat.one_pos, and_self]
    rfl

theorem allocations_crowded (topic : CString) (hnil : topic.bytes ≠ []) (ops : List Op) (k : Nat)
    (c : MqttConnection) (hfits : 3 + topic.bytes.length + 2 ≤ c.bufferLength.toNat)
    (hlong : c.bufferLength.toNat < 3 + topic.bytes.length + 4) :
    ∃ d, d.bufferLength = c.bufferLength ∧ d.messageId = nextMessageId^[k] c.messageId ∧
      allocations c (List.replicate k (crowded topic) ++ ops) =
        List.replicate k none ++ allocations d ops := by
  induction k generalizing c with
  | zero => exact ⟨c, rfl, rfl, rfl⟩
  | succ k ih =>
    obtain ⟨a, hasks, hnone, hbuffer⟩ := crowded_step hnil hfits hlong
    have hid := step_messageId c (crowded topic)
    rw [hasks] at hid
    obtain ⟨d, hd, hdid, hrest⟩ := ih (step c (crowded topic)) (by rw [hbuffer]; exact hfits)
      (by rw [hbuffer]; exact hlong)
    refine ⟨d, hd.trans hbuffer, ?_, ?_⟩
    · rw [hdid, hid]
      rfl
    · rw [List.replicate_succ, List.cons_append, allocations_cons hasks, hnone, hrest]
      rfl

/-- A topic that leaves a byte of the buffer behind it. -/
def longTopic : CString :=
  ⟨List.replicate 1018 0x61, fun h => absurd (List.eq_of_mem_replicate h) (by decide)⟩

/-- After an id has been given, all the others are used up by publications that fail. -/
def repeated : List Op :=
  .publish (some shortTopic) [] 1 0 0 ::
    (List.replicate 65534 (crowded longTopic) ++ [.publish (some shortTopic) [] 1 0 0])

theorem shortTopic_asks {c : MqttConnection} (h : c.bufferLength = mqttBufSize) :
    ∃ d, asks c (.publish (some shortTopic) [] 1 0 0) = some d ∧
      allocate d = some (nextMessageId c.messageId) := by
  have hstring : ¬c.bufferLength.toNat < 3 + 1 + 2 := by
    rw [h]
    decide
  have hid : ¬c.bufferLength.toNat < 3 + 2 + 1 + 2 := by
    rw [h]
    decide
  refine ⟨append (append (initMessage c) (bigEndian 2 1)) [0x61], if_neg hstring, ?_⟩
  rw [allocate, appendMessageId]
  simp only [if_true]
  rw [if_neg (show ¬(append (append (initMessage c) (bigEndian 2 1)) [0x61]).bufferLength.toNat <
    (append (append (initMessage c) (bigEndian 2 1)) [0x61]).message.length + 2 from hid)]
  exact congrArg some (congrArg Prod.fst (if_neg hid))

theorem filterMap_crowded (a b : UInt16) (k : Nat) :
    (some a :: (List.replicate k none ++ [some b])).filterMap id = [a, b] := by
  simp

/-- The second id that is given is the first one again. -/
theorem repeated_ids : (allocations firstConnection repeated).filterMap id = [1, 1] := by
  obtain ⟨a, hasks, hfirst⟩ := shortTopic_asks (c := firstConnection) rfl
  have hlong : longTopic.bytes.length = 1018 := List.length_replicate
  obtain ⟨d, hd, hid, hrest⟩ := allocations_crowded longTopic
    (fun h => by rw [h] at hlong; cases hlong) [.publish (some shortTopic) [] 1 0 0] 65534
    (step firstConnection (.publish (some shortTopic) [] 1 0 0)) (by rw [hlong]; decide)
    (by rw [hlong]; decide)
  have hcounter : (step firstConnection (.publish (some shortTopic) [] 1 0 0)).messageId = 1 := by
    rw [step_messageId, hasks]
    exact (by decide : nextMessageId firstConnection.messageId = 1)
  have hlast : nextMessageId d.messageId = 1 := by
    rw [hid, hcounter]
    exact next_iterate (by decide)
  obtain ⟨b, hasks', hsecond⟩ := shortTopic_asks (hd.trans rfl : d.bufferLength = mqttBufSize)
  rw [repeated, allocations_cons hasks, hrest, hfirst, allocations_cons hasks', hsecond, hlast,
    allocations]
  exact filterMap_crowded 1 1 65534

end NodeMcu.Mqtt.MessageIds
