import NodeMcu.Mqtt.TotalLength

namespace NodeMcu.Mqtt.Builders

open NodeMcu.Lib.Memory NodeMcu.Mqtt.Msg NodeMcu.Mqtt.TotalLength

/-! ## The other builders -/

structure MqttConnectInfo where
  clientId : Option CString
  username : Option CString
  password : Option CString
  willTopic : Option CString
  willMessage : CString
  keepalive : UInt32
  willQos : UInt32
  willRetain : Bool
  cleanSession : Bool

def mqttConnectFlagUsername : UInt8 := (1 : UInt8) <<< 7

def mqttConnectFlagPassword : UInt8 := (1 : UInt8) <<< 6

def mqttConnectFlagWillRetain : UInt8 := (1 : UInt8) <<< 5

def mqttConnectFlagWill : UInt8 := (1 : UInt8) <<< 2

def mqttConnectFlagCleanSession : UInt8 := (1 : UInt8) <<< 1

/-- A string that is not missing and not empty. -/
def present (string : Option CString) : Option (List UInt8) :=
  match string with
  | none => none
  | some s => if s.bytes = [] then none else some s.bytes

/-- The flags are in the variable header, behind the name of the protocol and its version. -/
def orFlags (c : MqttConnection) (flags : UInt8) : MqttConnection :=
  { c with buffer := write c.buffer 10 [c.buffer 10 ||| flags] }

def appendOrFail (c : MqttConnection) (string : List UInt8) :
    Except MqttConnection MqttConnection :=
  match appendString c string with
  | none => .error (failMessage c)
  | some c => .ok c

/-- A string that can be missing, with the flag that says it is there. -/
def appendPresent (c : MqttConnection) (string : Option CString) (flag : UInt8) :
    Except MqttConnection MqttConnection :=
  match present string with
  | none => .ok c
  | some s => (appendOrFail c s).map (orFlags · flag)

def appendWill (c : MqttConnection) (info : MqttConnectInfo) :
    Except MqttConnection MqttConnection :=
  match present info.willTopic with
  | none => .ok c
  | some topic => do
    let c ← appendOrFail c topic
    let c ← appendOrFail c info.willMessage.bytes
    let c := orFlags c mqttConnectFlagWill
    let c := if info.willRetain then orFlags c mqttConnectFlagWillRetain else c
    .ok (orFlags c ((info.willQos &&& 3) <<< 3).toUInt8)

def connectHeader (c : MqttConnection) (info : MqttConnectInfo) : MqttConnection :=
  let c := append c [0, 4, 0x4D, 0x51, 0x54, 0x54, 4, 0, (info.keepalive >>> 8).toUInt8,
    (info.keepalive &&& 0xff).toUInt8]
  if info.cleanSession then orFlags c mqttConnectFlagCleanSession else c

def connectStrings (c : MqttConnection) (info : MqttConnectInfo) :
    Except MqttConnection MqttConnection := do
  let c ← match present info.clientId with
    | none => .error (failMessage c)
    | some id => appendOrFail c id
  let c ← appendWill c info
  let c ← appendPresent c info.username mqttConnectFlagUsername
  appendPresent c info.password mqttConnectFlagPassword

def mqttMsgConnect (c : MqttConnection) (info : MqttConnectInfo) : MqttConnection :=
  let c := initMessage c
  if c.bufferLength.toNat < c.message.length + 10 then failMessage c
  else
    match connectStrings (connectHeader c info) info with
    | .error c => c
    | .ok c => finiMessage c .connect 0 0 0

def mqttMsgDisconnect (c : MqttConnection) : MqttConnection :=
  finiMessage (initMessage c) .disconnect 0 0 0

/-- The loop over a table of topics stops at one that does not fit. -/
def appendTopics {τ : Type} (add : MqttConnection → τ → MqttConnection) :
    MqttConnection → List τ → MqttConnection
  | c, [] => c
  | c, topic :: topics =>
    if (add c topic).message.length = 0 then add c topic
    else appendTopics add (add c topic) topics

/-- A table has at least one topic. What the first call gives back is not looked at. -/
def mqttSocketSubscribe (c : MqttConnection) (first : CString × UInt8)
    (topics : List (CString × UInt8)) : MqttConnection :=
  let c := (mqttMsgSubscribeInit c).1
  let c := appendTopics (fun c t => mqttMsgSubscribeTopic c t.1 t.2) c (first :: topics)
  if c.message.length = 0 then c else mqttMsgSubscribeFini c

def mqttSocketUnsubscribe (c : MqttConnection) (first : CString) (topics : List CString) :
    MqttConnection :=
  let c := (mqttMsgUnsubscribeInit c).1
  let c := appendTopics mqttMsgUnsubscribeTopic c (first :: topics)
  if c.message.length = 0 then c else mqttMsgUnsubscribeFini c

inductive Builder
  | connect (info : MqttConnectInfo)
  | publish (topic : Option CString) (data : List UInt8) (qos retain : Nat) (messageId : UInt16)
  | puback (messageId : UInt16)
  | pubrec (messageId : UInt16)
  | pubrel (messageId : UInt16)
  | pubcomp (messageId : UInt16)
  | subscribe (topic : CString) (qos : UInt8)
  | unsubscribe (topic : CString)
  | subscribeTable (first : CString × UInt8) (topics : List (CString × UInt8))
  | unsubscribeTable (first : CString) (topics : List CString)
  | pingreq
  | pingresp
  | disconnect

def build (c : MqttConnection) : Builder → MqttConnection
  | .connect info => mqttMsgConnect c info
  | .publish topic data qos retain messageId =>
    (mqttMsgPublish c topic data qos retain messageId).1
  | .puback messageId => mqttMsgPuback c messageId
  | .pubrec messageId => mqttMsgPubrec c messageId
  | .pubrel messageId => mqttMsgPubrel c messageId
  | .pubcomp messageId => mqttMsgPubcomp c messageId
  | .subscribe topic qos => (mqttMsgSubscribe c topic qos).1
  | .unsubscribe topic => (mqttMsgUnsubscribe c topic).1
  | .subscribeTable first topics => mqttSocketSubscribe c first topics
  | .unsubscribeTable first topics => mqttSocketUnsubscribe c first topics
  | .pingreq => mqttMsgPingreq c
  | .pingresp => mqttMsgPingresp c
  | .disconnect => mqttMsgDisconnect c

/-! ## How long a message is -/

/-- The bytes of a string that is there. -/
def presentLength (string : Option CString) : Nat :=
  match present string with
  | none => 0
  | some s => 2 + s.length

def willLength (info : MqttConnectInfo) : Nat :=
  match present info.willTopic with
  | none => 0
  | some topic => 2 + topic.length + (2 + info.willMessage.bytes.length)

/-- The length behind the fixed header, unless a builder refuses its arguments. -/
def bodyLength : Builder → Option Nat
  | .connect info =>
    match present info.clientId with
    | none => none
    | some id => some (10 + (2 + id.length) + willLength info + presentLength info.username +
        presentLength info.password)
  | .publish topic data qos _ _ =>
    match present topic with
    | none => none
    | some topic => some (2 + topic.length + (if 0 < qos then 2 else 0) + data.length)
  | .puback _ | .pubrec _ | .pubrel _ | .pubcomp _ => some 2
  | .subscribe topic _ => if topic.bytes = [] then none else some (2 + (2 + topic.bytes.length + 1))
  | .unsubscribe topic => if topic.bytes = [] then none else some (2 + (2 + topic.bytes.length))
  | .subscribeTable first topics =>
    if ∃ t ∈ first :: topics, t.1.bytes = [] then none
    else some (2 + ((first :: topics).map fun t => 2 + t.1.bytes.length + 1).sum)
  | .unsubscribeTable first topics =>
    if ∃ t ∈ first :: topics, t.bytes = [] then none
    else some (2 + ((first :: topics).map fun t => 2 + t.bytes.length).sum)
  | .pingreq | .pingresp | .disconnect => some 0

/-! ## What the parts of a builder do -/

/-- Nothing outside the buffer has changed. -/
structure Frame (c r : MqttConnection) : Prop where
  bufferLength : r.bufferLength = c.bufferLength
  outside : ∀ i : Int, i < 0 ∨ (c.bufferLength.toNat : Int) ≤ i → r.buffer i = c.buffer i

theorem Frame.trans {c d r : MqttConnection} (h : Frame c d) (h' : Frame d r) : Frame c r :=
  ⟨h'.bufferLength.trans h.bufferLength, fun i hi =>
    (h'.outside i (by rw [h.bufferLength]; exact hi)).trans (h.outside i hi)⟩

/-- A message has grown inside the buffer. -/
structure Grown (c r : MqttConnection) (n : Nat) : Prop where
  frame : Frame c r
  length : r.message.length = c.message.length + n
  fits : r.message.length ≤ c.bufferLength.toNat

structure Failed (c r : MqttConnection) : Prop where
  frame : Frame c r
  length : r.message.length = 0

theorem initMessage_frame (c : MqttConnection) : Frame c (initMessage c) := ⟨rfl, fun _ _ => rfl⟩

theorem Frame.failed {c d : MqttConnection} (h : Frame c d) : Failed c (failMessage d) :=
  ⟨⟨h.bufferLength, h.outside⟩, rfl⟩

theorem write_outside {c : MqttConnection} {i : Int} {bs : List UInt8} (hi : 0 ≤ i)
    (hfits : i + bs.length ≤ c.bufferLength.toNat) (j : Int)
    (hj : j < 0 ∨ (c.bufferLength.toNat : Int) ≤ j) : write c.buffer i bs j = c.buffer j := by
  obtain hj | hj := hj
  · exact write_of_lt _ _ _ _ (by omega)
  · exact write_of_ge _ _ _ _ (by omega)

theorem append_grown (c : MqttConnection) (bs : List UInt8)
    (h : c.message.length + bs.length ≤ c.bufferLength.toNat) :
    Grown c (append c bs) bs.length :=
  ⟨⟨rfl, write_outside (Int.natCast_nonneg _) (by exact_mod_cast h)⟩, rfl, h⟩

theorem Grown.trans {c d r : MqttConnection} {m n : Nat} (h : Grown c d m) (h' : Grown d r n) :
    Grown c r (m + n) :=
  ⟨h.frame.trans h'.frame, by rw [h'.length, h.length, Nat.add_assoc],
    by rw [← h.frame.bufferLength]; exact h'.fits⟩

theorem appendString_spec (c : MqttConnection) (s : List UInt8) :
    match appendString c s with
    | none => c.bufferLength.toNat < c.message.length + (2 + s.length)
    | some d => Grown c d (2 + s.length) := by
  rw [appendString]
  split_ifs with h
  · dsimp only
    omega
  · have h1 : Grown c (append c (bigEndian 2 s.length)) (bigEndian 2 s.length).length :=
      append_grown c _ (by rw [bigEndian_length]; omega)
    have h2 := h1.trans (append_grown _ s (by
      rw [h1.length, h1.frame.bufferLength, bigEndian_length]
      omega))
    rw [bigEndian_length] at h2
    exact h2

theorem appendMessageId_spec (c : MqttConnection) (messageId : UInt16) :
    if (appendMessageId c messageId).1 = 0 then
      Frame c (appendMessageId c messageId).2 ∧ c.bufferLength.toNat < c.message.length + 2
    else Grown c (appendMessageId c messageId).2 2 := by
  have hid : ∀ id n : UInt16, ¬c.bufferLength.toNat < c.message.length + 2 →
      Grown c (append { c with messageId := n } (bigEndian 2 id.toNat)) 2 := fun id n hfits => by
    have h := append_grown { c with messageId := n } (bigEndian 2 id.toNat)
      (by rw [bigEndian_length]; exact Nat.not_lt.mp hfits)
    rw [bigEndian_length] at h
    exact ⟨⟨h.frame.bufferLength, h.frame.outside⟩, h.length, h.fits⟩
  rw [appendMessageId]
  by_cases hzero : messageId = 0
  · simp only [if_pos hzero]
    by_cases hfull : c.bufferLength.toNat < c.message.length + 2
    · simp only [if_pos hfull, if_true]
      exact ⟨⟨rfl, fun _ _ => rfl⟩, hfull⟩
    · simp only [if_neg hfull, if_neg (nextMessageId_ne c.messageId)]
      exact hid _ _ hfull
  · simp only [if_neg hzero]
    by_cases hfull : c.bufferLength.toNat < c.message.length + 2
    · simp only [if_pos hfull, if_true]
      exact ⟨⟨rfl, fun _ _ => rfl⟩, hfull⟩
    · simp only [if_neg hfull, if_neg hzero]
      exact hid _ _ hfull

theorem finiMessage_frame {c : MqttConnection} (h : 3 ≤ c.bufferLength.toNat)
    (type : MqttMessageType) (dup qos retain : Nat) :
    Frame c (finiMessage c type dup qos retain) := by
  rw [finiMessage]
  split_ifs
  · refine ⟨rfl, write_outside (Int.le_refl 0) ?_⟩
    simp only [List.length_cons, List.length_nil]
    omega
  · exact ⟨rfl, write_outside (by decide) (by simp only [List.length_cons, List.length_nil]; omega)⟩

/-! ## What comes out of a builder -/

/-- Nothing is written outside the buffer, and the result is empty or has a length that is read
back. -/
def Sound (c r : MqttConnection) : Prop := Frame c r ∧ (r.message.length = 0 ∨ Consistent r)

/-- A builder has failed, or it has finished a message: one of the length that was asked for, or a
short one where that would not have fitted. -/
inductive Outcome (c r : MqttConnection) (n : Option Nat) : Prop
  | failed (h : Failed c r) (hn : ∀ k, n = some k → c.bufferLength.toNat < 3 + k)
  | built (d : MqttConnection) (type : MqttMessageType) (dup qos retain k : Nat)
      (hframe : Frame c d) (hlength : d.message.length = 3 + k)
      (hfits : d.message.length ≤ c.bufferLength.toNat)
      (hn : n = some k ∨ k ≤ 16383 ∧ ∀ j, n = some j → c.bufferLength.toNat < 3 + j)
      (hr : r = finiMessage d type dup qos retain)

/-- The remaining length has at most 14 bits, or the message does not fit, or it is refused. -/
def Short (c : MqttConnection) (n : Option Nat) : Prop :=
  ∀ k, n = some k → k ≤ 16383 ∨ c.bufferLength.toNat < 3 + k

theorem sound_iff {c r : MqttConnection} {n : Option Nat} (hbuffer : 3 ≤ c.bufferLength.toNat)
    (h : Outcome c r n) : Sound c r ↔ Short c n := by
  have hlt := c.bufferLength.toNat_lt
  obtain ⟨h, hn⟩ | ⟨d, type, dup, qos, retain, k, hframe, hlength, hfits, hn, rfl⟩ := h
  · exact iff_of_true ⟨h.frame, .inl h.length⟩ fun k hk => .inr (hn k hk)
  · have hframe' : Frame c (finiMessage d type dup qos retain) :=
      hframe.trans (finiMessage_frame (by rw [hframe.bufferLength]; exact hbuffer) _ _ _ _)
    have hconsistent := consistent_iff d type dup qos retain k hlength (by omega)
    have hne : (finiMessage d type dup qos retain).message.length ≠ 0 := by
      rw [finiMessage]
      split_ifs <;> exact Nat.succ_ne_zero _
    rw [Sound, and_iff_right hframe', or_iff_right hne, hconsistent, Short]
    obtain rfl | ⟨hk, hn⟩ := hn
    · constructor
      · intro hk j hj
        cases hj
        exact .inl hk
      · intro h
        have := h k rfl
        omega
    · exact iff_of_true hk fun j hj => .inr (hn j hj)

/-! ## The builders one by one -/

section Outcomes

variable {c : MqttConnection}

/-- A message of a type and an id. -/
theorem acknowledgement_outcome (type : MqttMessageType) (qos : Nat) (messageId : UInt16) :
    Outcome c (acknowledgement type qos c messageId) (some 2) := by
  have hid := appendMessageId_spec (initMessage c) messageId
  rw [acknowledgement]
  split_ifs at hid ⊢ with hzero
  · refine .failed (((initMessage_frame c).trans hid.1).failed) fun k hk => ?_
    cases hk
    exact hid.2
  · exact .built _ type 0 qos 0 2 ((initMessage_frame c).trans hid.frame) hid.length hid.fits
      (.inl rfl) rfl

theorem bare_outcome (hbuffer : 3 ≤ c.bufferLength.toNat) (type : MqttMessageType) :
    Outcome c (finiMessage (initMessage c) type 0 0 0) (some 0) :=
  .built _ type 0 0 0 0 (initMessage_frame c) rfl hbuffer (.inl rfl) rfl

theorem refused {r : MqttConnection} (h : Failed c r) : Outcome c r none :=
  .failed h fun _ hk => nomatch hk

/-- The data of a publication, behind its topic and its id. -/
theorem publishData_outcome {d e : MqttConnection} {m : Nat} (hd : Frame c d)
    (h : Grown (initMessage c) e m) (data : List UInt8) (qos retain : Nat) :
    Outcome c (if d.bufferLength.toNat < e.message.length + data.length then failMessage e
      else finiMessage (append e data) .publish 0 qos retain) (some (m + data.length)) := by
  have he := (initMessage_frame c).trans h.frame
  have hlength : e.message.length = 3 + m := h.length
  rw [hd.bufferLength]
  split_ifs with hfull
  · refine .failed he.failed fun k hk => ?_
    cases hk
    omega
  · have hdata := append_grown e data (by rw [he.bufferLength]; omega)
    have hgrown := h.trans hdata
    exact .built _ _ 0 qos retain (m + data.length) ((initMessage_frame c).trans hgrown.frame)
      hgrown.length hgrown.fits (.inl rfl) rfl

theorem publish_outcome (topic : Option CString) (data : List UInt8) (qos retain : Nat)
    (messageId : UInt16) :
    Outcome c (mqttMsgPublish c topic data qos retain messageId).1
      (bodyLength (.publish topic data qos retain messageId)) := by
  cases topic with
  | none => exact refused (initMessage_frame c).failed
  | some topic =>
    rw [mqttMsgPublish, bodyLength, present]
    dsimp only
    by_cases hnil : topic.bytes = []
    · rw [if_pos hnil, if_pos hnil]
      exact refused (initMessage_frame c).failed
    rw [if_neg hnil, if_neg hnil]
    dsimp only
    have hstring := appendString_spec (initMessage c) topic.bytes
    cases hs : appendString (initMessage c) topic.bytes with
    | none =>
      rw [hs] at hstring
      refine .failed (initMessage_frame c).failed fun k hk => ?_
      have hfull : c.bufferLength.toNat < 3 + (2 + topic.bytes.length) := hstring
      cases hk
      omega
    | some d =>
      rw [hs] at hstring
      have hd : Grown (initMessage c) d (2 + topic.bytes.length) := hstring
      have hframe := (initMessage_frame c).trans hd.frame
      dsimp only
      by_cases hqos : 0 < qos
      · have hid := appendMessageId_spec d 0
        simp only [hqos, true_and, if_true]
        by_cases hzero : (appendMessageId d 0).1 = 0
        · rw [if_pos hzero] at hid
          rw [if_pos hzero]
          refine .failed (hframe.trans hid.1).failed fun k hk => ?_
          have hfull := hid.2
          rw [hd.length, hframe.bufferLength] at hfull
          have hthree : (initMessage c).message.length = 3 := rfl
          cases hk
          omega
        · rw [if_neg hzero] at hid
          rw [if_neg hzero, apply_ite Prod.fst]
          exact publishData_outcome hframe (hd.trans hid) data qos retain
      · simp only [hqos, false_and, if_false]
        rw [apply_ite Prod.fst]
        exact publishData_outcome hframe hd data qos retain

/-! ### Topics -/

/-- A topic goes behind the message so far, or the message has failed: the topic is empty or does
not fit. -/
def TopicSpec (d r : MqttConnection) (empty : Prop) (n : Nat) : Prop :=
  if r.message.length = 0 then
    Frame d r ∧ (empty ∨ d.bufferLength.toNat < d.message.length + n)
  else Grown d r n ∧ ¬empty

theorem topicSpec_failed {d r : MqttConnection} {empty : Prop} {n : Nat} (h : Failed d r)
    (hn : empty ∨ d.bufferLength.toNat < d.message.length + n) : TopicSpec d r empty n := by
  rw [TopicSpec, if_pos h.length]
  exact ⟨h.frame, hn⟩

theorem topicSpec_grown {d r : MqttConnection} {empty : Prop} {n : Nat} (h : Grown d r n)
    (hn : n ≠ 0) (hempty : ¬empty) : TopicSpec d r empty n := by
  rw [TopicSpec, if_neg (by rw [h.length]; omega)]
  exact ⟨h, hempty⟩

theorem unsubscribeTopic_spec (d : MqttConnection) (topic : CString) :
    TopicSpec d (mqttMsgUnsubscribeTopic d topic) (topic.bytes = [])
      (2 + topic.bytes.length) := by
  rw [mqttMsgUnsubscribeTopic]
  split_ifs with hnil
  · exact topicSpec_failed ⟨⟨rfl, fun _ _ => rfl⟩, rfl⟩ (.inl hnil)
  · have hstring := appendString_spec d topic.bytes
    cases hs : appendString d topic.bytes with
    | none =>
      rw [hs] at hstring
      exact topicSpec_failed ⟨⟨rfl, fun _ _ => rfl⟩, rfl⟩ (.inr hstring)
    | some e =>
      rw [hs] at hstring
      exact topicSpec_grown hstring (by omega) hnil

theorem subscribeTopic_spec (d : MqttConnection) (topic : CString) (qos : UInt8) :
    TopicSpec d (mqttMsgSubscribeTopic d topic qos) (topic.bytes = [])
      (2 + topic.bytes.length + 1) := by
  rw [mqttMsgSubscribeTopic]
  split_ifs with hnil
  · exact topicSpec_failed ⟨⟨rfl, fun _ _ => rfl⟩, rfl⟩ (.inl hnil)
  · have hstring := appendString_spec d topic.bytes
    cases hs : appendString d topic.bytes with
    | none =>
      rw [hs] at hstring
      have hfull : d.bufferLength.toNat < d.message.length + (2 + topic.bytes.length) := hstring
      exact topicSpec_failed ⟨⟨rfl, fun _ _ => rfl⟩, rfl⟩ (.inr (by omega))
    | some e =>
      rw [hs] at hstring
      have he : Grown d e (2 + topic.bytes.length) := hstring
      dsimp only
      rw [he.frame.bufferLength, he.length]
      split_ifs with hfull
      · exact topicSpec_failed he.frame.failed (.inr (by omega))
      · have hqos := append_grown e [qos]
          (by rw [he.frame.bufferLength, he.length]; exact Nat.not_lt.mp hfull)
        exact topicSpec_grown (he.trans hqos) (by omega) hnil

/-- A list of topics, by induction on the list. -/
theorem appendTopics_spec {τ : Type} (add : MqttConnection → τ → MqttConnection)
    (string : τ → List UInt8) (size : τ → Nat) (hsize : ∀ t, size t ≠ 0)
    (hadd : ∀ d t, TopicSpec d (add d t) (string t = []) (size t)) (topics : List τ)
    (d : MqttConnection) (hne : topics ≠ []) :
    TopicSpec d (appendTopics add d topics) (∃ t ∈ topics, string t = [])
      (topics.map size).sum := by
  induction topics generalizing d with
  | nil => exact absurd rfl hne
  | cons t ts ih =>
    have ht := hadd d t
    have hpos := hsize t
    rw [TopicSpec] at ht
    rw [appendTopics, List.map_cons, List.sum_cons]
    split_ifs at ht ⊢ with hzero
    · refine topicSpec_failed ⟨ht.1, hzero⟩ (ht.2.imp (fun h => ⟨t, List.mem_cons_self, h⟩) ?_)
      omega
    · obtain ⟨hgrown, hnil⟩ := ht
      by_cases hts : ts = []
      · subst hts
        rw [appendTopics, List.map_nil, List.sum_nil, Nat.add_zero]
        refine topicSpec_grown hgrown hpos ?_
        rintro ⟨t', hmem, hnil'⟩
        rw [List.mem_singleton.mp hmem] at hnil'
        exact hnil hnil'
      · have hrest := ih (add d t) hts
        rw [TopicSpec] at hrest
        split_ifs at hrest with hlast
        · refine topicSpec_failed ⟨hgrown.frame.trans hrest.1, hlast⟩ ?_
          obtain ⟨t', hmem, hnil'⟩ | hfull := hrest.2
          · exact .inl ⟨t', List.mem_cons_of_mem _ hmem, hnil'⟩
          · rw [hgrown.length, hgrown.frame.bufferLength] at hfull
            exact .inr (by omega)
        · refine topicSpec_grown (hgrown.trans hrest.1) (by omega) ?_
          rintro ⟨t', hmem, hnil'⟩
          obtain rfl | hmem := List.mem_cons.mp hmem
          · exact hnil hnil'
          · exact hrest.2 ⟨t', hmem, hnil'⟩

/-- A packet with topics behind an id. Where the id does not fit, a table goes on with an empty
message. -/
theorem topics_outcome {d r : MqttConnection} {empty : Prop} [Decidable empty] {n : Nat}
    (type : MqttMessageType) (hn : ¬empty → 3 ≤ n)
    (hinit : if d.message.length = 0 then Frame c d ∧ c.bufferLength.toNat < 3 + 2
      else Grown (initMessage c) d 2)
    (hr : TopicSpec d r empty n ∨ r = d ∧ d.message.length = 0) :
    Outcome c (if r.message.length ≠ 0 then finiMessage r type 0 1 0 else r)
      (if empty then none else some (2 + n)) := by
  have hsome : ∀ {k}, (if empty then none else some (2 + n)) = some k → ¬empty ∧ k = 2 + n := by
    intro k hk
    split_ifs at hk with h
    exact ⟨h, (Option.some.inj hk).symm⟩
  by_cases hzero : d.message.length = 0
  · rw [if_pos hzero] at hinit
    obtain ⟨hframe, hfull⟩ := hinit
    by_cases hlast : r.message.length = 0
    · have hrframe : Frame c r := by
        obtain hr | ⟨rfl, -⟩ := hr
        · rw [TopicSpec, if_pos hlast] at hr
          exact hframe.trans hr.1
        · exact hframe
      rw [if_neg (not_not.mpr hlast)]
      exact .failed ⟨hrframe, hlast⟩ fun k hk => by have := (hsome hk).2; omega
    · obtain hr | ⟨rfl, -⟩ := hr
      · rw [TopicSpec, if_neg hlast] at hr
        have hlength := hr.1.length
        have hfits := hr.1.fits
        rw [hframe.bufferLength] at hfits
        have hthree := hn hr.2
        rw [if_pos hlast]
        refine .built r type 0 1 0 (n - 3) (hframe.trans hr.1.frame) (by omega) hfits
          (.inr ⟨by omega, fun j hj => ?_⟩) rfl
        have := (hsome hj).2
        omega
      · exact absurd hzero hlast
  · rw [if_neg hzero] at hinit
    have hframe := (initMessage_frame c).trans hinit.frame
    have hfive : d.message.length = 3 + 2 := hinit.length
    obtain hr | ⟨-, h⟩ := hr
    · by_cases hlast : r.message.length = 0
      · rw [TopicSpec, if_pos hlast, hframe.bufferLength] at hr
        rw [if_neg (not_not.mpr hlast)]
        refine .failed ⟨hframe.trans hr.1, hlast⟩ fun k hk => ?_
        obtain ⟨hempty, rfl⟩ := hsome hk
        have hfull := hr.2.resolve_left hempty
        omega
      · rw [TopicSpec, if_neg hlast] at hr
        have hgrown := hinit.trans hr.1
        rw [if_pos hlast, if_neg hr.2]
        exact .built r type 0 1 0 (2 + n) ((initMessage_frame c).trans hgrown.frame) hgrown.length
          hgrown.fits (.inl rfl) rfl
    · exact absurd h hzero

theorem subscribeInit_spec :
    if (mqttMsgSubscribeInit c).1.message.length = 0 then
      Frame c (mqttMsgSubscribeInit c).1 ∧ c.bufferLength.toNat < 3 + 2
    else Grown (initMessage c) (mqttMsgSubscribeInit c).1 2 := by
  have hid := appendMessageId_spec (initMessage c) 0
  rw [mqttMsgSubscribeInit]
  by_cases hzero : (appendMessageId (initMessage c) 0).1 = 0
  · simp only [if_pos hzero] at hid ⊢
    exact (if_pos rfl).mpr ⟨((initMessage_frame c).trans hid.1).failed.frame, hid.2⟩
  · simp only [if_neg hzero] at hid ⊢
    rw [if_neg (by rw [hid.length]; omega)]
    exact hid

theorem subscribe_outcome (topic : CString) (qos : UInt8) :
    Outcome c (mqttMsgSubscribe c topic qos).1 (bodyLength (.subscribe topic qos)) := by
  refine topics_outcome .subscribe (fun _ => by omega) subscribeInit_spec ?_
  split_ifs with hzero
  · exact .inl (subscribeTopic_spec _ topic qos)
  · exact .inr ⟨rfl, not_not.mp hzero⟩

theorem bytes_pos {bs : List UInt8} (h : bs ≠ []) : 3 ≤ 2 + bs.length := by
  have := List.length_pos_iff.mpr h
  omega

theorem unsubscribe_outcome (topic : CString) :
    Outcome c (mqttMsgUnsubscribe c topic).1 (bodyLength (.unsubscribe topic)) := by
  refine topics_outcome .unsubscribe bytes_pos subscribeInit_spec ?_
  split_ifs with hzero
  · exact .inl (unsubscribeTopic_spec _ topic)
  · exact .inr ⟨rfl, not_not.mp hzero⟩

theorem subscribeTable_outcome (first : CString × UInt8) (topics : List (CString × UInt8)) :
    Outcome c (mqttSocketSubscribe c first topics) (bodyLength (.subscribeTable first topics)) := by
  have hspec := appendTopics_spec (fun c (t : CString × UInt8) => mqttMsgSubscribeTopic c t.1 t.2)
    (fun t => t.1.bytes) (fun t => 2 + t.1.bytes.length + 1) (fun _ => by omega)
    (fun d t => subscribeTopic_spec d t.1 t.2) (first :: topics) (mqttMsgSubscribeInit c).1
    (List.cons_ne_nil _ _)
  have h := topics_outcome .subscribe
    (fun _ => by rw [List.map_cons, List.sum_cons]; omega) subscribeInit_spec (.inl hspec)
  rw [ite_not] at h
  exact h

theorem unsubscribeTable_outcome (first : CString) (topics : List CString) :
    Outcome c (mqttSocketUnsubscribe c first topics)
      (bodyLength (.unsubscribeTable first topics)) := by
  have hspec := appendTopics_spec mqttMsgUnsubscribeTopic CString.bytes
    (fun t => 2 + t.bytes.length) (fun _ => by omega) unsubscribeTopic_spec (first :: topics)
    (mqttMsgUnsubscribeInit c).1 (List.cons_ne_nil _ _)
  have h := topics_outcome .unsubscribe (fun hne => by
    have hfirst := bytes_pos fun h => hne ⟨first, List.mem_cons_self, h⟩
    rw [List.map_cons, List.sum_cons]
    omega) subscribeInit_spec (.inl hspec)
  rw [ite_not] at h
  exact h

/-! ### The connection -/

/-- A part of the connection has been added, or it does not fit. -/
def PartSpec (d : MqttConnection) (x : Except MqttConnection MqttConnection) (n : Nat) : Prop :=
  match x with
  | .error r => Failed d r ∧ d.bufferLength.toNat < d.message.length + n
  | .ok r => Grown d r n

theorem PartSpec.bind {d : MqttConnection} {x : Except MqttConnection MqttConnection}
    {f : MqttConnection → Except MqttConnection MqttConnection} {m n : Nat} (hx : PartSpec d x m)
    (hf : ∀ e, Grown d e m → PartSpec e (f e) n) : PartSpec d (x >>= f) (m + n) := by
  cases x with
  | error r => exact ⟨hx.1, by have := hx.2; omega⟩
  | ok e =>
    have he : Grown d e m := hx
    have h := hf e he
    change PartSpec d (f e) (m + n)
    cases hfe : f e with
    | error r =>
      rw [hfe] at h
      have hfull := h.2
      rw [he.length, he.frame.bufferLength] at hfull
      exact ⟨⟨he.frame.trans h.1.frame, h.1.length⟩, by omega⟩
    | ok r =>
      rw [hfe] at h
      exact he.trans h

theorem orFlags_grown {d : MqttConnection} {e : MqttConnection} {n : Nat} (h : Grown d e n)
    (hten : 10 < d.bufferLength.toNat) (flags : UInt8) : Grown d (orFlags e flags) n :=
  ⟨h.frame.trans ⟨rfl, write_outside (by decide) (by
    rw [h.frame.bufferLength, List.length_singleton]
    omega)⟩, h.length, h.fits⟩

theorem appendOrFail_spec (d : MqttConnection) (s : List UInt8) :
    PartSpec d (appendOrFail d s) (2 + s.length) := by
  have hstring := appendString_spec d s
  rw [appendOrFail]
  cases hs : appendString d s with
  | none =>
    rw [hs] at hstring
    exact ⟨⟨⟨rfl, fun _ _ => rfl⟩, rfl⟩, hstring⟩
  | some e =>
    rw [hs] at hstring
    exact hstring

theorem grown_refl {d : MqttConnection} (h : d.message.length ≤ d.bufferLength.toNat) :
    Grown d d 0 := ⟨⟨rfl, fun _ _ => rfl⟩, rfl, h⟩

theorem appendPresent_spec {d : MqttConnection} (hten : 10 < d.bufferLength.toNat)
    (hfits : d.message.length ≤ d.bufferLength.toNat) (string : Option CString) (flag : UInt8) :
    PartSpec d (appendPresent d string flag) (presentLength string) := by
  rw [appendPresent, presentLength]
  cases present string with
  | none => exact grown_refl hfits
  | some s =>
    have hs := appendOrFail_spec d s
    dsimp only
    cases hx : appendOrFail d s with
    | error r =>
      rw [hx] at hs
      exact hs
    | ok e =>
      rw [hx] at hs
      exact orFlags_grown hs hten flag

theorem appendWill_spec {d : MqttConnection} (hten : 10 < d.bufferLength.toNat)
    (hfits : d.message.length ≤ d.bufferLength.toNat) (info : MqttConnectInfo) :
    PartSpec d (appendWill d info) (willLength info) := by
  rw [appendWill, willLength]
  cases present info.willTopic with
  | none => exact grown_refl hfits
  | some topic =>
    refine (appendOrFail_spec d topic).bind fun e he => ?_
    have hmessage := (appendOrFail_spec e info.willMessage.bytes).bind (n := 0)
      (f := fun c => .ok (orFlags (if info.willRetain then
        orFlags (orFlags c mqttConnectFlagWill) mqttConnectFlagWillRetain
          else orFlags c mqttConnectFlagWill) ((info.willQos &&& 3) <<< 3).toUInt8))
      fun g hg => ?_
    · exact hmessage
    · have hten' : 10 < g.bufferLength.toNat := by
        rw [hg.frame.bufferLength, he.frame.bufferLength]
        exact hten
      have hg0 : Grown g g 0 := grown_refl (by rw [hg.frame.bufferLength]; exact hg.fits)
      have hwill := orFlags_grown hg0 hten' mqttConnectFlagWill
      refine orFlags_grown ?_ hten' _
      split_ifs
      · exact orFlags_grown hwill hten' _
      · exact hwill

theorem connectStrings_spec {d : MqttConnection} (hten : 10 < d.bufferLength.toNat)
    {info : MqttConnectInfo} {id : List UInt8} (hid : present info.clientId = some id) :
    PartSpec d (connectStrings d info) (2 + id.length + (willLength info +
      (presentLength info.username + presentLength info.password))) := by
  rw [connectStrings, hid]
  refine (appendOrFail_spec d id).bind fun e he => ?_
  have hten' : 10 < e.bufferLength.toNat := by
    rw [he.frame.bufferLength]
    exact hten
  refine (appendWill_spec hten' (by rw [he.frame.bufferLength]; exact he.fits) info).bind
    fun f hf => ?_
  have hten'' : 10 < f.bufferLength.toNat := by
    rw [hf.frame.bufferLength]
    exact hten'
  refine (appendPresent_spec hten'' (by rw [hf.frame.bufferLength]; exact hf.fits) _ _).bind
    fun g hg => ?_
  refine appendPresent_spec ?_ (by rw [hg.frame.bufferLength]; exact hg.fits) _ _
  rw [hg.frame.bufferLength]
  exact hten''

theorem connect_outcome (info : MqttConnectInfo) :
    Outcome c (mqttMsgConnect c info) (bodyLength (.connect info)) := by
  have hinit := initMessage_frame c
  rw [mqttMsgConnect, bodyLength]
  by_cases hroom : (initMessage c).bufferLength.toNat < (initMessage c).message.length + 10
  · rw [if_pos hroom]
    refine .failed hinit.failed fun k hk => ?_
    have hroom : c.bufferLength.toNat < 3 + 10 := hroom
    split at hk
    · cases hk
    · cases hk
      omega
  rw [if_neg hroom]
  have hthirteen : 3 + 10 ≤ c.bufferLength.toNat := Nat.not_lt.mp hroom
  have hheader : Grown (initMessage c) (connectHeader (initMessage c) info) 10 := by
    have happend := append_grown (initMessage c) [0, 4, 0x4D, 0x51, 0x54, 0x54, 4, 0,
      (info.keepalive >>> 8).toUInt8, (info.keepalive &&& 0xff).toUInt8] hthirteen
    rw [connectHeader]
    split_ifs
    · exact orFlags_grown happend (by change 10 < c.bufferLength.toNat; omega) _
    · exact happend
  have hframe := hinit.trans hheader.frame
  cases hid : present info.clientId with
  | none =>
    rw [connectStrings, hid]
    exact refused hframe.failed
  | some id =>
    have hstrings := connectStrings_spec (d := connectHeader (initMessage c) info)
      (by rw [hframe.bufferLength]; omega) hid
    dsimp only
    cases hx : connectStrings (connectHeader (initMessage c) info) info with
    | error r =>
      rw [hx] at hstrings
      have hfull := hstrings.2
      rw [hheader.length, hframe.bufferLength] at hfull
      have hfull : c.bufferLength.toNat < 3 + 10 + (2 + id.length + (willLength info +
        (presentLength info.username + presentLength info.password))) := hfull
      refine .failed ⟨hframe.trans hstrings.1.frame, hstrings.1.length⟩ fun k hk => ?_
      cases hk
      omega
    | ok r =>
      rw [hx] at hstrings
      have hgrown := hheader.trans hstrings
      have hlength : r.message.length = 3 + (10 + (2 + id.length + (willLength info +
        (presentLength info.username + presentLength info.password)))) := hgrown.length
      exact .built r .connect 0 0 0 _ (hinit.trans hgrown.frame) hlength hgrown.fits
        (.inl (congrArg some (by omega))) rfl

/-- Every builder fails or finishes the message that was asked for. -/
theorem build_outcome (hbuffer : 3 ≤ c.bufferLength.toNat) (b : Builder) :
    Outcome c (build c b) (bodyLength b) := by
  cases b with
  | connect info => exact connect_outcome info
  | publish topic data qos retain messageId =>
    exact publish_outcome topic data qos retain messageId
  | puback messageId => exact acknowledgement_outcome .puback 0 messageId
  | pubrec messageId => exact acknowledgement_outcome .pubrec 0 messageId
  | pubrel messageId => exact acknowledgement_outcome .pubrel 1 messageId
  | pubcomp messageId => exact acknowledgement_outcome .pubcomp 0 messageId
  | subscribe topic qos => exact subscribe_outcome topic qos
  | unsubscribe topic => exact unsubscribe_outcome topic
  | subscribeTable first topics => exact subscribeTable_outcome first topics
  | unsubscribeTable first topics => exact unsubscribeTable_outcome first topics
  | pingreq => exact bare_outcome hbuffer .pingreq
  | pingresp => exact bare_outcome hbuffer .pingresp
  | disconnect => exact bare_outcome hbuffer .disconnect

end Outcomes

/-- A message is sound exactly where its remaining length has at most 14 bits, or it does not fit
the buffer, or its arguments are refused. -/
theorem build_sound_iff (c : MqttConnection) (hbuffer : 3 ≤ c.bufferLength.toNat) (b : Builder) :
    Sound c (build c b) ↔ Short c (bodyLength b) :=
  sound_iff hbuffer (build_outcome hbuffer b)

theorem letter_noNul : (0 : UInt8) ∉ [0x61] := by decide

def letter : CString := ⟨[0x61], letter_noNul⟩

theorem publish_sound : Sound firstConnection
    (build firstConnection (.publish (some letter) [0x62] 1 0 0)) :=
  (build_sound_iff firstConnection (by decide) _).mpr fun k hk => by
    cases hk
    exact .inl (by decide)

/-- A connection with a buffer that is larger than the client's. -/
def largeConnection : MqttConnection := { firstConnection with bufferLength := 20000 }

/-- With 16384 bytes behind the fixed header the length is not read back. -/
theorem publish_not_sound : ¬Sound largeConnection
    (build largeConnection (.publish (some letter) (List.replicate 16381 0x62) 0 0 0)) := by
  have hlength : ∀ data : List UInt8, bodyLength (.publish (some letter) data 0 0 0) =
      some (2 + 1 + 0 + data.length) := fun _ => rfl
  have houtcome := build_outcome (c := largeConnection) (by decide)
    (.publish (some letter) (List.replicate 16381 0x62) 0 0 0)
  rw [sound_iff (by decide) houtcome, hlength, List.length_replicate]
  intro h
  obtain h | h := h (2 + 1 + 0 + 16381) rfl
  · exact absurd h (by decide)
  · exact absurd h (by decide)

end NodeMcu.Mqtt.Builders
