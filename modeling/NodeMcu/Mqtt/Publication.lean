import NodeMcu.Mqtt.Readers

namespace NodeMcu.Mqtt.Publication

open NodeMcu.Lib.Memory NodeMcu.Lib.Reading NodeMcu.Mqtt.Msg NodeMcu.Mqtt.Readers

/-! ## What a publication looks like -/

/-- What follows the fixed header. -/
def body (topic data : List UInt8) (qos : Nat) (id : UInt16) : List UInt8 :=
  bigEndian 2 topic.length ++ topic ++ (if 0 < qos then bigEndian 2 id.toNat else []) ++ data

def remainingLength (topic data : List UInt8) (qos : Nat) : Nat :=
  2 + topic.length + (if 0 < qos then 2 else 0) + data.length

theorem body_length (topic data : List UInt8) (qos : Nat) (id : UInt16) :
    (body topic data qos id).length = remainingLength topic data qos := by
  by_cases hq : 0 < qos <;> simp [body, remainingLength, hq, Nat.add_assoc]

/-- A message with `bs` behind a fixed header of `h` bytes. -/
structure Packet (buffer : Mem) (length h : Nat) (first : UInt8) (bs : List UInt8) : Prop where
  length_eq : length = h + bs.length
  first_eq : buffer 0 = first
  rest : read buffer h bs.length = bs

section Fini

variable (d : MqttConnection) (m : Mem) (bs : List UInt8) (type : MqttMessageType)
  (dup qos retain : Nat) (hl : d.message.length = 3 + bs.length) (hb : d.buffer = write m 3 bs)

include hl hb

theorem finiMessage_short (h : bs.length ≤ 127) :
    Packet (after (finiMessage d type dup qos retain).message.data
        (finiMessage d type dup qos retain).buffer)
      (finiMessage d type dup qos retain).message.length 2 (fixedHeader type dup qos retain) bs ∧
    (after (finiMessage d type dup qos retain).message.data
      (finiMessage d type dup qos retain).buffer 1).toNat = bs.length := by
  have hr : d.message.length - maxFixedHeaderSize = bs.length := by
    rw [hl, maxFixedHeaderSize]
    omega
  have hc : ¬127 < bs.length := by omega
  simp only [finiMessage, hr, if_neg hc, hb]
  refine ⟨⟨by omega, ?_, ?_⟩, ?_⟩
  · exact write_at _ 1 _ 0 (by simp)
  · rw [read_after]
    refine Eq.trans (read_congr _ _ _ _ fun k _ => ?_) (read_write m 3 bs)
    exact write_of_ge _ _ _ _ (by simp)
  · have h1 := write_at (write m 3 bs) 1
      [fixedHeader type dup qos retain, UInt8.ofNat bs.length] 1 (by simp)
    simp only [after]
    rw [show (1 + 1 : Int) = 1 + (1 : Nat) from rfl, h1]
    simp only [List.getD_cons_succ, List.getD_cons_zero, UInt8.toNat_ofNat']
    omega

theorem finiMessage_long (h : 127 < bs.length) :
    Packet (after (finiMessage d type dup qos retain).message.data
        (finiMessage d type dup qos retain).buffer)
      (finiMessage d type dup qos retain).message.length 3 (fixedHeader type dup qos retain) bs ∧
    (after (finiMessage d type dup qos retain).message.data
      (finiMessage d type dup qos retain).buffer 1).toNat = 128 + bs.length % 128 ∧
    (after (finiMessage d type dup qos retain).message.data
      (finiMessage d type dup qos retain).buffer 2).toNat = bs.length / 128 % 256 := by
  have hr : d.message.length - maxFixedHeaderSize = bs.length := by
    rw [hl, maxFixedHeaderSize]
    omega
  have hw := write_at (write m 3 bs) 0 [fixedHeader type dup qos retain,
    UInt8.ofNat (0x80 ||| bs.length % 128), UInt8.ofNat (bs.length / 128)]
  simp only [finiMessage, hr, if_pos h, hb]
  refine ⟨⟨by omega, ?_, ?_⟩, ?_, ?_⟩
  · exact hw 0 (by simp)
  · rw [read_after]
    refine Eq.trans (read_congr _ _ _ _ fun k _ => ?_) (read_write m 3 bs)
    simp only [Int.zero_add]
    exact write_of_ge _ _ _ _ (by simp)
  · have h1 := hw 1 (by simp)
    simp only [after]
    rw [show (0 + 1 : Int) = 0 + (1 : Nat) from rfl, h1]
    exact or_80 bs.length
  · have h2 := hw 2 (by simp)
    simp only [after]
    rw [show (0 + 2 : Int) = 0 + (2 : Nat) from rfl, h2]
    simp

end Fini

theorem appendMessageId_zero (c : MqttConnection) (h : (appendMessageId c 0).1 ≠ 0) :
    c.message.length + 2 ≤ c.bufferLength.toNat ∧ ∃ id : UInt16, id ≠ 0 ∧
      appendMessageId c 0 = (id, append { c with messageId := id } (bigEndian 2 id.toNat)) := by
  by_cases hf : c.bufferLength.toNat < c.message.length + 2
  · simp [appendMessageId, hf] at h
  · exact ⟨by omega, nextMessageId c.messageId, nextMessageId_ne c.messageId,
      by simp [appendMessageId, hf]⟩

theorem append_append (c : MqttConnection) (as bs : List UInt8) :
    append (append c as) bs = append c (as ++ bs) := by
  simp only [append, List.length_append, Nat.add_assoc, Nat.cast_add, write_append]

theorem append_nil (c : MqttConnection) : append c [] = c := by
  simp only [append, List.length_nil, Nat.add_zero, write_nil]

theorem appendId (c : MqttConnection) (qos : Nat)
    (h : ¬(0 < qos ∧ (if 0 < qos then appendMessageId c 0 else (0, c)).1 = 0)) :
    ∃ id n, (if 0 < qos then appendMessageId c 0 else (0, c)) =
        (id, append { c with messageId := n } (if 0 < qos then bigEndian 2 id.toNat else [])) ∧
      (0 < qos → id ≠ 0) := by
  by_cases hq : 0 < qos
  · simp only [hq, if_true, true_and] at h ⊢
    obtain ⟨-, id, hid, he⟩ := appendMessageId_zero c h
    exact ⟨id, id, he, fun _ => hid⟩
  · simp only [hq, if_false]
    exact ⟨0, c.messageId, by rw [append_nil], fun h => h.elim⟩

/-- A publication that is not empty is its topic, its id and its data behind a fixed header. -/
theorem mqttMsgPublish_body (c : MqttConnection) (topic : CString) (data : List UInt8)
    (qos retain : Nat) (messageId : UInt16)
    (h : (mqttMsgPublish c (some topic) data qos retain messageId).1.message.length ≠ 0) :
    ∃ d id m, mqttMsgPublish c (some topic) data qos retain messageId =
        (finiMessage d .publish 0 qos retain, id) ∧
      d.message.length = 3 + (body topic.bytes data qos id).length ∧
      d.buffer = write m 3 (body topic.bytes data qos id) ∧ (0 < qos → id ≠ 0) ∧
      3 + (body topic.bytes data qos id).length < 65536 := by
  have hlt := c.bufferLength.toNat_lt
  set c' := initMessage c with hc
  have hb : c'.bufferLength = c.bufferLength := rfl
  have hm : c'.message.length = 3 := rfl
  by_cases ht : topic.bytes = []
  · simp [mqttMsgPublish, ht, failMessage] at h
  by_cases hs : c.bufferLength.toNat < 3 + topic.bytes.length + 2
  · have hn : appendString c' topic.bytes = none := by
      rw [appendString, hb, hm, if_pos hs]
    simp [mqttMsgPublish, ht, ← hc, hn, failMessage] at h
  have hn : appendString c' topic.bytes =
      some (append c' (bigEndian 2 topic.bytes.length ++ topic.bytes)) := by
    rw [appendString, hb, hm, if_neg hs, append_append]
  simp only [mqttMsgPublish, ht, if_false, ← hc, hn] at h ⊢
  set c'' := append c' (bigEndian 2 topic.bytes.length ++ topic.bytes) with hc''
  by_cases hi : 0 < qos ∧ (if 0 < qos then appendMessageId c'' 0 else (0, c'')).1 = 0
  · simp only [if_pos hi] at h
    simp [failMessage] at h
  obtain ⟨id, n, he, hid⟩ := appendId c'' qos hi
  have hi' : ¬(0 < qos ∧ id = 0) := fun hx => hid hx.1 hx.2
  simp only [he, if_neg hi'] at h ⊢
  set bs := if 0 < qos then bigEndian 2 id.toNat else [] with hbs
  set g := append { c'' with messageId := n } bs with hg
  have hx : (append g data).message.length = g.message.length + data.length := rfl
  have hbl : c''.bufferLength = c.bufferLength := rfl
  by_cases hd : c''.bufferLength.toNat < g.message.length + data.length
  · simp only [if_pos hd] at h
    simp [failMessage] at h
  have hl : (append g data).message.length = 3 + (body topic.bytes data qos id).length := by
    simp only [hg, append_append]
    simp [append, hc'', hm, body, ← hbs, Nat.add_assoc]
  rw [if_neg hd]
  rw [hbl] at hd
  refine ⟨append g data, id, c.buffer, rfl, hl, ?_, hid, by rw [← hl, hx]; omega⟩
  have hw := write_append c.buffer 3 (bigEndian 2 topic.bytes.length ++ topic.bytes) (bs ++ data)
  simp only [hg, append_append]
  simp only [append, hc'', hm, Nat.cast_add, body, ← hbs]
  rw [List.append_assoc _ bs data, ← hw]
  rfl

/-- The four readers give back what was written. -/
structure RoundTrip (wide : Nat → Nat → Int) (buffer : Mem) (length : Nat)
    (topic data : List UInt8) (qos : Nat) (id : UInt16) : Prop where
  totalLength : (mqttGetTotalLength wide buffer length).val = length
  topic : ∃ p : Nat, (mqttGetPublishTopic wide buffer length).val = (some p, topic.length) ∧
    read buffer p topic.length = topic
  dataLength : (mqttGetPublishData wide buffer length).val.2 = data.length
  data : data ≠ [] → ∃ p : Nat, (mqttGetPublishData wide buffer length).val.1 = some p ∧
    read buffer p data.length = data
  id : 0 < qos → (mqttGetId wide buffer length).val = id.toNat

/-- Where the pieces of a publication lie in the buffer, with its data from `k` on. -/
structure Pieces (buffer : Mem) (length h : Nat) (topic data : List UInt8) (qos : Nat)
    (id : UInt16) (k : Nat) : Prop where
  start : k = h + 2 + topic.length + (if 0 < qos then 2 else 0)
  lgth : length = k + data.length
  topicLgth : ofBigEndian (read buffer h 2) = topic.length
  topicBytes : read buffer ((h + 2 : Nat) : Int) topic.length = topic
  idBytes : 0 < qos →
    ofBigEndian (read buffer ((h + 2 + topic.length : Nat) : Int) 2) = id.toNat
  dataBytes : read buffer k data.length = data

section Packet

variable (wide : Nat → Nat → Int) {buffer : Mem} {length h qos retain : Nat}
  {topic data : List UInt8} {id : UInt16}
  (hp : Packet buffer length h (fixedHeader .publish 0 qos retain) (body topic data qos id))
  (hq : qos < 4) (hid : 0 < qos → id ≠ 0) (hlt : length < 65536)

include hp hq hid hlt

/-- Readers that agree on the lengths have found the end of the fixed header. -/
theorem header_of_roundTrip (hr : RoundTrip wide buffer length topic data qos id) :
    (header wide buffer length).val = (h, (length : Int)) := by
  obtain ⟨i, totlen, he⟩ : ∃ i totlen, (header wide buffer length).val = (i, totlen) := ⟨_, _, rfl⟩
  have hqos := mqttGetQos_fixedHeader buffer .publish 0 qos retain hq hp.first_eq
  have htype := mqttGetType_fixedHeader buffer .publish 0 qos retain hp.first_eq
  have hlen : length = h + remainingLength topic data qos := by
    rw [hp.length_eq, body_length]
  have htot : totlen = length := by
    have := hr.totalLength
    rwa [mqttGetTotalLength_val, he] at this
  obtain ⟨p, htopic, -⟩ := hr.topic
  rw [mqttGetPublishTopic_val wide buffer length i totlen he] at htopic
  have hdata := hr.dataLength
  rw [mqttGetPublishData_val wide buffer length i totlen qos he hqos] at hdata
  by_cases h1 : length ≤ i + 2
  · simp [h1] at htopic
  by_cases h3 : length < i + 2 + ofBigEndian (read buffer i 2)
  · simp [h1, h3] at htopic
  have htl : ofBigEndian (read buffer i 2) = topic.length := by
    simp only [h1, h3, if_false, Prod.mk.injEq] at htopic
    exact htopic.2
  rw [htl] at h3 hdata
  rw [he, htot]
  rw [remainingLength] at hlen
  simp only [h1, if_false] at hdata
  refine Prod.ext ?_ rfl
  show i = h
  by_cases h4 : length ≤ i + 2 + topic.length
  · -- the data is empty; with an id in front of it the reader of the id would have failed
    simp only [h4, if_true] at hdata
    by_cases h0 : 0 < qos
    · have hi := hr.id h0
      rw [mqttGetId_val wide buffer length i totlen qos (by omega) htype he hqos, htl] at hi
      simp only [h1, h4, if_true, if_false] at hi
      exact (hid h0 (UInt16.toNat_inj.mp hi.symm)).elim
    · simp only [h0, if_false] at hlen
      omega
  · simp only [h4, if_false] at hdata
    by_cases h5 : 0 < qos ∧ length ≤ i + 2 + topic.length + 2
    · simp only [h5, and_self, if_true] at hdata
      omega
    · have hk : i + 2 + topic.length + (if 0 < qos then 2 else 0) ≤ length := by
        split <;> omega
      have h6 : ¬((length : Int) <
          (i + 2 + topic.length + (if 0 < qos then 2 else 0) : Nat)) := by omega
      simp only [h5, if_false, htot, h6, le_refl, if_true] at hdata
      omega

omit hq hid in
theorem pieces : ∃ k, Pieces buffer length h topic data qos id k := by
  have hlen : length = h + remainingLength topic data qos := by
    rw [hp.length_eq, body_length]
  rw [remainingLength] at hlen
  obtain ⟨hrest, hdata⟩ := (read_append _ _ _ _).mp hp.rest
  obtain ⟨hrest, hidb⟩ := (read_append _ _ _ _).mp hrest
  obtain ⟨htl, htopic⟩ := (read_append _ _ _ _).mp hrest
  simp only [bigEndian_length, List.length_append] at htl htopic hidb hdata
  have hk : (if 0 < qos then bigEndian 2 id.toNat else []).length = if 0 < qos then 2 else 0 := by
    split <;> simp
  rw [hk] at hdata
  refine ⟨_, rfl, by omega, ?_, htopic, ?_, ?_⟩
  · rw [htl, ofBigEndian_bigEndian]
    exact Nat.mod_eq_of_lt (by omega)
  · intro h0
    simp only [h0, if_true, bigEndian_length] at hidb
    rw [show ((h + 2 + topic.length : Nat) : Int) = h + (2 + topic.length : Nat) by
      push_cast; ring, hidb, ofBigEndian_bigEndian]
    exact Nat.mod_eq_of_lt id.toNat_lt
  · refine Eq.trans ?_ hdata
    congr 1
    push_cast
    ring

section Header

variable (hne : topic ≠ []) (he : (header wide buffer length).val = (h, (length : Int))) {k : Nat}
  (hk : Pieces buffer length h topic data qos id k)

include hne he hk

omit hp hq hid hlt in
theorem publishTopic_val :
    (mqttGetPublishTopic wide buffer length).val = (some (h + 2), topic.length) := by
  have hpos := List.length_pos_iff.mpr hne
  have hstart := hk.start
  have hlength := hk.lgth
  have h1 : ¬length ≤ h + 2 := by omega
  have h2 : ¬length < h + 2 + topic.length := by omega
  rw [mqttGetPublishTopic_val wide buffer length h length he, if_neg h1, hk.topicLgth, if_neg h2]

omit hid hlt in
/-- The data is found unless it is empty. -/
theorem publishData_val (hc : qos = 0 ∨ data ≠ []) :
    (mqttGetPublishData wide buffer length).val =
      if data = [] then (none, 0) else (some k, data.length) := by
  have hqos := mqttGetQos_fixedHeader buffer .publish 0 qos retain hq hp.first_eq
  have hpos := List.length_pos_iff.mpr hne
  have hstart := hk.start
  have hlength := hk.lgth
  have h1 : ¬length ≤ h + 2 := by omega
  rw [mqttGetPublishData_val wide buffer length h length qos he hqos, if_neg h1, hk.topicLgth]
  by_cases hd : data = []
  · have h0 : qos = 0 := hc.resolve_right (not_not.mpr hd)
    rw [hd, List.length_nil] at hlength
    simp only [h0, Nat.lt_irrefl, if_false] at hstart
    rw [if_pos hd, if_pos (by omega)]
  · have hdpos := List.length_pos_iff.mpr hd
    have h3 : ¬length ≤ h + 2 + topic.length := by omega
    have h4 : ¬(0 < qos ∧ length ≤ h + 2 + topic.length + 2) := by
      rintro ⟨h0, h4⟩
      simp only [h0, if_true] at hstart
      omega
    have h5 : ¬(length : Int) < k := by omega
    have hsub : ((length : Int) - k).toNat = data.length := by omega
    rw [if_neg hd, if_neg h3, if_neg h4, ← hstart, if_neg h5, if_pos (le_refl _), hsub]

omit hq hlt in
/-- The id is found unless nothing stands behind it. -/
theorem id_val (hpos : 0 < qos) (hq : qos < 4) :
    (mqttGetId wide buffer length).val = id.toNat ↔ data ≠ [] := by
  have hqos := mqttGetQos_fixedHeader buffer .publish 0 qos retain hq hp.first_eq
  have htype := mqttGetType_fixedHeader buffer .publish 0 qos retain hp.first_eq
  have htopic := List.length_pos_iff.mpr hne
  have hstart := hk.start
  have hlength := hk.lgth
  simp only [hpos, if_true] at hstart
  have h1 : ¬length ≤ h + 2 := by omega
  have h2 : ¬length ≤ h + 2 + topic.length := by omega
  rw [mqttGetId_val wide buffer length h length qos (by omega) htype he hqos, hk.topicLgth,
    if_neg h1, if_neg h2, if_pos hpos]
  by_cases hd : data = []
  · rw [hd, List.length_nil] at hlength
    rw [if_pos (by omega)]
    exact iff_of_false (fun hi => hid hpos (UInt16.toNat_inj.mp hi.symm)) (not_not.mpr hd)
  · have hdpos := List.length_pos_iff.mpr hd
    rw [if_neg (by omega), hk.idBytes hpos]
    exact iff_of_true rfl hd

end Header

/-- Readers that know the end of the fixed header find all that was written, unless there is
an id and nothing behind it. -/
theorem roundTrip_iff_of_header (hne : topic ≠ [])
    (he : (header wide buffer length).val = (h, (length : Int))) :
    RoundTrip wide buffer length topic data qos id ↔ qos = 0 ∨ data ≠ [] := by
  obtain ⟨k, hk⟩ := pieces hp hlt
  constructor
  · intro hr
    by_cases h0 : qos = 0
    · exact .inl h0
    · have hpos : 0 < qos := by omega
      exact .inr ((id_val wide hp hid hne he hk hpos hq).mp (hr.id hpos))
  · intro hc
    have hdata := publishData_val wide hp hq hne he hk hc
    refine ⟨by rw [mqttGetTotalLength_val, he],
      ⟨_, publishTopic_val wide hne he hk, hk.topicBytes⟩, ?_, ?_, ?_⟩
    · rw [hdata]
      by_cases hd : data = []
      · rw [if_pos hd, hd]
        rfl
      · rw [if_neg hd]
    · intro hd
      exact ⟨k, by rw [hdata, if_neg hd], hk.dataBytes⟩
    · intro hpos
      exact (id_val wide hp hid hne he hk hpos hq).mpr (hc.resolve_left (by omega))

end Packet

/-- What was published is read back exactly when no id stands in front of nothing and the
remaining length takes at most two bytes. -/
theorem mqttMsgPublish_roundTrip (wide : Nat → Nat → Int) (c : MqttConnection) (topic : CString)
    (data : List UInt8) (qos retain : Nat) (messageId : UInt16) (hq : qos ≤ 2)
    (hm : (mqttMsgPublish c (some topic) data qos retain messageId).1.message.length ≠ 0) :
    RoundTrip wide
        (after (mqttMsgPublish c (some topic) data qos retain messageId).1.message.data
          (mqttMsgPublish c (some topic) data qos retain messageId).1.buffer)
        (mqttMsgPublish c (some topic) data qos retain messageId).1.message.length
        topic.bytes data qos (mqttMsgPublish c (some topic) data qos retain messageId).2 ↔
      (qos = 0 ∨ data ≠ []) ∧ remainingLength topic.bytes data qos ≤ 16383 := by
  have hne : topic.bytes ≠ [] := by
    intro h
    simp [mqttMsgPublish, h, failMessage] at hm
  obtain ⟨d, id, m, he, hl, hb, hid, hlt⟩ :=
    mqttMsgPublish_body c topic data qos retain messageId hm
  rw [he]
  have hbody := body_length topic.bytes data qos id
  by_cases hs : (body topic.bytes data qos id).length ≤ 127
  · obtain ⟨hp, h1⟩ := finiMessage_short d m _ .publish 0 qos retain hl hb hs
    have hh := header_one wide _ (finiMessage d .publish 0 qos retain).message.length
      (by rw [hp.length_eq]; omega) (by rw [h1]; omega)
    rw [h1] at hh
    rw [roundTrip_iff_of_header wide hp (by omega) hid (by rw [hp.length_eq]; omega) hne
      (by rw [hh, hp.length_eq]; push_cast; rw [Int.add_comm])]
    constructor
    · intro h
      exact ⟨h, by omega⟩
    · exact And.left
  · obtain ⟨hp, h1, h2⟩ := finiMessage_long d m _ .publish 0 qos retain hl hb (by omega)
    have hh := header_two wide _ (finiMessage d .publish 0 qos retain).message.length
      (by rw [hp.length_eq]; omega) (by rw [h1]; omega)
    have hlen : (finiMessage d .publish 0 qos retain).message.length < 65536 := by
      rw [hp.length_eq]
      omega
    rw [h1, h2] at hh
    by_cases hr : remainingLength topic.bytes data qos ≤ 16383
    · rw [if_pos (by omega)] at hh
      rw [roundTrip_iff_of_header wide hp (by omega) hid hlen hne
        (by rw [hh, hp.length_eq]; congr 2; omega)]
      constructor
      · intro h
        exact ⟨h, hr⟩
      · exact And.left
    · constructor
      · intro h
        have hx := header_of_roundTrip wide hp (by omega) hid hlen h
        rw [hx] at hh
        have hl2 := hp.length_eq
        split at hh
        · -- the second byte of the length has lost its high bits
          have := congrArg Prod.snd hh
          simp only at this
          omega
        · exact (Nat.lt_irrefl 3 (hh (by omega))).elim
      · intro h
        exact (hr h.2).elim

theorem mqttMsgPublish_roundTrip_t :
    RoundTrip (fun _ _ => 0)
      (after (mqttMsgPublish firstConnection (some ⟨[116], by decide⟩) [7] 1 0 0).1.message.data
        (mqttMsgPublish firstConnection (some ⟨[116], by decide⟩) [7] 1 0 0).1.buffer)
      (mqttMsgPublish firstConnection (some ⟨[116], by decide⟩) [7] 1 0 0).1.message.length
      [116] [7] 1 (mqttMsgPublish firstConnection (some ⟨[116], by decide⟩) [7] 1 0 0).2 :=
  (mqttMsgPublish_roundTrip (fun _ _ => 0) firstConnection ⟨[116], by decide⟩ [7] 1 0 0
    (by decide) (by decide)).mpr ⟨.inr (by decide), by decide⟩

/-- An empty payload after an id: the reader of the id finds 0 where 1 was written. -/
theorem emptyPayload_not_roundTrip :
    (mqttMsgPublish firstConnection (some ⟨[116], by decide⟩) [] 1 0 0).1.message.length ≠ 0 ∧
      ¬RoundTrip (fun _ _ => 0)
        (after (mqttMsgPublish firstConnection (some ⟨[116], by decide⟩) [] 1 0 0).1.message.data
          (mqttMsgPublish firstConnection (some ⟨[116], by decide⟩) [] 1 0 0).1.buffer)
        (mqttMsgPublish firstConnection (some ⟨[116], by decide⟩) [] 1 0 0).1.message.length
        [116] [] 1 (mqttMsgPublish firstConnection (some ⟨[116], by decide⟩) [] 1 0 0).2 := by
  refine ⟨by decide, fun h => ?_⟩
  have hid := h.id (by decide)
  have h0 : (mqttGetId (fun _ _ => 0)
      (after (mqttMsgPublish firstConnection (some ⟨[116], by decide⟩) [] 1 0 0).1.message.data
        (mqttMsgPublish firstConnection (some ⟨[116], by decide⟩) [] 1 0 0).1.buffer)
      (mqttMsgPublish firstConnection (some ⟨[116], by decide⟩) [] 1 0 0).1.message.length).val
        = 0 := by decide
  rw [h0] at hid
  exact absurd hid (by decide)

end NodeMcu.Mqtt.Publication
