import NodeMcu.Mqtt.Client
import NodeMcu.Mqtt.Readers

namespace NodeMcu.Mqtt.SegmentSafety

open NodeMcu.Lib.Memory NodeMcu.Lib.Reading
open NodeMcu.Mqtt.Msg NodeMcu.Mqtt.Readers NodeMcu.Mqtt.Client

/-! ## What the readers read -/

section Readers

variable (wide : Nat → Nat → Int) (b : Mem)

theorem within_lengthLoop (n k i : Nat) (totlen : Int) :
    Within n (lengthLoop wide b k i totlen) ↔
      k = 0 ∨ (lengthLoop wide b k i totlen).val.1 ≤ n := by
  induction k generalizing i totlen with
  | zero => simp [lengthLoop]
  | succ k ih =>
    have hend := lengthLoop_pos wide b k i totlen
    have hw : Within n (lengthLoop wide b (k + 1) i totlen) ↔
        i < n ∧ ((b i).toNat < 128 ∨ Within n (lengthLoop wide b k (i + 1)
          (int32 (totlen + shiftLeft wide ((b i).toNat % 128) (7 * (i - 1)))))) := by
      simp only [lengthLoop, within_bind, within_byte, within_ite, and_80, and_7f, within_pure]
      by_cases h : (b i).toNat < 128 <;> simp [h]
    rw [hw, ih]
    rw [lengthLoop_succ] at hend ⊢
    by_cases h : (b i).toNat < 128
    · simp only [h, if_true, true_or, and_true, Nat.succ_ne_zero, false_or]
      omega
    · simp only [h, if_false, false_or, Nat.succ_ne_zero] at hend ⊢
      constructor
      · rintro ⟨hi, rfl | hn⟩
        · exact hi
        · exact hn
      · intro hn
        exact ⟨by omega, .inr hn⟩

/-- A loop that ends within fewer rounds ends there with fewer rounds, too. -/
theorem lengthLoop_shorter (k k' i : Nat) (totlen : Int) (hk : k' ≤ k)
    (h : (lengthLoop wide b k i totlen).val.1 ≤ i + k') :
    (lengthLoop wide b k' i totlen).val = (lengthLoop wide b k i totlen).val := by
  induction k' generalizing k i totlen with
  | zero =>
    cases k with
    | zero => rfl
    | succ k =>
      have := lengthLoop_pos wide b k i totlen
      omega
  | succ k' ih =>
    obtain ⟨j, rfl⟩ : ∃ j, k = j + 1 := ⟨k - 1, by omega⟩
    rw [lengthLoop_succ] at h ⊢
    rw [lengthLoop_succ]
    split
    · rfl
    · rename_i hc
      rw [if_neg hc] at h
      exact ih j (i + 1) _ (by omega) (by omega)

theorem header_end (m : Nat) :
    1 ≤ (header wide b m).val.1 ∧ (header wide b m).val.1 ≤ max 1 m := by
  have h := lengthLoop_end wide b (m - 1) 1 0
  simp only [header, bind_val, pure_val]
  omega

theorem within_header (n m : Nat) :
    Within n (header wide b m) ↔ m ≤ 1 ∨ (header wide b m).val.1 ≤ n := by
  have h := within_lengthLoop wide b n (m - 1) 1 0
  simp only [header, within_bind, within_pure, and_true, h, bind_val, pure_val]
  omega

theorem within_header_self (l : Nat) : Within l (header wide b l) := by
  have h := header_end wide b l
  rw [within_header]
  omega

/-- A header that ends inside the segment is the same for the length of the segment. -/
theorem header_shorter (l m : Nat) (hl : 0 < l) (hm : l ≤ m) (h : (header wide b m).val.1 ≤ l) :
    (header wide b l).val = (header wide b m).val := by
  have he : (header wide b m).val.1 = (lengthLoop wide b (m - 1) 1 0).val.1 := rfl
  have hs := lengthLoop_shorter wide b (m - 1) (l - 1) 1 0 (by omega) (by omega)
  simp only [header, bind_val, pure_val, hs]

theorem within_type (n : Nat) : Within n (mqttGetType b) ↔ 0 < n := by
  simp only [mqttGetType, within_bind, within_byte, within_pure, and_true]

theorem within_qos (n : Nat) : Within n (mqttGetQos b) ↔ 0 < n := by
  simp only [mqttGetQos, within_bind, within_byte, within_pure, and_true]

/-- The bytes up to the length of the topic are inside, or are not read. -/
def TopicLengthInside (l m : Nat) : Prop :=
  (m ≤ 1 ∨ (header wide b m).val.1 ≤ l) ∧ (m ≤ topicBegin wide b m ∨ topicBegin wide b m ≤ l)

theorem within_topic (l m : Nat) :
    Within l (mqttGetPublishTopic wide b m) ↔ TopicLengthInside wide b l m := by
  simp only [mqttGetPublishTopic, within_bind, within_header, within_ite, within_pure, within_word,
    ite_self, and_true, TopicLengthInside, topicBegin]
  by_cases h : m ≤ (header wide b m).val.1 + 2
  · simp [h]
  · simp only [h, if_false, false_or]
    exact and_congr_right fun _ => by omega

theorem within_data (l m : Nat) (hl : 0 < l) :
    Within l (mqttGetPublishData wide b m) ↔ TopicLengthInside wide b l m := by
  simp only [mqttGetPublishData, within_bind, within_header, within_ite, within_pure, within_word,
    within_qos, ite_self, hl, and_true, TopicLengthInside, topicBegin]
  by_cases h : m ≤ (header wide b m).val.1 + 2
  · simp [h]
  · simp only [h, if_false, false_or]
    exact and_congr_right fun _ => by omega

theorem within_id_publish (l m : Nat) (hl : 0 < l) (ht : (mqttGetType b).val = some .publish) :
    Within l (mqttGetId wide b m) ↔ m = 0 ∨ (TopicLengthInside wide b l m ∧
      (topicBegin wide b m < m → 0 < (mqttGetQos b).val → topicEnd wide b m + 2 < m →
        topicEnd wide b m + 2 ≤ l)) := by
  by_cases h0 : m = 0
  · simp [mqttGetId, h0]
  have h1 : ¬m < 1 := by omega
  simp only [mqttGetId, within_bind, within_header, within_ite, within_pure, within_word,
    within_qos, within_type, ht, if_true, hl, true_and, h0, h1, false_or, if_false,
    TopicLengthInside, topicBegin, topicEnd]
  by_cases h : m ≤ (header wide b m).val.1 + 2
  · simp only [h, if_true, true_or, and_true]
    omega
  · simp only [h, if_false, false_or]
    split_ifs <;> grind

/-- The types whose id stands behind a remaining length of one byte. -/
def HasId (type : Option MqttMessageType) : Prop :=
  type ∈ [some .puback, some .pubrec, some .pubrel, some .pubcomp, some .suback, some .unsuback,
    some .subscribe]

theorem within_id_other (l m : Nat) (hl : 0 < l) (ht : (mqttGetType b).val ≠ some .publish) :
    Within l (mqttGetId wide b m) ↔
      (HasId (mqttGetType b).val → 4 ≤ m → 2 ≤ l ∧ ((b 1).toNat < 128 → 4 ≤ l)) := by
  by_cases h0 : m = 0
  · simp [mqttGetId, h0]
  have h1 : ¬m < 1 := by omega
  simp only [mqttGetId, within_bind, within_ite, within_pure, within_word, within_byte,
    within_type, ht, h1, if_false, hl, true_and, and_80, HasId]
  have hb : b ((1 : Nat) : Int) = b 1 := rfl
  by_cases hi : (mqttGetType b).val ∈ [some .puback, some .pubrec, some .pubrel, some .pubcomp,
    some .suback, some .unsuback, some .subscribe]
  · simp only [hi, if_true, true_imp_iff, hb]
    split_ifs <;> grind
  · simp only [hi, if_false, false_imp_iff]

end Readers

section Packet

variable (env : Env) (b : Mem)

theorem within_messageLength (l : Nat) : Within l (messageLength env b l) := by
  simp only [messageLength, mqttGetTotalLength, within_bind, within_pure, and_true]
  exact within_header_self env.wide b l

theorem within_deliverPublish (l m : Nat) (s : Mud) (hl : 0 < l) :
    Within l (deliverPublish env b m s) ↔ TopicLengthInside env.wide b l m ∧
      (s.callbacks.message ∧ s.callbacks.self →
        ∀ p, (mqttGetPublishTopic env.wide b m).val.1 = some p →
          (mqttGetPublishTopic env.wide b m).val.2 ≠ 0 →
          p + (mqttGetPublishTopic env.wide b m).val.2 ≤ l ∧
            ∀ q, (mqttGetPublishData env.wide b m).val.1 = some q →
              (mqttGetPublishData env.wide b m).val.2 ≠ 0 →
              q + (mqttGetPublishData env.wide b m).val.2 ≤ l) := by
  simp only [deliverPublish, within_bind, within_topic, within_data _ _ _ _ hl]
  by_cases hc : s.callbacks.message ∧ s.callbacks.self
  · have hc' : ¬(¬s.callbacks.message ∨ ¬s.callbacks.self) := by
      rintro (h | h)
      · exact h hc.1
      · exact h hc.2
    rw [if_neg hc']
    cases (mqttGetPublishTopic env.wide b m).val.1 with
    | none => simp
    | some p =>
      by_cases ht : (mqttGetPublishTopic env.wide b m).val.2 = 0
      · simp [ht]
      · cases (mqttGetPublishData env.wide b m).val.1 with
        | none => simp [ht, hc, within_bytes]
        | some q =>
          by_cases hd : (mqttGetPublishData env.wide b m).val.2 = 0
          · simp [ht, hd, hc, within_bytes]
          · simp [ht, hd, hc, within_bytes]
  · have hc' : ¬s.callbacks.message ∨ ¬s.callbacks.self := by
      by_contra h
      simp only [not_or, not_not] at h
      exact hc h
    rw [if_pos hc']
    simp [hc]

/-- The announced length of a packet whose header ends inside the segment is the sum modulo
2^16. -/
theorem announced (l m : Nat) (hl : 0 < l) (hm : (messageLength env b l).val = m) (hlm : l < m)
    (hh : (header env.wide b m).val.1 ≤ l) :
    ((header env.wide b m).val.2 % 65536).toNat = m := by
  rw [← header_shorter env.wide b l m hl (by omega) hh]
  exact hm

/-- What is read of a publication lies inside the segment: the announced packet does, or the
fields that are announced to lie behind the segment are never looked at. -/
def PublicationInside (called : Prop) (l : Nat) : Prop :=
  let m := (messageLength env b l).val
  let qos := (mqttGetQos b).val
  m ≤ l ∨ ((header env.wide b m).val.1 ≤ l ∧
    (m ≤ topicBegin env.wide b m ∨ (topicBegin env.wide b m ≤ l ∧
      (0 < qos → topicEnd env.wide b m + 2 < m → topicEnd env.wide b m + 2 ≤ l) ∧
      (called → topicBegin env.wide b m < topicEnd env.wide b m →
        topicEnd env.wide b m ≤ m → topicEnd env.wide b m ≤ l ∧
          ((0 < qos ∧ m ≤ topicEnd env.wide b m + 2) ∨
            (header env.wide b m).val.2 <
              (topicEnd env.wide b m + (if 0 < qos then 2 else 0) : Nat))))))

theorem within_publication (l : Nat) (s : Mud) (hl : 0 < l)
    (ht : (mqttGetType b).val = some .publish) :
    (Within l (mqttGetId env.wide b (messageLength env b l).val) ∧
        Within l (deliverPublish env b (messageLength env b l).val s)) ↔
      PublicationInside env b (s.callbacks.message ∧ s.callbacks.self) l := by
  obtain ⟨m, hm⟩ : ∃ m, (messageLength env b l).val = m := ⟨_, rfl⟩
  rw [within_id_publish env.wide b l _ hl ht, within_deliverPublish env b l _ s hl]
  simp only [PublicationInside, hm]
  have he := header_end env.wide b m
  by_cases hml : m ≤ l
  · simp only [hml, true_or, iff_true, TopicLengthInside]
    have htb : topicBegin env.wide b m = (header env.wide b m).val.1 + 2 := rfl
    refine ⟨.inr ⟨⟨by omega, by omega⟩, fun _ _ _ => by omega⟩, ⟨by omega, by omega⟩, ?_⟩
    intro _ p hp _
    have h1 := topic_length env.wide b m p hp
    have h2 := (topic_some env.wide b m p).mp hp
    refine ⟨by omega, fun q hq _ => ?_⟩
    have h3 := data_end_le env.wide b m q hq
    omega
  · simp only [hml, false_or, TopicLengthInside]
    have htb : topicBegin env.wide b m ≤ topicEnd env.wide b m := Nat.le_add_right _ _
    constructor
    · rintro ⟨hid, ⟨hh, htl⟩, hd⟩
      have hh' : (header env.wide b m).val.1 ≤ l := by omega
      refine ⟨hh', ?_⟩
      by_cases hb : m ≤ topicBegin env.wide b m
      · exact .inl hb
      · refine .inr ⟨by omega, fun h0 h1 => ?_, fun hc h1 h2 => ?_⟩
        · exact (hid.resolve_left (by omega)).2 (by omega) h0 h1
        · have hp := (topic_some env.wide b m _).mpr ⟨rfl, by omega, h2⟩
          have hpl := topic_length env.wide b m _ hp
          obtain ⟨h3, h4⟩ := hd hc _ hp (by omega)
          refine ⟨by omega, ?_⟩
          -- otherwise data is delivered up to the announced end
          by_contra hn
          have hk := idLength b
          simp only [not_or, not_and, not_lt] at hn
          have hdb : dataBegin env.wide b m < m := by
            rw [dataBegin]
            have := hn.1
            omega
          have hq := (data_some env.wide b m _).mpr ⟨rfl, hdb, hn.2⟩
          have ha := announced env b l m hl hm (by omega) hh'
          have h5 := h4 _ hq
          rw [data_length env.wide b m _ hq] at h5
          have h6 : (dataBegin env.wide b m : Int) ≤ (header env.wide b m).val.2 := hn.2
          split_ifs at h5 <;> omega
    · rintro ⟨hh, hc⟩
      refine ⟨.inr ⟨⟨.inr hh, by omega⟩, fun h0 h1 h2 => ?_⟩, ⟨.inr hh, by omega⟩, ?_⟩
      · exact (hc.resolve_left (by omega)).2.1 h1 h2
      · intro hcalled p hp h0
        have h1 := (topic_some env.wide b m p).mp hp
        have h2 := topic_length env.wide b m p hp
        obtain ⟨h3, h4⟩ := (hc.resolve_left (by omega)).2.2 hcalled (by omega) h1.2.2
        refine ⟨by omega, fun q hq _ => ?_⟩
        obtain ⟨h5, h6, h7⟩ := (data_some env.wide b m q).mp hq
        rw [dataBegin] at h5 h6 h7
        obtain ⟨h8, h9⟩ | h8 := h4
        · rw [if_pos h8] at h5 h6
          omega
        · omega

/-- What is read of an acknowledgement lies inside the segment: its id does, or the remaining
length keeps the reader from it. -/
def AcknowledgementInside (l : Nat) : Prop :=
  HasId (mqttGetType b).val → l < 2 ∨ 4 ≤ l ∨ (b 1).toNat < 2 ∨ 128 ≤ (b 1).toNat

theorem within_other (l : Nat) (hl : 0 < l) (ht : (mqttGetType b).val ≠ some .publish) :
    Within l (mqttGetId env.wide b (messageLength env b l).val) ↔ AcknowledgementInside b l := by
  rw [within_id_other env.wide b l _ hl ht, AcknowledgementInside]
  refine forall_congr' fun _ => ?_
  by_cases h1 : l < 2
  · obtain rfl : l = 1 := by omega
    have hm : (messageLength env b 1).val = 1 := by
      have h1 : int32 (0 + ((1 : Nat) : Int)) = 1 := int32_of_small _ (by decide) (by decide)
      simp only [messageLength, mqttGetTotalLength, header, lengthLoop, bind_val, pure_val,
        Nat.sub_self, h1]
      decide
    simp [hm]
  by_cases hb : (b 1).toNat < 128
  · have hm : (messageLength env b l).val = (b 1).toNat + 2 := by
      simp only [messageLength, bind_val, pure_val, mqttGetTotalLength_val,
        header_one env.wide b l (by omega) hb]
      omega
    omega
  · omega

end Packet

/-! ## The loop -/

/-- The packets at which the loop of the state for data arrives. -/
inductive Reached (env : Env) : Mem → Nat → Mem → Nat → Prop
  | here (b : Mem) (l : Nat) : Reached env b l b l
  | next (b b' : Mem) (l l' : Nat) (type : (mqttGetType b).val = some .publish)
      (more : (messageLength env b l).val < l)
      (rest : Reached env (after (messageLength env b l).val b)
        (l - (messageLength env b l).val) b' l') : Reached env b l b' l'

/-- A packet does not stop the loop from going on, and is read inside the segment. -/
def PacketInside (env : Env) (called : Prop) (b : Mem) (l : Nat) : Prop :=
  if (mqttGetType b).val = some .publish then
    (messageLength env b l).val ≠ 0 ∧ PublicationInside env b called l
  else AcknowledgementInside b l

/-- Whether publications are handed to a Lua function. -/
def Called (s : Mud) : Prop := s.callbacks.message ∧ s.callbacks.self

theorem within_mqttData (env : Env) (b : Mem) (l : Nat) (s : Mud) (hl : 0 < l) :
    Within l (mqttData env b l s) ↔
      if (mqttGetType b).val = some .publish then PublicationInside env b (Called s) l
      else AcknowledgementInside b l := by
  have hm := within_messageLength env b l
  by_cases ht : (mqttGetType b).val = some .publish
  · have hc := (handlePacket_same env (mqttGetType b).val (mqttGetQos b).val
      (mqttGetId env.wide b (messageLength env b l).val).val s).callbacks
    rw [ht] at hc
    simp only [mqttData, within_bind, within_type, within_qos, within_ite, within_pure, hm, hl, ht,
      ite_self, if_true, true_and, and_true]
    rw [within_publication env b l _ hl ht, hc]
    rfl
  · simp only [mqttData, within_bind, within_type, within_qos, within_pure, hm, hl, ht, if_false,
      true_and, and_true]
    exact within_other env b l hl ht

/-- A segment for which the handler returns, having read all that it reads for remaining
length, topic, data and id inside the segment. The states that wait for the answer to a
connection read the type and the return code only. -/
def Safe (env : Env) (b : Mem) (l : Nat) (s : Mud) : Prop :=
  ∃ n r, mqttSocketReceived env n b l s = some r ∧ (s.connState = .data → Within l r)

section Loop

variable (env : Env)

/-- One round in the state for data. -/
theorem received_succ (b : Mem) (l : Nat) (s : Mud) (h : s.connState = .data)
    (hl : 0 < l) (hmax : l ≤ mqttBufSize.toNat) :
    ∃ s' t, SameClient s s' ∧ SameClient s t ∧ ∀ n,
      mqttSocketReceived env (n + 1) b l s =
        if (mqttGetType b).val = some .publish ∧ (messageLength env b l).val < l then
          (mqttSocketReceived env n (after (messageLength env b l).val b)
              (l - (messageLength env b l).val) t).map fun x =>
            ⟨x.val, (mqttData env b l s').reads ++ (shift (messageLength env b l).val x).reads⟩
        else some ⟨(mqttSendIfPossible env t).2, (mqttData env b l s').reads⟩ := by
  have hr := readPacket_eq_mqttData env b l s h
  generalize hs' : (withBuffer s).record (.packet (read b 0 (messageLength env b l).val)) = s' at hr
  have hs : SameClient s s' := hs' ▸ ⟨⟨rfl, rfl, rfl, rfl⟩, rfl⟩
  refine ⟨s', (mqttData env b l s').val.1, hs, hs.trans (mqttData_same env b l s'), fun n => ?_⟩
  have hc : ¬(mqttBufSize.toNat < l ∨ l = 0) := by omega
  simp only [mqttSocketReceived, if_neg hc, hr]
  have h2 : (mqttData env b l s').val.2 =
      if (mqttGetType b).val = some .publish ∧ (messageLength env b l).val < l then
        some (messageLength env b l).val else none := by
    rw [mqttData_val]
  rw [h2]
  split_ifs <;> rfl

theorem called_same {s t : Mud} (h : SameClient s t) : Called t = Called s := by
  rw [Called, Called, h.callbacks]

theorem after_zero (b : Mem) : after ((0 : Nat) : Int) b = b := by
  funext i
  simp [after]

/-- A segment that is handled and read inside has only packets of that kind. -/
theorem inside_of_safe (n : Nat) (b : Mem) (l : Nat) (s : Mud) (r : Reads Mud)
    (h : s.connState = .data) (hl : 0 < l) (hmax : l ≤ mqttBufSize.toNat)
    (hr : mqttSocketReceived env n b l s = some r) (hw : Within l r) (b' : Mem) (l' : Nat)
    (hreach : Reached env b l b' l') : PacketInside env (Called s) b' l' := by
  induction n generalizing b l s r b' l' with
  | zero => simp [mqttSocketReceived] at hr
  | succ n ih =>
    obtain ⟨s', t, hs, ht, he⟩ := received_succ env b l s h hl hmax
    rw [he n] at hr
    have hfirst : Within l (mqttData env b l s') →
        if (mqttGetType b).val = some .publish then PublicationInside env b (Called s) l
        else AcknowledgementInside b l := by
      rw [within_mqttData env b l s' hl, called_same hs]
      exact id
    by_cases hc : (mqttGetType b).val = some .publish ∧ (messageLength env b l).val < l
    · rw [if_pos hc, Option.map_eq_some_iff] at hr
      obtain ⟨x, hx, rfl⟩ := hr
      obtain ⟨hw1, hw2⟩ := List.forall_mem_append.mp hw
      have hrest : ∀ b' l', Reached env (after (messageLength env b l).val b)
          (l - (messageLength env b l).val) b' l' → PacketInside env (Called s) b' l' := by
        intro b' l' hreach
        rw [← called_same ht]
        exact ih _ _ t x (ht.connState.trans h) (by omega) (by omega) hx
          ((within_shift l _ x hc.2.le).mp hw2) b' l' hreach
      cases hreach with
      | here =>
        have hpub := hfirst hw1
        rw [if_pos hc.1] at hpub
        rw [PacketInside, if_pos hc.1]
        refine ⟨fun h0 => ?_, hpub⟩
        -- a packet of length zero is reached again and again
        have hagain := hrest _ _ (.here _ _)
        rw [h0, after_zero, Nat.sub_zero, PacketInside, if_pos hc.1] at hagain
        exact hagain.1 h0
      | next _ _ _ _ htype hmore hreach => exact hrest b' l' hreach
    · rw [if_neg hc, Option.some.injEq] at hr
      obtain rfl := hr
      have hpub := hfirst hw
      cases hreach with
      | here =>
        rw [PacketInside]
        split_ifs at hpub ⊢ with htype
        · exact ⟨fun h0 => hc ⟨htype, by omega⟩, hpub⟩
        · exact hpub
      | next _ _ _ _ htype hmore hreach => exact (hc ⟨htype, hmore⟩).elim

theorem safe_of_inside (l : Nat) (b : Mem) (s : Mud) (h : s.connState = .data) (hl : 0 < l)
    (hmax : l ≤ mqttBufSize.toNat)
    (hin : ∀ b' l', Reached env b l b' l' → PacketInside env (Called s) b' l') :
    ∃ n r, mqttSocketReceived env n b l s = some r ∧ Within l r := by
  induction l using Nat.strongRecOn generalizing b s with
  | ind l ih =>
    have hfirst := hin b l (.here b l)
    rw [PacketInside] at hfirst
    obtain ⟨s', t, hs, ht, he⟩ := received_succ env b l s h hl hmax
    have hw := (within_mqttData env b l s' hl).mpr
    rw [called_same hs] at hw
    by_cases hc : (mqttGetType b).val = some .publish ∧ (messageLength env b l).val < l
    · rw [if_pos hc.1] at hfirst hw
      have h0 := hfirst.1
      obtain ⟨n, x, hx, hwx⟩ := ih (l - (messageLength env b l).val) (by omega)
        (after (messageLength env b l).val b) t (ht.connState.trans h) (by omega) (by omega)
        (fun b' l' hreach => by
          rw [called_same ht]
          exact hin b' l' (.next b b' l l' hc.1 hc.2 hreach))
      refine ⟨n + 1, _, by rw [he n, if_pos hc, hx]; rfl, ?_⟩
      exact List.forall_mem_append.mpr ⟨hw hfirst.2, (within_shift l _ x hc.2.le).mpr hwx⟩
    · refine ⟨1, _, by rw [he 0, if_neg hc], hw ?_⟩
      split_ifs at hfirst ⊢
      · exact hfirst.2
      · exact hfirst

/-- Exactly these segments are handled, and read inside: those that are not looked at, those of
a client that waits for the answer to its connection, and those of which every packet reached is
read inside and moves the loop on. -/
theorem mqttSocketReceived_safe (b : Mem) (l : Nat) (s : Mud) :
    Safe env b l s ↔ (s.connState = .data → 0 < l → l ≤ mqttBufSize.toNat →
      ∀ b' l', Reached env b l b' l' → PacketInside env (Called s) b' l') := by
  constructor
  · rintro ⟨n, r, hr, hw⟩ h hl hmax b' l' hreach
    exact inside_of_safe env n b l s r h hl hmax hr (hw h) b' l' hreach
  · intro hin
    by_cases hc : mqttBufSize.toNat < l ∨ l = 0
    · exact ⟨1, pure s, by rw [mqttSocketReceived, if_pos hc], fun _ => within_pure l s⟩
    · by_cases h : s.connState = .data
      · obtain ⟨n, r, hr, hw⟩ := safe_of_inside env l b s h (by omega) (by omega)
          (hin h (by omega) (by omega))
        exact ⟨n, r, hr, fun _ => hw⟩
      · have h2 : (readPacket env b l s).val.2 = none := by
          simp only [readPacket]
          cases hs : s.connState with
          | data => exact (h hs).elim
          | init => simp only [withBuffer, hs, pure_val]
          | connectSent => simp only [withBuffer, hs, bind_val, pure_val]
          | connectSending => simp only [withBuffer, hs, bind_val, pure_val]
        refine ⟨1, ⟨(mqttSendIfPossible env (readPacket env b l s).val.1).2,
          (readPacket env b l s).reads⟩, ?_, fun hd => (h hd).elim⟩
        simp only [mqttSocketReceived, if_neg hc, h2]

end Loop

/-- A publication of four bytes whose remaining length makes the whole length 65536. -/
def endlessPacket : Mem := fun i => [0x30, 0xfc, 0xff, 0x03].getD i.toNat 0

theorem endlessPacket_not_safe :
    ¬Safe plainEnv endlessPacket 4 { mqttSocketClient with connState := .data } := by
  rintro ⟨n, r, hr, hw⟩
  have hin := inside_of_safe plainEnv n endlessPacket 4 _ r rfl (by decide) (by decide) hr (hw rfl)
    _ _ (.here _ _)
  have ht : (mqttGetType endlessPacket).val = some .publish := by decide
  rw [PacketInside, if_pos ht] at hin
  exact hin.1 (by decide)

end NodeMcu.Mqtt.SegmentSafety
