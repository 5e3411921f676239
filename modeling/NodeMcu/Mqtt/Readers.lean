import NodeMcu.Mqtt.Msg

namespace NodeMcu.Mqtt.Readers

open NodeMcu.Lib.Memory NodeMcu.Lib.Reading NodeMcu.Mqtt.Msg

/-! ## The fixed header -/

theorem and_7f (b : UInt8) : b.toNat &&& 0x7f = b.toNat % 128 :=
  Nat.and_two_pow_sub_one_eq_mod b.toNat 7

theorem and_80 (b : UInt8) : b.toNat &&& 0x80 = 0 ↔ b.toNat < 128 := by
  have h : ∀ n < 256, n &&& 0x80 = 0 ↔ n < 128 := by decide +kernel
  exact h b.toNat b.toNat_lt

theorem or_80 (n : Nat) : (UInt8.ofNat (0x80 ||| n % 128)).toNat = 128 + n % 128 := by
  have h := Nat.two_pow_add_eq_or_of_lt (i := 7) (Nat.mod_lt n (by decide : 0 < 2 ^ 7)) 1
  have hn : n % 128 < 128 := Nat.mod_lt n (by decide)
  simp only [Nat.mul_one] at h
  rw [show (0x80 ||| n % 128) = 128 + n % 128 from h.symm]
  simp only [UInt8.toNat_ofNat']
  omega

theorem fixedHeader_bits (type : MqttMessageType) (dup qos retain : Nat) :
    ((fixedHeader type dup qos retain).toNat &&& 0xf0) >>> 4 = type.code ∧
      ((fixedHeader type dup qos retain).toNat &&& 0x06) >>> 1 = qos &&& 3 := by
  have hd : dup &&& 1 < 2 := Nat.and_lt_two_pow dup (by decide : 1 < 2 ^ 1)
  have hq : qos &&& 3 < 4 := Nat.and_lt_two_pow qos (by decide : 3 < 2 ^ 2)
  have hr : retain &&& 1 < 2 := Nat.and_lt_two_pow retain (by decide : 1 < 2 ^ 1)
  have key : ∀ c < 15, ∀ d < 2, ∀ q < 4, ∀ r < 2,
      ((UInt8.ofNat ((c &&& 0x0f) <<< 4 ||| d <<< 3 ||| q <<< 1 ||| r)).toNat &&& 0xf0) >>> 4
        = c ∧
      ((UInt8.ofNat ((c &&& 0x0f) <<< 4 ||| d <<< 3 ||| q <<< 1 ||| r)).toNat &&& 0x06) >>> 1
        = q := by decide +kernel
  have hc : type.code < 15 := by cases type <;> decide
  exact key _ hc _ hd _ hq _ hr

theorem mqttGetType_fixedHeader (buffer : Mem) (type : MqttMessageType) (dup qos retain : Nat)
    (h : buffer 0 = fixedHeader type dup qos retain) :
    (mqttGetType buffer).val = some type := by
  simp only [mqttGetType, bind_val, pure_val, Nat.cast_zero, h, fixedHeader_bits, typeOf_code]

theorem mqttGetQos_fixedHeader (buffer : Mem) (type : MqttMessageType) (dup qos retain : Nat)
    (hq : qos < 4) (h : buffer 0 = fixedHeader type dup qos retain) :
    (mqttGetQos buffer).val = qos := by
  have hm : qos &&& 3 = qos := by
    rw [show (3 : Nat) = 2 ^ 2 - 1 from rfl, Nat.and_two_pow_sub_one_eq_mod]
    exact Nat.mod_eq_of_lt hq
  simp only [mqttGetQos, bind_val, pure_val, Nat.cast_zero, h, fixedHeader_bits, hm]

/-! ## The bytes of the remaining length -/

section Header

variable (wide : Nat → Nat → Int) (buffer : Mem)

theorem int32_of_small (x : Int) (h0 : 0 ≤ x) (h : x < 2 ^ 31) : int32 x = x :=
  Int.bmod_eq_of_le (by omega) (by omega)

theorem shiftLeft_of_small (x n : Nat) (hn : n < 32) (hx : x * 2 ^ n < 2 ^ 31) :
    shiftLeft wide x n = (x * 2 ^ n : Nat) := by
  rw [shiftLeft, if_pos hn, Nat.shiftLeft_eq]
  exact int32_of_small _ (by omega) (by omega)

theorem lengthLoop_succ (n i : Nat) (totlen : Int) :
    (lengthLoop wide buffer (n + 1) i totlen).val =
      if (buffer i).toNat < 128 then
        (i + 1, int32 (totlen + shiftLeft wide ((buffer i).toNat % 128) (7 * (i - 1))))
      else (lengthLoop wide buffer n (i + 1)
        (int32 (totlen + shiftLeft wide ((buffer i).toNat % 128) (7 * (i - 1))))).val := by
  simp only [lengthLoop, bind_val, ite_val, pure_val, and_80, and_7f]

theorem lengthLoop_end (n i : Nat) (totlen : Int) :
    i ≤ (lengthLoop wide buffer n i totlen).val.1 ∧
      (lengthLoop wide buffer n i totlen).val.1 ≤ i + n := by
  induction n generalizing i totlen with
  | zero => simp [lengthLoop]
  | succ n ih =>
    rw [lengthLoop_succ]
    split
    · simp
    · have h := ih (i + 1) (int32 (totlen + shiftLeft wide ((buffer i).toNat % 128) (7 * (i - 1))))
      omega

theorem lengthLoop_pos (n i : Nat) (totlen : Int) :
    i + 1 ≤ (lengthLoop wide buffer (n + 1) i totlen).val.1 := by
  rw [lengthLoop_succ]
  split
  · simp
  · exact (lengthLoop_end wide buffer n (i + 1) _).1

/-- A remaining length in one byte. -/
theorem header_one (length : Nat) (hl : 2 ≤ length) (h : (buffer 1).toNat < 128) :
    (header wide buffer length).val = (2, ((buffer 1).toNat : Int) + 2) := by
  obtain ⟨n, rfl⟩ : ∃ n, length = n + 2 := ⟨length - 2, by omega⟩
  have hs : shiftLeft wide ((buffer 1).toNat % 128) 0 = (buffer 1).toNat := by
    rw [shiftLeft_of_small wide _ 0 (by decide) (by omega)]
    omega
  have hi : int32 (0 + ((buffer 1).toNat : Int)) = (buffer 1).toNat := by
    rw [Int.zero_add]
    exact int32_of_small _ (by omega) (by omega)
  have hb : (buffer ((1 : Nat) : Int)) = buffer 1 := rfl
  simp only [header, bind_val, pure_val, show n + 2 - 1 = n + 1 by omega,
    lengthLoop_succ, hb, h, if_true, Nat.sub_self, Nat.mul_zero, hs, hi]
  rw [int32_of_small _ (by omega) (by omega)]
  simp

/-- A remaining length that begins with a byte to be continued. -/
theorem header_two (length : Nat) (hl : 3 ≤ length) (h : 128 ≤ (buffer 1).toNat) :
    if (buffer 2).toNat < 128 then
      (header wide buffer length).val =
        (3, (((buffer 1).toNat % 128 + (buffer 2).toNat * 128 + 3 : Nat) : Int))
    else 3 < length → 3 < (header wide buffer length).val.1 := by
  obtain ⟨n, rfl⟩ : ∃ n, length = n + 3 := ⟨length - 3, by omega⟩
  have h1 : ¬(buffer 1).toNat < 128 := by omega
  have hs : shiftLeft wide ((buffer 1).toNat % 128) 0 = ((buffer 1).toNat % 128 : Nat) := by
    rw [shiftLeft_of_small wide _ 0 (by decide) (by omega)]
    omega
  have hi : int32 (0 + (((buffer 1).toNat % 128 : Nat) : Int)) =
      ((buffer 1).toNat % 128 : Nat) := by
    rw [Int.zero_add]
    exact int32_of_small _ (by omega) (by omega)
  have hb : (buffer ((1 : Nat) : Int)) = buffer 1 := rfl
  have hb2 : (buffer ((2 : Nat) : Int)) = buffer 2 := rfl
  have he : (header wide buffer (n + 3)).val =
      ((lengthLoop wide buffer (n + 1) 2 ((buffer 1).toNat % 128 : Nat)).val.1,
        int32 ((lengthLoop wide buffer (n + 1) 2 ((buffer 1).toNat % 128 : Nat)).val.2 +
          (lengthLoop wide buffer (n + 1) 2 ((buffer 1).toNat % 128 : Nat)).val.1)) := by
    simp only [header, bind_val, pure_val, show n + 3 - 1 = n + 1 + 1 by omega,
      lengthLoop_succ wide buffer (n + 1) 1, hb, h1, if_false, Nat.sub_self, Nat.mul_zero, hs, hi]
  split
  · rename_i h2
    have hs2 : shiftLeft wide ((buffer 2).toNat % 128) 7 = ((buffer 2).toNat * 128 : Nat) := by
      rw [shiftLeft_of_small wide _ 7 (by decide) (by omega), Nat.mod_eq_of_lt h2]
      rfl
    rw [he, lengthLoop_succ wide buffer n 2, hb2, if_pos h2, hs2]
    rw [int32_of_small (_ + _) (by omega) (by omega), int32_of_small _ (by omega) (by omega)]
    simp
  · rename_i h2
    intro hl3
    obtain ⟨k, rfl⟩ : ∃ k, n = k + 1 := ⟨n - 1, by omega⟩
    rw [he, lengthLoop_succ wide buffer (k + 1) 2, hb2, if_neg h2]
    exact lengthLoop_pos wide buffer k 3 _

end Header

/-! ## What the readers find -/

section Readers

variable (wide : Nat → Nat → Int) (buffer : Mem) (length : Nat)

theorem mqttGetTotalLength_val :
    (mqttGetTotalLength wide buffer length).val = (header wide buffer length).val.2 := rfl

theorem mqttGetPublishTopic_val (i : Nat) (totlen : Int)
    (h : (header wide buffer length).val = (i, totlen)) :
    (mqttGetPublishTopic wide buffer length).val =
      if length ≤ i + 2 then (none, length)
      else if length < i + 2 + ofBigEndian (read buffer i 2) then (none, length)
      else (some (i + 2), ofBigEndian (read buffer i 2)) := by
  simp only [mqttGetPublishTopic, bind_val, ite_val, pure_val, h]

theorem mqttGetPublishData_val (i : Nat) (totlen : Int) (qos : Nat)
    (h : (header wide buffer length).val = (i, totlen)) (hq : (mqttGetQos buffer).val = qos) :
    (mqttGetPublishData wide buffer length).val =
      if length ≤ i + 2 then (none, length)
      else if length ≤ i + 2 + ofBigEndian (read buffer i 2) then (none, 0)
      else if 0 < qos ∧ length ≤ i + 2 + ofBigEndian (read buffer i 2) + 2 then (none, length)
      else
        if totlen < (i + 2 + ofBigEndian (read buffer i 2) + (if 0 < qos then 2 else 0) : Nat) then
          (none, length)
        else if totlen ≤ length then
          (some (i + 2 + ofBigEndian (read buffer i 2) + (if 0 < qos then 2 else 0)),
            (totlen - (i + 2 + ofBigEndian (read buffer i 2) +
              (if 0 < qos then 2 else 0) : Nat)).toNat)
        else
          (some (i + 2 + ofBigEndian (read buffer i 2) + (if 0 < qos then 2 else 0)),
            length - (i + 2 + ofBigEndian (read buffer i 2) + (if 0 < qos then 2 else 0))) := by
  by_cases h0 : 0 < qos <;>
    simp only [mqttGetPublishData, bind_val, ite_val, pure_val, h, hq, h0, if_true, if_false,
      true_and, false_and, Nat.add_zero]

theorem mqttGetId_val (i : Nat) (totlen : Int) (qos : Nat) (hl : 1 ≤ length)
    (ht : (mqttGetType buffer).val = some .publish)
    (h : (header wide buffer length).val = (i, totlen)) (hq : (mqttGetQos buffer).val = qos) :
    (mqttGetId wide buffer length).val =
      if length ≤ i + 2 then 0
      else if length ≤ i + 2 + ofBigEndian (read buffer i 2) then 0
      else if 0 < qos then
        if length ≤ i + 2 + ofBigEndian (read buffer i 2) + 2 then 0
        else ofBigEndian (read buffer (i + 2 + ofBigEndian (read buffer i 2) : Nat) 2)
      else 0 := by
  have hl' : ¬length < 1 := by omega
  simp only [mqttGetId, bind_val, ite_val, pure_val, hl', if_false, ht, if_true, h, hq]

/-- Where the topic of a publication begins and where it ends. -/
def topicBegin (m : Nat) : Nat := (header wide buffer m).val.1 + 2

def topicEnd (m : Nat) : Nat :=
  topicBegin wide buffer m + ofBigEndian (read buffer (header wide buffer m).val.1 2)

theorem topic_some (m p : Nat) :
    (mqttGetPublishTopic wide buffer m).val.1 = some p ↔
      p = topicBegin wide buffer m ∧ topicBegin wide buffer m < m ∧ topicEnd wide buffer m ≤ m := by
  rw [mqttGetPublishTopic_val wide buffer m (header wide buffer m).val.1
    (header wide buffer m).val.2 rfl, topicEnd, topicBegin]
  split_ifs with h1 h2
  · simp only [false_iff]
    omega
  · simp only [false_iff]
    omega
  · simp only [Option.some.injEq]
    omega

theorem topic_length (m p : Nat) (h : (mqttGetPublishTopic wide buffer m).val.1 = some p) :
    p + (mqttGetPublishTopic wide buffer m).val.2 = topicEnd wide buffer m := by
  obtain ⟨rfl, h1, h2⟩ := (topic_some wide buffer m p).mp h
  rw [mqttGetPublishTopic_val wide buffer m (header wide buffer m).val.1
    (header wide buffer m).val.2 rfl, topicEnd]
  rw [topicEnd, topicBegin] at h2
  rw [topicBegin] at h1
  rw [if_neg (by omega), if_neg (by omega)]

/-- Where the data of a publication begins. -/
def dataBegin (m : Nat) : Nat :=
  topicEnd wide buffer m + (if 0 < (mqttGetQos buffer).val then 2 else 0)

theorem idLength :
    (if 0 < (mqttGetQos buffer).val then 2 else 0) = 0 ∧ ¬0 < (mqttGetQos buffer).val ∨
      (if 0 < (mqttGetQos buffer).val then 2 else 0) = 2 ∧ 0 < (mqttGetQos buffer).val := by
  split_ifs with h
  · exact .inr ⟨rfl, h⟩
  · exact .inl ⟨rfl, h⟩

theorem data_some (m q : Nat) :
    (mqttGetPublishData wide buffer m).val.1 = some q ↔
      q = dataBegin wide buffer m ∧ dataBegin wide buffer m < m ∧
        (dataBegin wide buffer m : Int) ≤ (header wide buffer m).val.2 := by
  rw [mqttGetPublishData_val wide buffer m (header wide buffer m).val.1
    (header wide buffer m).val.2 (mqttGetQos buffer).val rfl rfl, dataBegin, topicEnd, topicBegin]
  have hk := idLength buffer
  generalize (if 0 < (mqttGetQos buffer).val then 2 else 0) = k at hk ⊢
  split_ifs
  all_goals simp
  all_goals omega

theorem data_length (m q : Nat) (h : (mqttGetPublishData wide buffer m).val.1 = some q) :
    (mqttGetPublishData wide buffer m).val.2 = if (header wide buffer m).val.2 ≤ m then
      ((header wide buffer m).val.2 - q).toNat else m - q := by
  obtain ⟨rfl, h1, h2⟩ := (data_some wide buffer m q).mp h
  rw [mqttGetPublishData_val wide buffer m (header wide buffer m).val.1
    (header wide buffer m).val.2 (mqttGetQos buffer).val rfl rfl]
  rw [dataBegin, topicEnd, topicBegin] at h1 h2 ⊢
  have hk := idLength buffer
  generalize (if 0 < (mqttGetQos buffer).val then 2 else 0) = k at hk h1 h2 ⊢
  rw [if_neg (by omega), if_neg (by omega), if_neg (by omega), if_neg (by omega)]
  split_ifs
  · rfl
  · rfl

theorem data_end_le (m q : Nat)
    (hq : (mqttGetPublishData wide buffer m).val.1 = some q) :
    q + (mqttGetPublishData wide buffer m).val.2 ≤ m := by
  obtain ⟨h0, h1, h2⟩ := (data_some wide buffer m q).mp hq
  rw [data_length wide buffer m q hq]
  split_ifs <;> omega

end Readers

/-! ## Readers see no byte behind their length -/

section Agree

variable (wide : Nat → Nat → Int) {b b' : Mem}

/-- Buffers with the same first bytes. -/
def Agree (b b' : Mem) (m : Nat) : Prop := ∀ i : Nat, i < m → b i = b' i

theorem read_agree {m : Nat} (h : Agree b b' m) (i n : Nat) (hn : i + n ≤ m) :
    read b i n = read b' i n := by
  apply read_congr
  intro k hk
  exact h (i + k) (by omega)

theorem lengthLoop_agree {m : Nat} (h : Agree b b' m) (n i : Nat) (totlen : Int)
    (hn : i + n ≤ max m i) :
    (lengthLoop wide b n i totlen).val = (lengthLoop wide b' n i totlen).val := by
  induction n generalizing i totlen with
  | zero => rfl
  | succ n ih =>
    rw [lengthLoop_succ, lengthLoop_succ, h i (by omega), ih (i + 1) _ (by omega)]

theorem header_agree {m : Nat} (h : Agree b b' m) :
    (header wide b m).val = (header wide b' m).val := by
  have hl := lengthLoop_agree wide h (m - 1) 1 0 (by omega)
  simp only [header, bind_val, pure_val, hl]

theorem mqttGetType_agree {m : Nat} (h : Agree b b' m) (hm : 0 < m) :
    (mqttGetType b).val = (mqttGetType b').val := by
  simp only [mqttGetType, bind_val, pure_val, h 0 hm]

theorem mqttGetQos_agree {m : Nat} (h : Agree b b' m) (hm : 0 < m) :
    (mqttGetQos b).val = (mqttGetQos b').val := by
  simp only [mqttGetQos, bind_val, pure_val, h 0 hm]

theorem mqttGetPublishTopic_agree {m : Nat} (h : Agree b b' m) :
    (mqttGetPublishTopic wide b m).val = (mqttGetPublishTopic wide b' m).val := by
  have hh := header_agree wide h
  rw [mqttGetPublishTopic_val wide b m (header wide b m).val.1 (header wide b m).val.2 rfl,
    mqttGetPublishTopic_val wide b' m (header wide b m).val.1 (header wide b m).val.2 hh.symm]
  by_cases h1 : m ≤ (header wide b m).val.1 + 2
  · rw [if_pos h1, if_pos h1]
  · rw [if_neg h1, if_neg h1, read_agree h _ 2 (by omega)]

theorem mqttGetPublishData_agree {m : Nat} (h : Agree b b' m) :
    (mqttGetPublishData wide b m).val = (mqttGetPublishData wide b' m).val := by
  have hh := header_agree wide h
  by_cases h0 : m = 0
  · rw [mqttGetPublishData_val wide b m (header wide b m).val.1 (header wide b m).val.2 _ rfl rfl,
      mqttGetPublishData_val wide b' m (header wide b m).val.1 (header wide b m).val.2 _ hh.symm
        rfl, if_pos (by omega), if_pos (by omega)]
  rw [mqttGetPublishData_val wide b m (header wide b m).val.1 (header wide b m).val.2 _ rfl rfl,
    mqttGetPublishData_val wide b' m (header wide b m).val.1 (header wide b m).val.2 _ hh.symm
      (mqttGetQos_agree h (by omega)).symm]
  by_cases h1 : m ≤ (header wide b m).val.1 + 2
  · rw [if_pos h1, if_pos h1]
  · rw [if_neg h1, if_neg h1, read_agree h _ 2 (by omega)]

theorem mqttGetId_agree {m : Nat} (h : Agree b b' m) :
    (mqttGetId wide b m).val = (mqttGetId wide b' m).val := by
  by_cases h0 : m < 1
  · simp only [mqttGetId, if_pos h0]
  have hh := header_agree wide h
  have ht := mqttGetType_agree h (by omega)
  by_cases hp : (mqttGetType b').val = some .publish
  · rw [mqttGetId_val wide b m (header wide b m).val.1 (header wide b m).val.2 _ (by omega)
        (ht.trans hp) rfl rfl,
      mqttGetId_val wide b' m (header wide b m).val.1 (header wide b m).val.2 _ (by omega) hp
        hh.symm (mqttGetQos_agree h (by omega)).symm]
    by_cases h1 : m ≤ (header wide b m).val.1 + 2
    · rw [if_pos h1, if_pos h1]
    rw [if_neg h1, if_neg h1, read_agree h _ 2 (by omega)]
    split_ifs with h2 h3 h4
    · rfl
    · rfl
    · rw [read_agree h _ 2 (by omega)]
    · rfl
  · simp only [mqttGetId, bind_val, ite_val, pure_val, if_neg h0, ht, if_neg hp]
    by_cases h4 : 4 ≤ m
    · simp only [h 1 (by omega), read_agree h 2 2 (by omega)]
    · simp only [if_neg h4]

end Agree

end NodeMcu.Mqtt.Readers
