import NodeMcu.Lib.Reading

namespace NodeMcu.Mqtt.Msg

open NodeMcu.Lib.Memory NodeMcu.Lib.Reading

inductive MqttMessageType
  | connect | connack | publish | puback | pubrec | pubrel | pubcomp
  | subscribe | suback | unsubscribe | unsuback | pingreq | pingresp | disconnect
  deriving DecidableEq

def MqttMessageType.code : MqttMessageType → Nat
  | .connect => 1
  | .connack => 2
  | .publish => 3
  | .puback => 4
  | .pubrec => 5
  | .pubrel => 6
  | .pubcomp => 7
  | .subscribe => 8
  | .suback => 9
  | .unsubscribe => 10
  | .unsuback => 11
  | .pingreq => 12
  | .pingresp => 13
  | .disconnect => 14

/-- The type of a number in a header. Two of the sixteen numbers have no type. -/
def typeOf : Nat → Option MqttMessageType
  | 1 => some .connect
  | 2 => some .connack
  | 3 => some .publish
  | 4 => some .puback
  | 5 => some .pubrec
  | 6 => some .pubrel
  | 7 => some .pubcomp
  | 8 => some .subscribe
  | 9 => some .suback
  | 10 => some .unsubscribe
  | 11 => some .unsuback
  | 12 => some .pingreq
  | 13 => some .pingresp
  | 14 => some .disconnect
  | _ => none

theorem typeOf_code (type : MqttMessageType) : typeOf type.code = some type := by
  cases type <;> rfl

/-! ## Writing -/

/-- A string of C: the bytes in front of its terminator. -/
structure CString where
  bytes : List UInt8
  noNul : 0 ∉ bytes

/-- A message, as a piece of the connection's buffer. -/
structure MqttMessage where
  data : Int
  length : Nat

structure MqttConnection where
  message : MqttMessage
  messageId : UInt16
  buffer : Mem
  bufferLength : UInt16

def maxFixedHeaderSize : Nat := 3

/-- Only the pointer to the message's data is cleared: the `memset` takes the size of a pointer. -/
def mqttMsgInit (c : MqttConnection) (buffer : Mem) (bufferLength : UInt16) : MqttConnection :=
  { c with message := { c.message with data := 0 }, buffer, bufferLength }

def mqttBufSize : UInt16 := 1024

/-- A connection that has not counted any id, with a buffer of that size. -/
def firstConnection : MqttConnection := ⟨⟨0, 0⟩, 0, fun _ => 0, mqttBufSize⟩

def append (c : MqttConnection) (bs : List UInt8) : MqttConnection :=
  { c with
    message := { c.message with length := c.message.length + bs.length }
    buffer := write c.buffer c.message.length bs }

def appendString (c : MqttConnection) (string : List UInt8) : Option MqttConnection :=
  if c.bufferLength.toNat < c.message.length + string.length + 2 then none
  else some (append (append c (bigEndian 2 string.length)) string)

/-- The loop looks for a number that is not zero: it goes round twice when the counter wraps. -/
def nextMessageId (messageId : UInt16) : UInt16 :=
  if messageId + 1 = 0 then messageId + 1 + 1 else messageId + 1

theorem nextMessageId_ne (messageId : UInt16) : nextMessageId messageId ≠ 0 := by
  by_cases h : messageId + 1 = 0
  · simp only [nextMessageId, h, if_true]
    decide
  · simp only [nextMessageId, h, if_false, ne_eq, not_false_eq_true]

/-- The result 0 says that the id did not fit. -/
def appendMessageId (c : MqttConnection) (messageId : UInt16) : UInt16 × MqttConnection :=
  let r := if messageId = 0 then (nextMessageId c.messageId, nextMessageId c.messageId)
    else (messageId, c.messageId)
  let c := { c with messageId := r.2 }
  if c.bufferLength.toNat < c.message.length + 2 then (0, c)
  else (r.1, append c (bigEndian 2 r.1.toNat))

def initMessage (c : MqttConnection) : MqttConnection :=
  { c with message := { c.message with length := maxFixedHeaderSize } }

def failMessage (c : MqttConnection) : MqttConnection :=
  { c with message := ⟨0, 0⟩ }

/-- The first byte of a message. -/
def fixedHeader (type : MqttMessageType) (dup qos retain : Nat) : UInt8 :=
  UInt8.ofNat ((type.code &&& 0x0f) <<< 4 ||| (dup &&& 1) <<< 3 ||| (qos &&& 3) <<< 1 |||
    (retain &&& 1))

def finiMessage (c : MqttConnection) (type : MqttMessageType) (dup qos retain : Nat) :
    MqttConnection :=
  let remainingLength := c.message.length - maxFixedHeaderSize
  if 127 < remainingLength then
    { c with
      buffer := write c.buffer 0 [fixedHeader type dup qos retain,
        UInt8.ofNat (0x80 ||| remainingLength % 128), UInt8.ofNat (remainingLength / 128)]
      message := ⟨0, remainingLength + 3⟩ }
  else
    { c with
      buffer := write c.buffer 1 [fixedHeader type dup qos retain, UInt8.ofNat remainingLength]
      message := ⟨1, remainingLength + 2⟩ }

/-- The message, and the id it leaves in `messageId`. A topic can be missing. -/
def mqttMsgPublish (c : MqttConnection) (topic : Option CString) (data : List UInt8)
    (qos retain : Nat) (messageId : UInt16) : MqttConnection × UInt16 :=
  let c := initMessage c
  match topic with
  | none => (failMessage c, messageId)
  | some topic =>
    if topic.bytes = [] then (failMessage c, messageId)
    else
      match appendString c topic.bytes with
      | none => (failMessage c, messageId)
      | some c =>
        let r := if 0 < qos then appendMessageId c 0 else (0, c)
        if 0 < qos ∧ r.1 = 0 then (failMessage r.2, r.1)
        else if c.bufferLength.toNat < r.2.message.length + data.length then
          (failMessage r.2, r.1)
        else (finiMessage (append r.2 data) .publish 0 qos retain, r.1)

/-- A message that consists of its type and an id. -/
def acknowledgement (type : MqttMessageType) (qos : Nat) (c : MqttConnection)
    (messageId : UInt16) : MqttConnection :=
  let r := appendMessageId (initMessage c) messageId
  if r.1 = 0 then failMessage r.2 else finiMessage r.2 type 0 qos 0

/-- With the buffer of the client an acknowledgement always fits. -/
theorem acknowledgement_length (type : MqttMessageType) (qos : Nat) (c : MqttConnection)
    (messageId : UInt16) (h : c.bufferLength = mqttBufSize) :
    (acknowledgement type qos c messageId).message.length = 4 := by
  have hid : (appendMessageId (initMessage c) messageId).1 ≠ 0 ∧
      (appendMessageId (initMessage c) messageId).2.message.length = 5 := by
    have hlen : ¬c.bufferLength.toNat < maxFixedHeaderSize + 2 := by
      rw [h]
      decide
    simp only [appendMessageId, initMessage, if_neg hlen, append, bigEndian_length]
    split_ifs with h0
    · exact ⟨nextMessageId_ne _, rfl⟩
    · exact ⟨h0, rfl⟩
  have hshort : ¬127 < 5 - maxFixedHeaderSize := by decide
  simp only [acknowledgement, if_neg hid.1, finiMessage, hid.2, if_neg hshort]
  rfl

def mqttMsgPuback := acknowledgement .puback 0

def mqttMsgPubrec := acknowledgement .pubrec 0

def mqttMsgPubrel := acknowledgement .pubrel 1

def mqttMsgPubcomp := acknowledgement .pubcomp 0

def mqttMsgPingreq (c : MqttConnection) : MqttConnection :=
  finiMessage (initMessage c) .pingreq 0 0 0

def mqttMsgPingresp (c : MqttConnection) : MqttConnection :=
  finiMessage (initMessage c) .pingresp 0 0 0

def mqttMsgSubscribeInit (c : MqttConnection) : MqttConnection × UInt16 :=
  let r := appendMessageId (initMessage c) 0
  if r.1 = 0 then (failMessage r.2, 0) else (r.2, r.1)

def mqttMsgSubscribeTopic (c : MqttConnection) (topic : CString) (qos : UInt8) :
    MqttConnection :=
  if topic.bytes = [] then failMessage c
  else
    match appendString c topic.bytes with
    | none => failMessage c
    | some c =>
      if c.bufferLength.toNat < c.message.length + 1 then failMessage c else append c [qos]

def mqttMsgSubscribeFini (c : MqttConnection) : MqttConnection :=
  finiMessage c .subscribe 0 1 0

def mqttMsgSubscribe (c : MqttConnection) (topic : CString) (qos : UInt8) :
    MqttConnection × UInt16 :=
  let r := mqttMsgSubscribeInit c
  let c := if r.1.message.length ≠ 0 then mqttMsgSubscribeTopic r.1 topic qos else r.1
  (if c.message.length ≠ 0 then mqttMsgSubscribeFini c else c, r.2)

def mqttMsgUnsubscribeInit := mqttMsgSubscribeInit

def mqttMsgUnsubscribeTopic (c : MqttConnection) (topic : CString) : MqttConnection :=
  if topic.bytes = [] then failMessage c
  else
    match appendString c topic.bytes with
    | none => failMessage c
    | some c => c

def mqttMsgUnsubscribeFini (c : MqttConnection) : MqttConnection :=
  finiMessage c .unsubscribe 0 1 0

def mqttMsgUnsubscribe (c : MqttConnection) (topic : CString) : MqttConnection × UInt16 :=
  let r := mqttMsgUnsubscribeInit c
  let c := if r.1.message.length ≠ 0 then mqttMsgUnsubscribeTopic r.1 topic else r.1
  (if c.message.length ≠ 0 then mqttMsgUnsubscribeFini c else c, r.2)

/-! ## Reading -/

def mqttGetType (buffer : Mem) : Reads (Option MqttMessageType) := do
  let b ← byte buffer 0
  pure (typeOf ((b.toNat &&& 0xf0) >>> 4))

def mqttGetQos (buffer : Mem) : Reads Nat := do
  let b ← byte buffer 0
  pure ((b.toNat &&& 0x06) >>> 1)

def mqttGetConnectRetCode (buffer : Mem) : Reads UInt8 := byte buffer 3

/-- The values of an `int`. -/
def int32 (x : Int) : Int := Int.bmod x (2 ^ 32)

/-- The language leaves a shift by 32 or more open. -/
def shiftLeft (wide : Nat → Nat → Int) (x n : Nat) : Int :=
  if n < 32 then int32 (x <<< n : Nat) else wide x n

/-- The loop over the bytes of the remaining length: where it stops, and what it has summed up.
All four readers begin with it. -/
def lengthLoop (wide : Nat → Nat → Int) (buffer : Mem) : Nat → Nat → Int → Reads (Nat × Int)
  | 0, i, totlen => pure (i, totlen)
  | n + 1, i, totlen => do
    let b ← byte buffer i
    let totlen := int32 (totlen + shiftLeft wide (b.toNat &&& 0x7f) (7 * (i - 1)))
    if b.toNat &&& 0x80 = 0 then pure (i + 1, totlen)
    else lengthLoop wide buffer n (i + 1) totlen

/-- The loop runs from 1 up to the length, and the end is added to the sum. -/
def header (wide : Nat → Nat → Int) (buffer : Mem) (length : Nat) : Reads (Nat × Int) := do
  let r ← lengthLoop wide buffer (length - 1) 1 0
  pure (r.1, int32 (r.2 + r.1))

def mqttGetTotalLength (wide : Nat → Nat → Int) (buffer : Mem) (length : Nat) : Reads Int := do
  let r ← header wide buffer length
  pure r.2

/-- A pointer into the buffer or none, and what is left in `length`. -/
def mqttGetPublishTopic (wide : Nat → Nat → Int) (buffer : Mem) (length : Nat) :
    Reads (Option Nat × Nat) := do
  let r ← header wide buffer length
  if length ≤ r.1 + 2 then pure (none, length)
  else do
    let topiclen ← word buffer r.1
    if length < r.1 + 2 + topiclen then pure (none, length)
    else pure (some (r.1 + 2), topiclen)

def mqttGetPublishData (wide : Nat → Nat → Int) (buffer : Mem) (length : Nat) :
    Reads (Option Nat × Nat) := do
  let r ← header wide buffer length
  if length ≤ r.1 + 2 then pure (none, length)
  else do
    let topiclen ← word buffer r.1
    if length ≤ r.1 + 2 + topiclen then pure (none, 0)
    else do
      let i := r.1 + 2 + topiclen
      let qos ← mqttGetQos buffer
      if 0 < qos ∧ length ≤ i + 2 then pure (none, length)
      else
        let i := if 0 < qos then i + 2 else i
        if r.2 < i then pure (none, length)
        else if r.2 ≤ length then pure (some i, (r.2 - i).toNat)
        else pure (some i, length - i)

def mqttGetId (wide : Nat → Nat → Int) (buffer : Mem) (length : Nat) : Reads Nat := do
  if length < 1 then pure 0
  else do
    let type ← mqttGetType buffer
    if type = some .publish then do
      let r ← header wide buffer length
      if length ≤ r.1 + 2 then pure 0
      else do
        let topiclen ← word buffer r.1
        if length ≤ r.1 + 2 + topiclen then pure 0
        else do
          let i := r.1 + 2 + topiclen
          let qos ← mqttGetQos buffer
          if 0 < qos then
            if length ≤ i + 2 then pure 0 else word buffer i
          else pure 0
    else if type ∈ [some .puback, some .pubrec, some .pubrel, some .pubcomp, some .suback,
        some .unsuback, some .subscribe] then
      -- the remaining length is expected in one byte
      if 4 ≤ length then do
        let b ← byte buffer 1
        if b.toNat &&& 0x80 = 0 then word buffer 2 else pure 0
      else pure 0
    else pure 0

end NodeMcu.Mqtt.Msg
