import NodeMcu.Mqtt.Client
import NodeMcu.Mqtt.Readers

namespace NodeMcu.Mqtt.ServerPackets

open NodeMcu.Lib.Memory NodeMcu.Lib.Reading
open NodeMcu.Mqtt.Msg NodeMcu.Mqtt.Readers NodeMcu.Mqtt.Client

inductive Acknowledgement
  | puback | pubrec | pubrel | pubcomp | unsuback

/-- The packets a server sends to a client. -/
inductive ServerPacket
  | connack (flags code : UInt8)
  | publish (dup retain : Bool) (qos : Fin 3) (topic : List UInt8) (id : UInt16)
      (payload : List UInt8)
  | acknowledgement (type : Acknowledgement) (id : UInt16)
  | suback (id : UInt16) (codes : List UInt8)
  | pingresp

namespace ServerPacket

def type : ServerPacket → MqttMessageType
  | connack _ _ => .connack
  | publish .. => .publish
  | acknowledgement .puback _ => .puback
  | acknowledgement .pubrec _ => .pubrec
  | acknowledgement .pubrel _ => .pubrel
  | acknowledgement .pubcomp _ => .pubcomp
  | acknowledgement .unsuback _ => .unsuback
  | suback .. => .suback
  | pingresp => .pingresp

/-- The bits behind the type: a release has those of QoS 1. -/
def flags : ServerPacket → Nat × Nat × Nat
  | publish dup retain qos _ _ _ => (dup.toNat, qos, retain.toNat)
  | acknowledgement .pubrel _ => (0, 1, 0)
  | _ => (0, 0, 0)

def rest : ServerPacket → List UInt8
  | connack flags code => [flags, code]
  | publish _ _ qos topic id payload =>
    bigEndian 2 topic.length ++ topic ++ (if 0 < qos.val then bigEndian 2 id.toNat else []) ++
      payload
  | acknowledgement _ id => bigEndian 2 id.toNat
  | suback id codes => bigEndian 2 id.toNat ++ codes
  | pingresp => []

/-- A remaining length in as few bytes as it needs, four at most. -/
def lengthBytes : Nat → Nat → List UInt8
  | 0, n => [UInt8.ofNat n]
  | k + 1, n =>
    if n < 128 then [UInt8.ofNat n]
    else UInt8.ofNat (128 + n % 128) :: lengthBytes k (n / 128)

def first (p : ServerPacket) : UInt8 := fixedHeader p.type p.flags.1 p.flags.2.1 p.flags.2.2

def bytes (p : ServerPacket) : List UInt8 :=
  p.first :: (lengthBytes 3 p.rest.length ++ p.rest)

def Accepted : ServerPacket → Prop
  | connack _ code => code = 0
  | _ => False

theorem bytes_length (p : ServerPacket) :
    p.bytes.length = 1 + (lengthBytes 3 p.rest.length).length + p.rest.length := by
  simp only [bytes, List.length_cons, List.length_append]
  omega

theorem lengthBytes_pos (k n : Nat) : 0 < (lengthBytes k n).length := by
  cases k with
  | zero => exact Nat.one_pos
  | succ k =>
    rw [lengthBytes]
    split_ifs
    · exact Nat.one_pos
    · exact Nat.succ_pos _

theorem two_le_length (p : ServerPacket) : 2 ≤ p.bytes.length := by
  have := lengthBytes_pos 3 p.rest.length
  rw [bytes_length]
  omega

end ServerPacket

section Packet

variable (env : Env) {b : Mem} {p : ServerPacket}

/-- A buffer that begins with the packet. -/
def Begins (b : Mem) (bs : List UInt8) : Prop := read b 0 bs.length = bs

theorem begins_append (b : Mem) (as bs : List UInt8) :
    Begins b (as ++ bs) ↔ Begins b as ∧ Begins (after as.length b) bs := by
  rw [Begins, read_append, Begins, Begins, read_after, Int.zero_add, Int.add_zero]

theorem begins_at {bs : List UInt8} (h : Begins b bs) (i : Nat) (hi : i < bs.length) :
    b i = bs.getD i 0 := by
  have h1 := eq_of_read b 0 bs h i hi
  rwa [Int.zero_add] at h1

theorem begins_agree {b' : Mem} {bs : List UInt8} (h : Begins b bs) (h' : Begins b' bs) :
    Agree b b' bs.length := by
  intro i hi
  rw [begins_at h i hi, begins_at h' i hi]

variable (h : Begins b p.bytes)

include h

theorem type_packet : (mqttGetType b).val = some p.type :=
  mqttGetType_fixedHeader b _ _ _ _ (begins_at h 0 (by have := p.two_le_length; omega))

/-- The client finds the length of a packet that it can take. -/
theorem messageLength_packet (l : Nat) (hl : p.bytes.length ≤ l)
    (hmax : p.bytes.length ≤ mqttBufSize.toNat) :
    (messageLength env b l).val = p.bytes.length := by
  have hmax' : mqttBufSize.toNat = 1024 := by decide
  have h2 := p.two_le_length
  have h1 := begins_at h 1 (by omega)
  have hlen := p.bytes_length
  by_cases hs : p.rest.length < 128
  · have hb : ServerPacket.lengthBytes 3 p.rest.length = [UInt8.ofNat p.rest.length] := if_pos hs
    have hv : (b 1).toNat = p.rest.length := by
      refine (congrArg UInt8.toNat h1).trans ?_
      simp only [ServerPacket.bytes, hb, List.cons_append, List.getD_cons_succ, List.getD_cons_zero,
        UInt8.toNat_ofNat']
      omega
    have hh := header_one env.wide b l (by omega) (by omega)
    rw [hb] at hlen
    simp only [messageLength, bind_val, pure_val, mqttGetTotalLength_val, hh, hv,
      List.length_singleton] at hlen ⊢
    omega
  · have hb : ServerPacket.lengthBytes 3 p.rest.length =
        [UInt8.ofNat (128 + p.rest.length % 128), UInt8.ofNat (p.rest.length / 128)] := by
      rw [ServerPacket.lengthBytes, if_neg hs, ServerPacket.lengthBytes, if_pos (by omega)]
    have hv : (b 1).toNat = 128 + p.rest.length % 128 := by
      refine (congrArg UInt8.toNat h1).trans ?_
      simp only [ServerPacket.bytes, hb, List.cons_append, List.getD_cons_succ, List.getD_cons_zero,
        UInt8.toNat_ofNat']
      omega
    have hv2 : (b 2).toNat = p.rest.length / 128 := by
      refine (congrArg UInt8.toNat (begins_at h 2 (by rw [hlen, hb]; simp; omega))).trans ?_
      simp only [ServerPacket.bytes, hb, List.cons_append, List.getD_cons_succ, List.getD_cons_zero,
        UInt8.toNat_ofNat']
      omega
    have hh := header_two env.wide b l (by omega) (by omega)
    rw [hb] at hlen
    rw [if_pos (by omega)] at hh
    simp only [messageLength, bind_val, pure_val, mqttGetTotalLength_val, hh, hv, hv2,
      List.length_cons, List.length_nil] at hlen ⊢
    omega

end Packet

theorem deliverPublish_agree (env : Env) {b b' : Mem} {m : Nat} (h : Agree b b' m) (s : Mud) :
    (deliverPublish env b m s).val = (deliverPublish env b' m s).val := by
  have ht := mqttGetPublishTopic_agree env.wide h
  have hd := mqttGetPublishData_agree env.wide h
  rw [deliverPublish, deliverPublish, bind_val, bind_val, bind_val, bind_val, ← ht, ← hd]
  by_cases hc : ¬s.callbacks.message ∨ ¬s.callbacks.self
  · rw [if_pos hc, if_pos hc]
  rw [if_neg hc, if_neg hc]
  cases hp : (mqttGetPublishTopic env.wide b m).val.1 with
  | none => rfl
  | some p =>
    have htl := topic_length env.wide b m p hp
    have htm := (topic_some env.wide b m p).mp hp
    have hrt := read_agree h p (mqttGetPublishTopic env.wide b m).val.2 (by omega)
    by_cases ht0 : (mqttGetPublishTopic env.wide b m).val.2 = 0
    · simp only [if_pos ht0]
    simp only [if_neg ht0, bind_val, Lib.Reading.bytes, hrt]
    cases hq : (mqttGetPublishData env.wide b m).val.1 with
    | none => rfl
    | some q =>
      have hdl := data_end_le env.wide b m q hq
      have hrd := read_agree h q (mqttGetPublishData env.wide b m).val.2 hdl
      by_cases hd0 : (mqttGetPublishData env.wide b m).val.2 = 0
      · simp only [if_pos hd0]
      · simp only [if_neg hd0, bind_val, hrd]

end NodeMcu.Mqtt.ServerPackets
