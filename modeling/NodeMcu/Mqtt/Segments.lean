import NodeMcu.Mqtt.ServerPackets

namespace NodeMcu.Mqtt.Segments

open NodeMcu.Lib.Memory NodeMcu.Lib.Reading
open NodeMcu.Mqtt.Msg NodeMcu.Mqtt.Readers NodeMcu.Mqtt.Client NodeMcu.Mqtt.ServerPackets

/-- A received segment: its bytes in front of whatever the memory holds behind them. -/
def segment (behind : Mem) (bs : List UInt8) : Mem := write behind 0 bs

/-- The handler, with a round for every byte. -/
def receivedBytes (env : Env) (behind : Mem) (bs : List UInt8) (s : Mud) : Option Mud :=
  (mqttSocketReceived env (bs.length + 1) (segment behind bs) bs.length s).map (·.val)

def handledPacket : Effect → Option (List UInt8)
  | .packet bs => some bs
  | _ => none

/-- The packets that have been handled, in order. -/
def handled (s : Mud) : List (List UInt8) := s.effects.filterMap handledPacket

/-! ## The client without its sends -/

def NotSend : Effect → Bool
  | .send _ => false
  | _ => true

def quiet (s : Mud) : Mud :=
  { s with
    eventTimeout := 0
    keepAliveTick := 0
    outstanding := 0
    effects := s.effects.filter NotSend }

theorem quiet_handled (s : Mud) : handled (quiet s) = handled s := by
  simp only [handled, quiet, List.filterMap_filter]
  congr 1
  funext e
  cases e <;> rfl

theorem quiet_record (s : Mud) (e : Effect) (h : NotSend e = true) :
    quiet (s.record e) = (quiet s).record e := by
  simp only [quiet, Mud.record, List.filter_append, List.filter_cons, h, if_true, List.filter_nil]

theorem quiet_send (env : Env) (s : Mud) : quiet (mqttSendIfPossible env s).2 = quiet s := by
  rw [mqttSendIfPossible]
  split_ifs
  · cases msgPeek s with
    | none => rfl
    | some node => simp [quiet, NotSend]
  · rfl

theorem quiet_luaCall (callback : Bool) (e : Effect) (s : Mud) (h : NotSend e = true) :
    quiet (luaCall callback e s) = luaCall callback e (quiet s) := by
  rw [luaCall, luaCall]
  split_ifs with hc hc' hc'
  · exact quiet_record s e h
  · exact (hc' hc).elim
  · exact (hc hc').elim
  · rfl

theorem quiet_dequeue (cause : Cause) (s : Mud) :
    quiet (msgDequeue cause s) = msgDequeue cause (quiet s) := by
  cases hq : s.pendingMsgQ with
  | nil => simp [msgDequeue, quiet, hq]
  | cons node rest => simp [msgDequeue, quiet, hq, NotSend]

theorem quiet_respond (env : Env) (build : MqttConnection → MqttConnection)
    (msgType : MqttMessageType) (msgId : Nat) (origin : Option Nat) (s : Mud) :
    quiet (respond env build msgType msgId origin s) =
      respond env build msgType msgId origin (quiet s) := by
  have hq : (quiet s).mqttConnection = s.mqttConnection := rfl
  simp only [respond, msgEnqueue, hq]
  by_cases hl : (build s.mqttConnection).message.length = 0
  · rw [if_pos hl, if_pos hl]
    rfl
  rw [if_neg hl, if_neg hl]
  by_cases hz : env.zalloc s.pendingMsgQ {
      msg := read (build s.mqttConnection).buffer (build s.mqttConnection).message.data
        (build s.mqttConnection).message.length
      msgId, msgType
      publishQos := messageQos (build s.mqttConnection)
      origin := origin.getD s.queued
      serial := s.queued }
  · simp only [quiet, hz, if_true, List.filter_append, List.filter_cons, NotSend, List.filter_nil]
  · simp only [quiet, hz]
    rfl

theorem quiet_acknowledge (expected type : MqttMessageType) (msgId : Nat)
    (next : MsgQueue → Mud → Mud) (h : ∀ node s, quiet (next node s) = next node (quiet s))
    (s : Mud) :
    quiet (acknowledge expected type msgId next s) =
      acknowledge expected type msgId next (quiet s) := by
  have hp : msgPeek (quiet s) = msgPeek s := rfl
  simp only [acknowledge, hp]
  cases msgPeek s with
  | none => rfl
  | some node =>
    simp only
    split_ifs
    · rw [h, quiet_dequeue]
    · rfl

theorem quiet_handlePacket (env : Env) (msgType : Option MqttMessageType) (msgQos msgId : Nat)
    (s : Mud) :
    quiet (handlePacket env msgType msgQos msgId s) =
      handlePacket env msgType msgQos msgId (quiet s) := by
  refine handlePacket_cases env msgType msgQos msgId (fun f => ∀ s, quiet (f s) = f (quiet s))
    ?_ ?_ ?_ ?_ s
  · exact fun _ => rfl
  · exact fun build type s => quiet_respond env build type _ _ s
  · intro expected type callback e he s
    have hcall : ∀ node s, quiet (luaCall (callback s.callbacks) (e node) s) =
        luaCall (callback (quiet s).callbacks) (e node) (quiet s) := by
      intro node s
      refine quiet_luaCall _ _ s ?_
      obtain h | h | h := he node <;> rw [h] <;> rfl
    exact quiet_acknowledge expected type msgId _ hcall s
  · intro expected type build type' origin _ s
    have hnext : ∀ node s, quiet (respond env build type' msgId (origin node) s) =
        respond env build type' msgId (origin node) (quiet s) :=
      fun node s => quiet_respond env build type' msgId (origin node) s
    exact quiet_acknowledge expected type msgId _ hnext s

theorem quiet_deliver (env : Env) (b : Mem) (m : Nat) (s : Mud) :
    quiet (deliverPublish env b m s).val = (deliverPublish env b m (quiet s)).val := by
  have hc : (quiet s).callbacks = s.callbacks := rfl
  rw [deliverPublish, deliverPublish, bind_val, bind_val, bind_val, bind_val, hc]
  by_cases h : ¬s.callbacks.message ∨ ¬s.callbacks.self
  · rw [if_pos h, if_pos h]
    rfl
  rw [if_neg h, if_neg h]
  cases (mqttGetPublishTopic env.wide b m).val.1 with
  | none => rfl
  | some p =>
    by_cases ht : (mqttGetPublishTopic env.wide b m).val.2 = 0
    · simp only [if_pos ht, pure_val]
    simp only [if_neg ht, bind_val]
    cases (mqttGetPublishData env.wide b m).val.1 with
    | none => exact quiet_record s _ rfl
    | some q =>
      by_cases hd : (mqttGetPublishData env.wide b m).val.2 = 0
      · simp only [if_pos hd, pure_val]
        exact quiet_record s _ rfl
      · simp only [if_neg hd, bind_val, pure_val]
        exact quiet_record s _ rfl

theorem quiet_connect (b : Mem) (s : Mud) :
    quiet (mqttConnect b s).val = (mqttConnect b (quiet s)).val := by
  simp only [mqttConnect, bind_val, ite_val, pure_val, mqttConnackFail]
  have hrec : ∀ s : Mud, quiet (s.record .disconnect) = (quiet s).record .disconnect :=
    fun s => quiet_record s _ rfl
  split_ifs
  · rw [quiet_luaCall _ _ _ rfl, hrec]
    rfl
  · rw [quiet_luaCall _ _ _ rfl, hrec]
    rfl
  · rw [quiet_luaCall _ _ _ rfl]
    rfl

theorem quiet_readPacket (env : Env) (b : Mem) (l : Nat) (s : Mud) :
    quiet (readPacket env b l s).val.1 = (readPacket env b l (quiet s)).val.1 := by
  have hc : (withBuffer (quiet s)).connState = s.connState := rfl
  have hc' : (withBuffer s).connState = s.connState := rfl
  have hrec : ∀ bs, quiet ((withBuffer s).record (.packet bs)) =
      (withBuffer (quiet s)).record (.packet bs) := fun bs => quiet_record _ _ rfl
  simp only [readPacket, hc, hc']
  cases s.connState with
  | init => rfl
  | connectSending => simp only [bind_val, pure_val, quiet_connect, hrec]
  | connectSent => simp only [bind_val, pure_val, quiet_connect, hrec]
  | data =>
    simp only [mqttData_val, ← hrec]
    split_ifs
    · rw [quiet_deliver, quiet_handlePacket]
    · rw [quiet_handlePacket]

/-! ## One packet -/

theorem begins_segment (behind : Mem) (bs : List UInt8) : Begins (segment behind bs) bs :=
  read_write behind 0 bs

/-- What a packet does to a client that takes it, but for the send behind it. -/
def packetEffect (env : Env) (p : ServerPacket) (s : Mud) : Mud :=
  (readPacket env (segment (fun _ => 0) p.bytes) p.bytes.length s).val.1

theorem quiet_packetEffect (env : Env) (p : ServerPacket) (s : Mud) :
    quiet (packetEffect env p s) = packetEffect env p (quiet s) :=
  quiet_readPacket env _ _ s

theorem connack_length (p : ServerPacket) (h : p.type = .connack) : p.bytes.length = 4 := by
  cases p with
  | connack flags code => rfl
  | acknowledgement type id => cases type <;> simp [ServerPacket.type] at h
  | publish => simp [ServerPacket.type] at h
  | suback => simp [ServerPacket.type] at h
  | pingresp => simp [ServerPacket.type] at h

/-- Only the bytes of the packet matter, wherever it stands. -/
theorem readPacket_packet (env : Env) {b : Mem} {p : ServerPacket} (l : Nat) (s : Mud)
    (h : Begins b p.bytes) (hl : p.bytes.length ≤ l) (hmax : p.bytes.length ≤ mqttBufSize.toNat) :
    (readPacket env b l s).val = (packetEffect env p s,
      if s.connState = .data ∧ p.type = .publish ∧ p.bytes.length < l then some p.bytes.length
      else none) := by
  have h' := begins_segment (fun _ => 0) p.bytes
  have hag := begins_agree h h'
  have hm := messageLength_packet env h l hl hmax
  have hm' := messageLength_packet env h' p.bytes.length (le_refl _) hmax
  have h2 := p.two_le_length
  have hr : read b 0 p.bytes.length = p.bytes := h
  have hr' : read (segment (fun _ => 0) p.bytes) 0 p.bytes.length = p.bytes := h'
  simp only [packetEffect, readPacket, hm, hm', hr, hr']
  have hc : (withBuffer s).connState = s.connState := rfl
  rw [hc]
  have hconn : ∀ s, (mqttConnect b s).val =
      (mqttConnect (segment (fun _ => 0) p.bytes) s).val := by
    intro s
    by_cases hp : p.type = .connack
    · have hcode : (mqttGetConnectRetCode b).val =
          (mqttGetConnectRetCode (segment (fun _ => 0) p.bytes)).val :=
        hag 3 (by rw [connack_length p hp]; decide)
      simp only [mqttConnect, bind_val, ite_val, pure_val, type_packet h, type_packet h', hcode]
    · have hp' : some p.type ≠ some .connack := fun hx => hp (Option.some.inj hx)
      simp only [mqttConnect, bind_val, pure_val, type_packet h, type_packet h', if_pos hp']
  cases hs : s.connState with
  | init => rfl
  | connectSending => simp only [bind_val, pure_val, hconn, reduceCtorEq, false_and, if_false]
  | connectSent => simp only [bind_val, pure_val, hconn, reduceCtorEq, false_and, if_false]
  | data =>
    simp only [mqttData_val, hm, hm', type_packet h, type_packet h', Option.some.injEq, true_and,
      mqttGetQos_agree hag (by omega), mqttGetId_agree env.wide hag, deliverPublish_agree env hag]

/-! ## A list of packets in one segment -/

/-- The packets that a segment of the state for data is read for. -/
def heard : List ServerPacket → List ServerPacket
  | [] => []
  | p :: ps => p :: if p.type = .publish then heard ps else []

def effects (env : Env) (ps : List ServerPacket) (s : Mud) : Mud :=
  ps.foldl (fun s p => packetEffect env p s) s

/-- The bytes of a list of packets. -/
def stream (ps : List ServerPacket) : List UInt8 := ps.flatMap ServerPacket.bytes

theorem packetEffect_data (env : Env) (p : ServerPacket) (s : Mud) (h : s.connState = .data) :
    (packetEffect env p s).connState = .data := by
  simp only [packetEffect, readPacket]
  rw [show (withBuffer s).connState = .data from h]
  exact (mqttData_same env _ _ _).connState.trans h

theorem stream_cons (p : ServerPacket) (ps : List ServerPacket) :
    (stream (p :: ps)).length = p.bytes.length + (stream ps).length := by
  rw [stream, List.flatMap_cons, List.length_append]
  rfl

theorem length_le_stream (ps : List ServerPacket) : ps.length ≤ (stream ps).length := by
  induction ps with
  | nil => exact Nat.le_refl 0
  | cons p ps ih =>
    have := p.two_le_length
    rw [stream_cons, List.length_cons]
    omega

/-- The loop in the state for data. -/
theorem received_data (env : Env) (ps : List ServerPacket) (hne : ps ≠ []) (n : Nat) (b : Mem)
    (s : Mud) (hn : ps.length ≤ n) (h : s.connState = .data) (hb : Begins b (stream ps))
    (hmax : (stream ps).length ≤ mqttBufSize.toNat) :
    ∃ r, mqttSocketReceived env n b (stream ps).length s = some r ∧
      quiet r.val = effects env (heard ps) (quiet s) := by
  induction ps generalizing n b s with
  | nil => exact (hne rfl).elim
  | cons p ps ih =>
    obtain ⟨k, rfl⟩ : ∃ k, n = k + 1 := ⟨n - 1, by simp only [List.length_cons] at hn; omega⟩
    have h2 := p.two_le_length
    have hlen := stream_cons p ps
    rw [stream, List.flatMap_cons] at hb
    obtain ⟨hp, hps⟩ := (begins_append b _ _).mp hb
    have hround := readPacket_packet env (stream (p :: ps)).length s hp (by omega) (by omega)
    have hc : ¬(mqttBufSize.toNat < (stream (p :: ps)).length ∨ (stream (p :: ps)).length = 0) := by
      omega
    simp only [mqttSocketReceived, if_neg hc, hround, h, true_and]
    by_cases hgo : p.type = .publish ∧ p.bytes.length < (stream (p :: ps)).length
    · have hne' : ps ≠ [] := by
        rintro rfl
        exact absurd hgo.2 (by rw [hlen]; simp [stream])
      have hsub : (stream (p :: ps)).length - p.bytes.length = (stream ps).length := by omega
      obtain ⟨r, hr, hq⟩ := ih hne' k (after p.bytes.length b) (packetEffect env p s)
        (by simpa using hn) (packetEffect_data env p s h) hps (by omega)
      rw [quiet_packetEffect] at hq
      simp only [if_pos hgo, hsub, hr, Option.map_some]
      exact ⟨_, rfl, by rw [hq, heard, if_pos hgo.1]; rfl⟩
    · have hheard : heard (p :: ps) = [p] := by
        rw [heard]
        by_cases ht : p.type = .publish
        · have h0 : (stream ps).length = 0 := by
            have : ¬p.bytes.length < (stream (p :: ps)).length := fun hx => hgo ⟨ht, hx⟩
            omega
          have hnil : ps = [] := by
            have := length_le_stream ps
            exact List.length_eq_zero_iff.mp (by omega)
          rw [hnil, if_pos ht, heard]
        · rw [if_neg ht]
      simp only [if_neg hgo]
      exact ⟨_, rfl, by rw [quiet_send, quiet_packetEffect, hheard]; rfl⟩

/-- In the other states the handler looks at one packet. -/
theorem received_other (env : Env) (p : ServerPacket) (ps : List ServerPacket) (n : Nat) (b : Mem)
    (s : Mud) (h : s.connState ≠ .data) (hb : Begins b (stream (p :: ps)))
    (hmax : (stream (p :: ps)).length ≤ mqttBufSize.toNat) :
    ∃ r, mqttSocketReceived env (n + 1) b (stream (p :: ps)).length s = some r ∧
      quiet r.val = packetEffect env p (quiet s) := by
  have h2 := p.two_le_length
  have hlen := stream_cons p ps
  rw [stream, List.flatMap_cons] at hb
  have hround := readPacket_packet env (stream (p :: ps)).length s ((begins_append b _ _).mp hb).1
    (by omega) (by omega)
  have hc : ¬(mqttBufSize.toNat < (stream (p :: ps)).length ∨ (stream (p :: ps)).length = 0) := by
    omega
  simp only [mqttSocketReceived, if_neg hc, hround, h, false_and, if_false]
  exact ⟨_, rfl, by rw [quiet_send, quiet_packetEffect]⟩

/-- What one packet does in a segment of its own. -/
def alone (env : Env) (s : Mud) (p : ServerPacket) : Mud :=
  if mqttBufSize.toNat < p.bytes.length then s else packetEffect env p s

theorem receivedBytes_alone (env : Env) (behind : Mem) (p : ServerPacket) (s : Mud) :
    ∃ t, receivedBytes env behind p.bytes s = some t ∧ quiet t = alone env (quiet s) p := by
  have h2 := p.two_le_length
  by_cases hmax : mqttBufSize.toNat < p.bytes.length
  · refine ⟨s, ?_, by rw [alone, if_pos hmax]⟩
    simp only [receivedBytes, mqttSocketReceived, hmax, true_or, if_true]
    rfl
  · have hround := readPacket_packet env p.bytes.length s (begins_segment behind p.bytes)
      (le_refl _) (by omega)
    have hc : ¬(mqttBufSize.toNat < p.bytes.length ∨ p.bytes.length = 0) := by omega
    simp only [receivedBytes, mqttSocketReceived, if_neg hc, hround, Nat.lt_irrefl, and_false,
      if_false, alone, if_neg hmax]
    exact ⟨_, rfl, by rw [quiet_send, quiet_packetEffect]⟩

/-- The packets, each in a segment of its own. -/
def receivedAlone (env : Env) (behind : Mem) (ps : List ServerPacket) (s : Mud) : Option Mud :=
  ps.foldlM (fun s p => receivedBytes env behind p.bytes s) s

theorem receivedAlone_quiet (env : Env) (behind : Mem) (ps : List ServerPacket) (s : Mud) :
    ∃ t, receivedAlone env behind ps s = some t ∧ quiet t = ps.foldl (alone env) (quiet s) := by
  induction ps generalizing s with
  | nil => exact ⟨s, rfl, rfl⟩
  | cons p ps ih =>
    obtain ⟨t, ht, hq⟩ := receivedBytes_alone env behind p s
    obtain ⟨u, hu, hqu⟩ := ih t
    refine ⟨u, ?_, ?_⟩
    · rw [receivedAlone, List.foldlM_cons, ht]
      exact hu
    · rw [hqu, hq, List.foldl_cons]

/-! ## Both ways compared -/

/-- What the packets do when they come in one segment. -/
def together (env : Env) (ps : List ServerPacket) (s : Mud) : Mud :=
  if mqttBufSize.toNat < (stream ps).length then s
  else effects env (if s.connState = .data then heard ps else ps.take 1) s

theorem receivedBytes_together (env : Env) (behind : Mem) (ps : List ServerPacket) (s : Mud) :
    ∃ t, receivedBytes env behind (stream ps) s = some t ∧ quiet t = together env ps (quiet s) := by
  have hb := begins_segment behind (stream ps)
  by_cases hmax : mqttBufSize.toNat < (stream ps).length
  · refine ⟨s, ?_, by rw [together, if_pos hmax]⟩
    simp only [receivedBytes, mqttSocketReceived, hmax, true_or, if_true]
    rfl
  rw [together, if_neg hmax, show (quiet s).connState = s.connState from rfl]
  cases ps with
  | nil => exact ⟨s, rfl, by rw [heard, List.take_nil, ite_self]; rfl⟩
  | cons p ps =>
    have hlen := length_le_stream (p :: ps)
    by_cases h : s.connState = .data
    · obtain ⟨r, hr, hq⟩ := received_data env (p :: ps) (by simp)
        ((stream (p :: ps)).length + 1) _ s (by omega) h hb (by omega)
      exact ⟨r.val, by rw [receivedBytes, hr]; rfl, by rw [hq, if_pos h]⟩
    · obtain ⟨r, hr, hq⟩ := received_other env p ps (stream (p :: ps)).length _ s h hb (by omega)
      exact ⟨r.val, by rw [receivedBytes, hr]; rfl, by rw [hq, if_neg h]; rfl⟩

/-- The same state of the connection, the same queue, and the same packets handled in the same
order. -/
structure Same (t u : Mud) : Prop where
  connState : t.connState = u.connState
  pendingMsgQ : t.pendingMsgQ = u.pendingMsgQ
  handled : handled t = handled u

theorem Same.symm {t u : Mud} (h : Same t u) : Same u t :=
  ⟨h.connState.symm, h.pendingMsgQ.symm, h.handled.symm⟩

theorem Same.trans {t u v : Mud} (h : Same t u) (h' : Same u v) : Same t v :=
  ⟨h.connState.trans h'.connState, h.pendingMsgQ.trans h'.pendingMsgQ,
    h.handled.trans h'.handled⟩

theorem same_quiet (t u : Mud) : Same (quiet t) (quiet u) ↔ Same t u := by
  constructor
  · rintro ⟨h1, h2, h3⟩
    rw [quiet_handled, quiet_handled] at h3
    exact ⟨h1, h2, h3⟩
  · rintro ⟨h1, h2, h3⟩
    rw [← quiet_handled t, ← quiet_handled u] at h3
    exact ⟨h1, h2, h3⟩

theorem handled_record (s : Mud) (e : Effect) :
    handled (s.record e) = handled s ++ (handledPacket e).toList := by
  rw [handled, Mud.record, List.filterMap_append]
  cases e <;> rfl

theorem handled_luaCall (callback : Bool) (e : Effect) (s : Mud) (h : handledPacket e = none) :
    handled (luaCall callback e s) = handled s := by
  rw [luaCall]
  split_ifs
  · rw [handled_record, h, Option.toList_none, List.append_nil]
  · rfl

theorem handled_respond (env : Env) (build : MqttConnection → MqttConnection)
    (msgType : MqttMessageType) (msgId : Nat) (origin : Option Nat) (s : Mud) :
    handled (respond env build msgType msgId origin s) = handled s := by
  simp only [respond, msgEnqueue]
  split_ifs
  · rfl
  · simp [handled, handledPacket]
  · rfl

theorem handled_dequeue (cause : Cause) (s : Mud) : handled (msgDequeue cause s) = handled s := by
  unfold msgDequeue
  cases s.pendingMsgQ with
  | nil => rfl
  | cons node rest => simp [handled, handledPacket]

theorem handled_acknowledge (expected type : MqttMessageType) (msgId : Nat)
    (next : MsgQueue → Mud → Mud) (h : ∀ node s, handled (next node s) = handled s) (s : Mud) :
    handled (acknowledge expected type msgId next s) = handled s := by
  unfold acknowledge
  cases msgPeek s with
  | none => rfl
  | some node =>
    simp only
    split_ifs
    · rw [h, handled_dequeue]
    · rfl

theorem handled_handlePacket (env : Env) (msgType : Option MqttMessageType) (msgQos msgId : Nat)
    (s : Mud) : handled (handlePacket env msgType msgQos msgId s) = handled s := by
  refine handlePacket_cases env msgType msgQos msgId (fun f => ∀ s, handled (f s) = handled s)
    ?_ ?_ ?_ ?_ s
  · exact fun _ => rfl
  · exact fun build type s => handled_respond env build type _ _ s
  · intro expected type callback e he s
    refine handled_acknowledge expected type msgId _ (fun node s => ?_) s
    refine handled_luaCall _ _ s ?_
    obtain h | h | h := he node <;> rw [h] <;> rfl
  · intro expected type build type' origin _ s
    exact handled_acknowledge expected type msgId _
      (fun node s => handled_respond env build type' msgId (origin node) s) s

theorem handled_deliver (env : Env) (b : Mem) (m : Nat) (s : Mud) :
    handled (deliverPublish env b m s).val = handled s := by
  obtain h | ⟨t, d, h⟩ := deliverPublish_val env b m s
  · rw [h]
  · rw [h, handled_record]
    exact List.append_nil _

theorem handled_connect (b : Mem) (s : Mud) : handled (mqttConnect b s).val = handled s := by
  simp only [mqttConnect, bind_val, ite_val, pure_val, mqttConnackFail]
  split_ifs
  · rw [handled_luaCall _ _ _ rfl, handled_record]
    exact List.append_nil _
  · rw [handled_luaCall _ _ _ rfl, handled_record]
    exact List.append_nil _
  · rw [handled_luaCall _ _ _ rfl]
    rfl

theorem handled_packetEffect (env : Env) (p : ServerPacket) (s : Mud) (h : s.connState ≠ .init)
    (hmax : p.bytes.length ≤ mqttBufSize.toNat) :
    handled (packetEffect env p s) = handled s ++ [p.bytes] := by
  have h' := begins_segment (fun _ => 0) p.bytes
  have hm := messageLength_packet env h' p.bytes.length (le_refl _) hmax
  have hr : read (segment (fun _ => 0) p.bytes) 0 p.bytes.length = p.bytes := h'
  have hrec : handled ((withBuffer s).record (.packet p.bytes)) = handled s ++ [p.bytes] :=
    handled_record _ _
  simp only [packetEffect, readPacket, hm, hr]
  rw [show (withBuffer s).connState = s.connState from rfl]
  cases hs : s.connState with
  | init => exact (h hs).elim
  | connectSending => simp only [bind_val, pure_val, handled_connect, hrec]
  | connectSent => simp only [bind_val, pure_val, handled_connect, hrec]
  | data =>
    simp only [mqttData_val]
    split_ifs
    · rw [handled_deliver, handled_handlePacket, hrec]
    · rw [handled_handlePacket, hrec]

theorem packetEffect_init (env : Env) (p : ServerPacket) (s : Mud) (h : s.connState = .init) :
    packetEffect env p s = withBuffer s := by
  simp only [packetEffect, readPacket]
  rw [show (withBuffer s).connState = .init from h]
  rfl

theorem luaCall_connState (callback : Bool) (e : Effect) (s : Mud) :
    (luaCall callback e s).connState = s.connState := (luaCall_same callback e s).connState

theorem mqttConnect_connState (b : Mem) (p : ServerPacket) (h : Begins b p.bytes) (s : Mud) :
    (p.Accepted → (mqttConnect b s).val.connState = .data) ∧
      (¬p.Accepted → (mqttConnect b s).val.connState = .init) := by
  have ht := type_packet h
  have hother : p.type ≠ .connack → (mqttConnect b s).val.connState = .init := by
    intro hp
    have hp' : some p.type ≠ some .connack := fun hx => hp (Option.some.inj hx)
    simp only [mqttConnect, bind_val, pure_val, ht, if_pos hp', mqttConnackFail,
      luaCall_connState]
    rfl
  cases p with
  | connack flags code =>
    have hcode : (mqttGetConnectRetCode b).val = code :=
      begins_at h 3 (by rw [connack_length _ rfl]; decide)
    have hn : ¬(some (ServerPacket.connack flags code).type ≠ some .connack) := fun hx => hx rfl
    simp only [mqttConnect, bind_val, ite_val, pure_val, ht, if_neg hn, hcode]
    constructor
    · intro ha
      have hc : ¬code ≠ 0 := not_not.mpr ha
      rw [if_neg hc, luaCall_connState]
    · intro ha
      have hc : code ≠ 0 := ha
      rw [if_pos hc, mqttConnackFail, luaCall_connState]
      rfl
  | acknowledgement type id =>
    exact ⟨False.elim, fun _ => hother (by cases type <;> simp [ServerPacket.type])⟩
  | publish => exact ⟨False.elim, fun _ => hother (by simp [ServerPacket.type])⟩
  | suback => exact ⟨False.elim, fun _ => hother (by simp [ServerPacket.type])⟩
  | pingresp => exact ⟨False.elim, fun _ => hother (by simp [ServerPacket.type])⟩

/-- A client that waits for the answer to its connection has data, or gives up, after a packet. -/
theorem packetEffect_connect (env : Env) (p : ServerPacket) (s : Mud) (h : s.connState ≠ .init)
    (h' : s.connState ≠ .data) :
    (p.Accepted → (packetEffect env p s).connState = .data) ∧
      (¬p.Accepted → (packetEffect env p s).connState = .init) := by
  have hb := begins_segment (fun _ => 0) p.bytes
  simp only [packetEffect, readPacket]
  rw [show (withBuffer s).connState = s.connState from rfl]
  cases hs : s.connState with
  | init => exact (h hs).elim
  | data => exact (h' hs).elim
  | connectSending => exact mqttConnect_connState _ p hb _
  | connectSent => exact mqttConnect_connState _ p hb _

theorem handled_alone_le (env : Env) (ps : List ServerPacket) (s : Mud) :
    (handled s).length ≤ (handled (ps.foldl (alone env) s)).length := by
  induction ps generalizing s with
  | nil => exact Nat.le_refl _
  | cons p ps ih =>
    refine Nat.le_trans ?_ (ih (alone env s p))
    rw [alone]
    split_ifs with hmax
    · exact Nat.le_refl _
    · by_cases h : s.connState = .init
      · rw [packetEffect_init env p s h]
        exact Nat.le_refl _
      · rw [handled_packetEffect env p s h (by omega), List.length_append]
        exact Nat.le_add_right _ _

/-- A client that does not stand still handles the first packet that it can take. -/
theorem handled_alone_lt (env : Env) (ps : List ServerPacket) (s : Mud) (h : s.connState ≠ .init)
    (hsmall : ∃ p ∈ ps, p.bytes.length ≤ mqttBufSize.toNat) :
    (handled s).length < (handled (ps.foldl (alone env) s)).length := by
  induction ps generalizing s with
  | nil =>
    obtain ⟨p, hp, -⟩ := hsmall
    exact (List.not_mem_nil hp).elim
  | cons p ps ih =>
    by_cases hmax : mqttBufSize.toNat < p.bytes.length
    · obtain ⟨q, hq, hqs⟩ := hsmall
      rw [List.foldl_cons, alone, if_pos hmax]
      obtain rfl | hq := List.mem_cons.mp hq
      · omega
      · exact ih s h ⟨q, hq, hqs⟩
    · refine Nat.lt_of_lt_of_le ?_ (handled_alone_le env ps (alone env s p))
      rw [alone, if_neg hmax, handled_packetEffect env p s h (by omega), List.length_append]
      exact Nat.lt_succ_self _

theorem alone_init (env : Env) (ps : List ServerPacket) (s : Mud) (h : s.connState = .init) :
    Same s (ps.foldl (alone env) s) := by
  induction ps generalizing s with
  | nil => exact ⟨rfl, rfl, rfl⟩
  | cons p ps ih =>
    rw [List.foldl_cons, alone]
    split_ifs
    · exact ih s h
    · rw [packetEffect_init env p s h]
      obtain ⟨h1, h2, h3⟩ := ih (withBuffer s) h
      exact ⟨h1, h2, h3⟩

theorem alone_effects (env : Env) (ps : List ServerPacket) (s : Mud)
    (h : ∀ p ∈ ps, p.bytes.length ≤ mqttBufSize.toNat) :
    ps.foldl (alone env) s = effects env ps s := by
  induction ps generalizing s with
  | nil => rfl
  | cons p ps ih =>
    have hp := h p List.mem_cons_self
    rw [List.foldl_cons, alone, if_neg (by omega), ih _ fun q hq => h q (List.mem_cons_of_mem p hq)]
    rfl

theorem handled_effects_data (env : Env) (ps : List ServerPacket) (s : Mud)
    (h : s.connState = .data) (hmax : ∀ p ∈ ps, p.bytes.length ≤ mqttBufSize.toNat) :
    handled (effects env ps s) = handled s ++ ps.map ServerPacket.bytes := by
  induction ps generalizing s with
  | nil => exact (List.append_nil _).symm
  | cons p ps ih =>
    have hp := handled_packetEffect env p s (by rw [h]; decide) (hmax p List.mem_cons_self)
    rw [effects, List.foldl_cons]
    refine (ih (packetEffect env p s) (packetEffect_data env p s h)
      fun q hq => hmax q (List.mem_cons_of_mem p hq)).trans ?_
    rw [hp, List.append_assoc]
    rfl

theorem length_le_of_mem (ps : List ServerPacket) (p : ServerPacket) (h : p ∈ ps) :
    p.bytes.length ≤ (stream ps).length := by
  induction ps with
  | nil => exact (List.not_mem_nil h).elim
  | cons q ps ih =>
    rw [stream_cons]
    obtain rfl | h := List.mem_cons.mp h
    · omega
    · have := ih h
      omega

theorem heard_isPrefix (ps : List ServerPacket) : heard ps <+: ps := by
  induction ps with
  | nil => exact List.prefix_refl []
  | cons p ps ih =>
    rw [heard]
    split_ifs
    · exact List.prefix_cons_inj p |>.mpr ih
    · exact List.prefix_cons_inj p |>.mpr (List.nil_prefix)

/-- All of a segment is heard when only the last packet is not a publication. -/
theorem heard_eq_iff (ps : List ServerPacket) :
    heard ps = ps ↔ ∀ p ∈ ps.dropLast, p.type = .publish := by
  induction ps with
  | nil => simp [heard]
  | cons p ps ih =>
    cases ps with
    | nil => simp [heard]
    | cons q ps =>
      rw [heard, List.dropLast_cons_cons, List.forall_mem_cons, ← ih]
      by_cases ht : p.type = .publish
      · simp only [ht, if_true, List.cons.injEq, true_and]
      · simp only [ht, if_false, false_and, iff_false]
        intro hx
        simp at hx

/-- When a segment of several packets does what the packets would do one by one. -/
def AsAlone (s : Mud) (ps : List ServerPacket) : Prop :=
  s.connState = .init ∨
    ((stream ps).length ≤ mqttBufSize.toNat ∧ (ps.length ≤ 1 ∨
      (s.connState ≠ .data ∧ ∀ p ∈ ps.head?, ¬p.Accepted) ∨
      (s.connState = .data ∧ ∀ p ∈ ps.dropLast, p.type = .publish))) ∨
    (mqttBufSize.toNat < (stream ps).length ∧
      ∀ p ∈ ps, mqttBufSize.toNat < p.bytes.length)

section Compare

variable (env : Env) (ps : List ServerPacket) (s : Mud)

/-- A segment that is too long is dropped with all its packets. -/
theorem together_long (h : s.connState ≠ .init) (hmax : mqttBufSize.toNat < (stream ps).length) :
    Same (together env ps s) (ps.foldl (alone env) s) ↔
      ∀ p ∈ ps, mqttBufSize.toNat < p.bytes.length := by
  rw [together, if_pos hmax]
  constructor
  · intro hsame p hp
    by_contra hsmall
    have hlt := handled_alone_lt env ps s h ⟨p, hp, by omega⟩
    rw [← hsame.handled] at hlt
    exact Nat.lt_irrefl _ hlt
  · intro hlong
    have hid : ps.foldl (alone env) s = s := by
      clear hmax
      induction ps with
      | nil => rfl
      | cons p ps ih =>
        rw [List.foldl_cons, alone, if_pos (hlong p List.mem_cons_self)]
        exact ih fun q hq => hlong q (List.mem_cons_of_mem p hq)
    rw [hid]
    exact ⟨rfl, rfl, rfl⟩

theorem together_data (h : s.connState = .data) (hmax : (stream ps).length ≤ mqttBufSize.toNat) :
    Same (together env ps s) (ps.foldl (alone env) s) ↔ ∀ p ∈ ps.dropLast, p.type = .publish := by
  have hsmall : ∀ p ∈ ps, p.bytes.length ≤ mqttBufSize.toNat := fun p hp =>
    (length_le_of_mem ps p hp).trans hmax
  rw [together, if_neg (by omega), if_pos h, alone_effects env ps s hsmall, ← heard_eq_iff]
  constructor
  · intro hsame
    have hh := hsame.handled
    rw [handled_effects_data env ps s h hsmall, handled_effects_data env (heard ps) s h
      fun p hp => hsmall p ((heard_isPrefix ps).subset hp)] at hh
    have hlen := congrArg List.length (List.append_cancel_left hh)
    simp only [List.length_map] at hlen
    exact (heard_isPrefix ps).eq_of_length hlen
  · intro heq
    rw [heq]
    exact ⟨rfl, rfl, rfl⟩

theorem together_connect (h : s.connState ≠ .init) (h' : s.connState ≠ .data)
    (hmax : (stream ps).length ≤ mqttBufSize.toNat) :
    Same (together env ps s) (ps.foldl (alone env) s) ↔
      ps.length ≤ 1 ∨ ∀ p ∈ ps.head?, ¬p.Accepted := by
  have hsmall : ∀ p ∈ ps, p.bytes.length ≤ mqttBufSize.toNat := fun p hp =>
    (length_le_of_mem ps p hp).trans hmax
  rw [together, if_neg (by omega), if_neg h']
  cases ps with
  | nil => exact iff_of_true ⟨rfl, rfl, rfl⟩ (.inl (Nat.zero_le 1))
  | cons p ps =>
    have hp := hsmall p List.mem_cons_self
    have hrest : (p :: ps).foldl (alone env) s = ps.foldl (alone env) (packetEffect env p s) := by
      rw [List.foldl_cons, alone, if_neg (by omega)]
    have hone : effects env ((p :: ps).take 1) s = packetEffect env p s := rfl
    rw [hrest, hone]
    obtain ⟨hacc, hrej⟩ := packetEffect_connect env p s h h'
    simp only [List.head?_cons, Option.mem_def, Option.some.injEq, forall_eq', List.length_cons]
    by_cases ha : p.Accepted
    · cases ps with
      | nil => exact iff_of_true ⟨rfl, rfl, rfl⟩ (.inl (Nat.le_refl 1))
      | cons q ps =>
        refine iff_of_false (fun hsame => ?_) (by simp [ha])
        have hlt := handled_alone_lt env (q :: ps) (packetEffect env p s)
          (by rw [hacc ha]; decide) ⟨q, List.mem_cons_self, hsmall q (by simp)⟩
        rw [← hsame.handled] at hlt
        exact Nat.lt_irrefl _ hlt
    · exact iff_of_true (alone_init env ps _ (hrej ha)) (.inr ha)

theorem together_init (h : s.connState = .init) : Same s (together env ps s) := by
  have hn : ¬s.connState = .data := by rw [h]; decide
  rw [together, if_neg hn]
  split_ifs
  · exact ⟨rfl, rfl, rfl⟩
  · cases ps with
    | nil => exact ⟨rfl, rfl, rfl⟩
    | cons p ps =>
      have hone : effects env ((p :: ps).take 1) s = packetEffect env p s := rfl
      rw [hone, packetEffect_init env p s h]
      exact ⟨rfl, rfl, rfl⟩

theorem together_iff : Same (together env ps s) (ps.foldl (alone env) s) ↔ AsAlone s ps := by
  rw [AsAlone]
  by_cases h : s.connState = .init
  · exact iff_of_true ((together_init env ps s h).symm.trans (alone_init env ps s h)) (.inl h)
  by_cases hmax : mqttBufSize.toNat < (stream ps).length
  · rw [together_long env ps s h hmax]
    simp only [h, hmax, false_or, true_and, not_le.mpr hmax, false_and]
  by_cases h' : s.connState = .data
  · have hone : ps.length ≤ 1 → ∀ p ∈ ps.dropLast, p.type = .publish := by
      intro hl p hp
      have := List.length_pos_of_mem hp
      rw [List.length_dropLast] at this
      omega
    rw [together_data env ps s h' (by omega)]
    simp only [h', hmax, not_lt.mp hmax, false_and, or_false, true_and, ne_eq, not_true_eq_false,
      false_or, reduceCtorEq]
    exact ⟨.inr, fun hx => hx.elim hone id⟩
  · rw [together_connect env ps s h h' (by omega)]
    simp only [h, h', hmax, not_lt.mp hmax, false_or, true_and, false_and, or_false, ne_eq,
      not_false_eq_true]

end Compare

theorem same_iff (env : Env) (behind : Mem) (ps : List ServerPacket) (s t u : Mud)
    (ht : receivedBytes env behind (stream ps) s = some t)
    (hu : receivedAlone env behind ps s = some u) : Same t u ↔ AsAlone s ps := by
  obtain ⟨t', ht', hqt⟩ := receivedBytes_together env behind ps s
  obtain ⟨u', hu', hqu⟩ := receivedAlone_quiet env behind ps s
  rw [ht, Option.some.injEq] at ht'
  rw [hu, Option.some.injEq] at hu'
  rw [← same_quiet, ht', hu', hqt, hqu]
  exact together_iff env ps (quiet s)

end NodeMcu.Mqtt.Segments
