import NodeMcu.Mqtt.Runs

namespace NodeMcu.Mqtt.Acknowledgements

open NodeMcu.Lib.Memory NodeMcu.Lib.Reading NodeMcu.Lib.Run
open NodeMcu.Mqtt.Msg NodeMcu.Mqtt.Client NodeMcu.Mqtt.Handlers NodeMcu.Mqtt.Runs

/-! ## The protocol -/

/-- The packet that alone may end a message. Other messages may leave in any way. -/
def endedBy (node : MsgQueue) : Option MqttMessageType :=
  match node.msgType with
  | .publish =>
    if node.publishQos = 1 then some .puback
    else if node.publishQos = 2 then some .pubrec
    else none
  | .pubrel => some .pubcomp
  | .subscribe => some .suback
  | .unsubscribe => some .unsuback
  | _ => none

/-- A message leaves the queue through the packet that may end it, with its own id. -/
def Through (node : MsgQueue) (cause : Cause) : Prop :=
  ∀ type, endedBy node = some type → cause = .acknowledgement type node.msgId

/-- A publication that a PUBREC takes from the queue is at once followed there by its release,
with the id of the PUBREC. -/
def Released (es : List Effect) : Prop :=
  ∀ pre node msgId post, es = pre ++ .removed node (.acknowledgement .pubrec msgId) :: post →
    node.publishQos = 2 → ∃ rel post', post = .queued rel :: post' ∧ rel.msgType = .pubrel ∧
      rel.msgId = msgId ∧ rel.origin = node.origin

def publishedOrigin : Effect → Option Nat
  | .published node => some node.origin
  | _ => none

/-- The messages of the application of which it was told that they are published. -/
def publishedOrigins (es : List Effect) : List Nat := es.filterMap publishedOrigin

structure Protocol (es : List Effect) : Prop where
  through : ∀ node cause, .removed node cause ∈ es → Through node cause
  released : Released es
  once : (publishedOrigins es).Nodup

/-- No event timeout expires. -/
def Timely (s : Mud) : Event → Prop
  | .tick => s.eventTimeout ≠ 1
  | _ => True

/-- The release of a publication. -/
def releaseNode (env : Env) (b : Mem) (l : Nat) (s : Mud) (node : MsgQueue) : MsgQueue :=
  answerNode (fun c => mqttMsgPubrel c (UInt16.ofNat (packetId env b l))) .pubrel
    (packetId env b l) node.origin (atPacket env b l s)

/-- An acknowledgement is that of the head's quality of service, and there is memory for the
release that a PUBREC asks for. -/
def Expected (env : Env) (b : Mem) (l : Nat) (s : Mud) (node : MsgQueue)
    (rest : List MsgQueue) : Prop :=
  ((mqttGetType b).val = some .puback → node.publishQos ≠ 2) ∧
    ((mqttGetType b).val = some .pubrec → node.publishQos ≠ 1 ∧
      (node.publishQos = 2 → env.zalloc rest (releaseNode env b l s node)))

/-- The loop over a segment only arrives at expected acknowledgements of the head. -/
def Orderly (env : Env) (s : Mud) : Event → Prop
  | .received b l => s.connState = .data → 0 < l → l ≤ mqttBufSize.toNat →
    ∀ b' l' t node rest, Arrives env b l s b' l' t → t.pendingMsgQ = node :: rest →
      Acknowledges (mqttGetType b').val (packetId env b' l') node →
      Expected env b' l' t node rest
  | _ => True

/-! ## What keeps the protocol -/

theorem publishedOrigins_quiet (es : List Effect) (h : ∀ e ∈ es, Quiet e) :
    publishedOrigins es = [] := by
  refine List.filterMap_eq_nil_iff.mpr fun e he => ?_
  have hq := h e he
  cases e with
  | published node => exact hq.elim
  | _ => rfl

theorem publishedOrigins_append (es fs : List Effect) :
    publishedOrigins (es ++ fs) = publishedOrigins es ++ publishedOrigins fs :=
  List.filterMap_append

theorem released_append {es fs : List Effect} (h : Released es) (hf : Released fs) :
    Released (es ++ fs) := by
  intro pre node msgId post heq hqos
  obtain ⟨mid, rfl, hfs⟩ | ⟨mid, hes, hfs⟩ := List.append_eq_append_iff.mp heq
  · exact hf mid node msgId post hfs hqos
  · cases mid with
    | nil => exact hf [] node msgId post hfs.symm hqos
    | cons x mid =>
      obtain ⟨rfl, rfl⟩ := List.cons.inj hfs
      obtain ⟨rel, post', rfl, hr⟩ := h pre node msgId mid hes hqos
      exact ⟨rel, post' ++ fs, rfl, hr⟩

/-- Effects that take nothing from the queue. -/
theorem released_of_not_removed {es : List Effect}
    (h : ∀ node cause, .removed node cause ∉ es) : Released es := by
  rintro pre node msgId post rfl -
  exact (h node _ (List.mem_append_right _ List.mem_cons_self)).elim

/-- Every message of the queue has a number of its own, and none of them is known to be
published. -/
structure Fresh (s : Mud) : Prop where
  nodup : (s.pendingMsgQ.map (·.origin) ++ publishedOrigins s.effects).Nodup
  bound : ∀ o ∈ s.pendingMsgQ.map (·.origin) ++ publishedOrigins s.effects, o < s.queued

theorem fresh_appends {s t : Mud} (h : Fresh s) (ha : Appends s t) : Fresh t := by
  obtain ⟨nodes, es, hq, he, hes, hns, hn⟩ := ha.more
  have hp : publishedOrigins t.effects = publishedOrigins s.effects := by
    rw [he, publishedOrigins_append, publishedOrigins_quiet es hes, List.append_nil]
  have hperm : (t.pendingMsgQ.map (·.origin) ++ publishedOrigins t.effects).Perm
      ((s.pendingMsgQ.map (·.origin) ++ publishedOrigins s.effects) ++
        List.range' s.queued nodes.length) := by
    rw [hq, hp, List.map_append, hns, List.append_assoc, List.append_assoc]
    exact List.Perm.append_left _ List.perm_append_comm
  constructor
  · rw [hperm.nodup_iff, List.nodup_append]
    refine ⟨h.nodup, List.nodup_range', fun o ho o' ho' => ?_⟩
    have := h.bound o ho
    have := (List.mem_range'_1.mp ho').1
    omega
  · intro o ho
    obtain ho | ho := List.mem_append.mp (hperm.mem_iff.mp ho)
    · have := h.bound o ho
      omega
    · have := (List.mem_range'_1.mp ho).2
      omega

theorem fresh_removes {s t : Mud} {cause : Cause} {node : MsgQueue} (h : Fresh s)
    (hr : Removes cause node s t) : Fresh t := by
  obtain ⟨rest, nodes, es, hq, hq', he, hf, hn⟩ := hr.removed
  obtain ⟨hnd, hb⟩ := h
  rw [hq, List.map_cons, List.cons_append] at hnd hb
  have hrest := (List.nodup_cons.mp hnd).2
  have hp : publishedOrigins t.effects = publishedOrigins s.effects ++ publishedOrigins es := by
    rw [he, publishedOrigins_append]
    rfl
  -- the number of the message stays with what follows it, or is given up
  have hperm : ∃ os, (t.pendingMsgQ.map (·.origin) ++ publishedOrigins t.effects).Perm
      (os ++ (rest.map (·.origin) ++ publishedOrigins s.effects)) ∧
      (os = [] ∨ os = [node.origin] ∨ (os = [s.queued] ∧ nodes.length = 1)) := by
    cases hf with
    | nothing =>
      refine ⟨[], ?_, .inl rfl⟩
      rw [hq', hp, List.append_nil, show publishedOrigins [] = [] from rfl, List.append_nil,
        List.nil_append]
    | call e hc =>
      obtain rfl | rfl | rfl := hc
      · refine ⟨[], ?_, .inl rfl⟩
        rw [hq', hp, List.append_nil, show publishedOrigins [.suback] = [] from rfl,
          List.append_nil, List.nil_append]
      · refine ⟨[], ?_, .inl rfl⟩
        rw [hq', hp, List.append_nil, show publishedOrigins [.unsuback] = [] from rfl,
          List.append_nil, List.nil_append]
      · refine ⟨[node.origin], ?_, .inr (.inl rfl)⟩
        rw [hq', hp, List.append_nil, ← List.append_assoc]
        exact List.perm_append_comm
    | answer next ho =>
      refine ⟨[next.origin], ?_, ?_⟩
      · rw [hq', hp, List.map_append, List.append_assoc]
        rw [show publishedOrigins [.queued next] = [] from rfl, List.append_nil]
        exact List.perm_append_comm_assoc _ _ _
      · obtain ho | ho := ho
        · exact .inr (.inl (by rw [ho]))
        · exact .inr (.inr ⟨by rw [ho], rfl⟩)
  obtain ⟨os, hperm, hos⟩ := hperm
  constructor
  · rw [hperm.nodup_iff]
    obtain rfl | rfl | ⟨rfl, -⟩ := hos
    · exact hrest
    · exact hnd
    · refine List.nodup_cons.mpr ⟨fun hm => ?_, hrest⟩
      exact Nat.lt_irrefl _ (hb _ (List.mem_cons_of_mem _ hm))
  · intro o ho
    obtain ho | ho := List.mem_append.mp (hperm.mem_iff.mp ho)
    · obtain rfl | rfl | ⟨rfl, hl⟩ := hos
      · cases ho
      · obtain rfl := List.mem_singleton.mp ho
        have := hb _ List.mem_cons_self
        omega
      · obtain rfl := List.mem_singleton.mp ho
        omega
    · have := hb o (List.mem_cons_of_mem _ ho)
      omega

/-- The invariant of a run. -/
structure Invariant (s : Mud) : Prop where
  fresh : Fresh s
  protocol : Protocol s.effects

theorem once_of_fresh {s : Mud} (h : Fresh s) : (publishedOrigins s.effects).Nodup :=
  (List.nodup_append.mp h.nodup).2.1

theorem invariant_appends {s t : Mud} (h : Invariant s) (ha : Appends s t) : Invariant t := by
  have hfresh := fresh_appends h.fresh ha
  obtain ⟨nodes, es, -, he, hes, -⟩ := ha.more
  have hnot : ∀ node cause, .removed node cause ∉ es := fun node cause hm => hes _ hm
  refine ⟨hfresh, ⟨fun node cause hm => ?_, ?_, once_of_fresh hfresh⟩⟩
  · rw [he] at hm
    obtain hm | hm := List.mem_append.mp hm
    · exact h.protocol.through node cause hm
    · exact (hnot node cause hm).elim
  · rw [he]
    exact released_append h.protocol.released (released_of_not_removed hnot)

theorem not_removed_of_follows {node : MsgQueue} {queued : Nat} {nodes : List MsgQueue}
    {es : List Effect} (h : Follows node queued nodes es) (node' : MsgQueue) (cause : Cause) :
    .removed node' cause ∉ es := by
  cases h with
  | nothing => exact List.not_mem_nil
  | answer next => simp
  | call e hc => rcases hc with rfl | rfl | rfl <;> simp

/-- The head leaves through its packet, and its release follows where it is due. -/
theorem invariant_removes {s t : Mud} {cause : Cause} {node : MsgQueue} (h : Invariant s)
    (hr : Removes cause node s t) (ht : Through node cause)
    (hrel : ∀ msgId, cause = .acknowledgement .pubrec msgId → node.publishQos = 2 →
      ∃ rel, t.effects = s.effects ++ [.removed node cause, .queued rel] ∧
        rel.msgType = .pubrel ∧ rel.msgId = msgId ∧ rel.origin = node.origin) :
    Invariant t := by
  have hfresh := fresh_removes h.fresh hr
  obtain ⟨rest, nodes, es, -, -, he, hf, -⟩ := hr.removed
  have hnot := not_removed_of_follows hf
  refine ⟨hfresh, ⟨fun node' cause' hm => ?_, ?_, once_of_fresh hfresh⟩⟩
  · rw [he, List.mem_append, List.mem_cons] at hm
    obtain hm | hm | hm := hm
    · exact h.protocol.through node' cause' hm
    · obtain ⟨rfl, rfl⟩ := Effect.removed.inj hm
      exact ht
    · exact (hnot node' cause' hm).elim
  · rw [he]
    refine released_append h.protocol.released fun pre node' msgId post heq hqos => ?_
    cases pre with
    | nil =>
      obtain ⟨h1, rfl⟩ := List.cons.inj heq
      obtain ⟨rfl, rfl⟩ := Effect.removed.inj h1
      obtain ⟨rel, he', hrel⟩ := hrel msgId rfl hqos
      rw [he, List.append_cancel_left_eq] at he'
      exact ⟨rel, [], (List.cons.inj he').2, hrel⟩
    | cons x pre =>
      have hm : .removed node' (.acknowledgement .pubrec msgId) ∈ es := by
        rw [(List.cons.inj heq).2]
        exact List.mem_append_right _ List.mem_cons_self
      exact (hnot node' _ hm).elim

theorem send_quiet (env : Env) (s : Mud) (h : Invariant s) :
    Invariant (mqttSendIfPossible env s).2 := by
  rw [mqttSendIfPossible]
  split_ifs
  · unfold msgPeek
    cases hq : s.pendingMsgQ.head? with
    | none => exact h
    | some node =>
      have hp : publishedOrigins (s.effects ++ [.send node]) = publishedOrigins s.effects := by
        rw [publishedOrigins_append]
        exact List.append_nil _
      have hnot : ∀ node' cause, Effect.removed node' cause ∉ [Effect.send node] := by simp
      refine ⟨⟨?_, ?_⟩, ⟨fun node' cause hm => ?_, ?_, ?_⟩⟩
      · simp only [hp]
        exact h.fresh.nodup
      · simp only [hp]
        exact h.fresh.bound
      · obtain hm | hm := List.mem_append.mp hm
        · exact h.protocol.through node' cause hm
        · exact (hnot node' cause hm).elim
      · exact released_append h.protocol.released (released_of_not_removed hnot)
      · rw [hp]
        exact h.protocol.once
  · exact h

theorem invariant_outcome (env : Env) {s t : Mud} (h : Invariant s) (ho : Outcome env s t) :
    Invariant t := by
  cases ho with
  | stays more => exact invariant_appends h more
  | sends u more _ sent =>
    rw [sent]
    exact send_quiet env u (invariant_appends h more)

/-! ## Acknowledgements that are expected -/

section Packet

variable (env : Env) (b : Mem) (l : Nat) (s : Mud) (node : MsgQueue) (rest : List MsgQueue)

/-- What a PUBREC of the head leaves in the record. -/
theorem readPacket_pubrec (h : s.connState = .data) (hq : s.pendingMsgQ = node :: rest)
    (ha : Acknowledges (mqttGetType b).val (packetId env b l) node)
    (hp : (mqttGetType b).val = some .pubrec) :
    (readPacket env b l s).val.1.effects = (atPacket env b l s).effects ++
      .removed node (.acknowledgement .pubrec (packetId env b l)) ::
        if env.zalloc rest (releaseNode env b l s node) then
          [.queued (releaseNode env b l s node)]
        else [] := by
  have hf : Fits .publish (packetId env b l) node := by
    rw [hp] at ha
    exact ⟨(Option.some.inj ha.1).symm, ha.2⟩
  have hqat : (atPacket env b l s).pendingMsgQ = node :: rest := hq
  have hlen := acknowledgement_length .pubrel 1 (atPacket env b l s).mqttConnection
    (UInt16.ofNat (packetId env b l)) rfl
  rw [readPacket_other env b l s h (not_publish_of_acknowledges ha), hp]
  simp only [handlePacket, handlePubrec]
  rw [acknowledge_head _ _ _ _ _ node rest hqat hf, msgDequeue_cons _ _ node rest hqat]
  simp only [respond, msgEnqueue, mqttMsgPubrel, hlen]
  rw [if_neg (by decide)]
  by_cases hz : env.zalloc rest (releaseNode env b l s node) = true
  · have hz' := hz
    simp only [releaseNode, answerNode, mqttMsgPubrel, hlen] at hz'
    rw [if_pos hz]
    simp only [Option.getD_some]
    rw [if_pos hz']
    simp [releaseNode, answerNode, mqttMsgPubrel, hlen]
  · have hz' := hz
    simp only [releaseNode, answerNode, mqttMsgPubrel, hlen] at hz'
    rw [if_neg hz]
    simp only [Option.getD_some]
    rw [if_neg hz']

theorem through_of_expected (type : MqttMessageType) (ht : (mqttGetType b).val = some type)
    (ha : Acknowledges (mqttGetType b).val (packetId env b l) node)
    (he : Expected env b l s node rest) :
    Through node (.acknowledgement type (packetId env b l)) := by
  obtain ⟨hpuback, hpubrec⟩ := he
  obtain ⟨hexp, hid⟩ := ha
  rw [ht] at hexp hpuback hpubrec
  intro type' hend
  rw [hid]
  congr 1
  have hexp' : expectedType type = some node.msgType := hexp
  rw [endedBy] at hend
  cases type with
  | publish | pingreq | connect | connack | subscribe | unsubscribe | pingresp | disconnect =>
    cases hexp'
  | suback | unsuback | pubcomp =>
    rw [← Option.some.inj hexp'] at hend
    exact Option.some.inj hend
  | pubrel =>
    rw [← Option.some.inj hexp'] at hend
    cases hend
  | puback =>
    rw [← Option.some.inj hexp'] at hend
    have h2 := hpuback rfl
    simp only [if_neg h2] at hend
    split_ifs at hend
    exact Option.some.inj hend
  | pubrec =>
    rw [← Option.some.inj hexp'] at hend
    have h1 := (hpubrec rfl).1
    simp only [if_neg h1] at hend
    split_ifs at hend
    exact Option.some.inj hend

end Packet

/-! ## The events of a run -/

theorem invariant_received (env : Env) (b : Mem) (l : Nat) {s u : Mud} (h : Invariant s)
    (ho : Orderly env s (.received b l)) (hu : Handled env b l s u) : Invariant u := by
  cases hu with
  | ignored => exact h
  | notConnected hs => exact send_quiet env _ (invariant_appends h (withBuffer_appends s))
  | answered hw v ha => exact send_quiet env _ (invariant_appends h ha.more)
  | data hs hl hmax b' l' t ha hlast =>
    obtain ⟨more, same⟩ := arrives_appends ha hs
    have hts : t.connState = .data := same.connState.trans hs
    have hI := invariant_appends h more
    by_cases hn : ∀ node ∈ t.pendingMsgQ.head?,
        ¬Acknowledges (mqttGetType b').val (packetId env b' l') node
    · exact send_quiet env _ (invariant_appends hI (readPacket_appends env b' l' t hts hn))
    · simp only [not_forall, not_not] at hn
      obtain ⟨node, hhead, hack⟩ := hn
      obtain ⟨rest, hq⟩ : ∃ rest, t.pendingMsgQ = node :: rest := by
        cases hq : t.pendingMsgQ with
        | nil => simp [hq] at hhead
        | cons x rest =>
          obtain rfl : x = node := by simpa [hq] using hhead
          exact ⟨rest, rfl⟩
      have hexp := ho hs hl hmax b' l' t node rest ha hq hack
      obtain ⟨type, htype, hr⟩ := readPacket_removes env b' l' t hts node rest hq hack
      refine send_quiet env _ (invariant_removes
        (invariant_appends hI (atPacket_appends env b' l' t)) hr
        (through_of_expected env b' l' t node rest type htype hack hexp) ?_)
      intro msgId hcause hqos
      obtain ⟨rfl, rfl⟩ := Cause.acknowledgement.inj hcause
      refine ⟨releaseNode env b' l' t node, ?_, rfl, rfl, rfl⟩
      rw [readPacket_pubrec env b' l' t node rest hts hq hack htype,
        if_pos ((hexp.2 htype).2 hqos)]

theorem invariant_sent (env : Env) {s u : Mud} (h : Invariant s) (hu : Sent env s u) :
    Invariant u := by
  have hat : Appends s (afterSent s) := .of_eq rfl rfl rfl
  cases hu with
  | disconnected => exact invariant_appends h (.of_eq rfl rfl rfl)
  | connect hs => exact invariant_appends h (.of_eq rfl rfl rfl)
  | kept hs => exact invariant_appends h hat
  | forgotten hs node v hf hr same =>
    refine send_quiet env v (invariant_removes (invariant_appends h hat) hr ?_ ?_)
    · intro type hend
      rw [endedBy] at hend
      obtain ⟨ht, hqos⟩ | ht | ht | ht := hf
      · simp [ht, hqos] at hend
      all_goals
        rw [ht] at hend
        cases hend
    · intro msgId hcause
      cases hcause

theorem invariant_timer (env : Env) {s : Mud} (h : Invariant s) (ht : s.eventTimeout ≠ 1) :
    Invariant (mqttSocketTimer env s) := by
  rw [mqttSocketTimer_eq env s ht]
  split_ifs with h0
  · by_cases hw : Waiting s
    · exact invariant_appends h (timerStates_waiting env s hw)
    · exact invariant_outcome env h (timerStates_outcome env s hw)
  · exact invariant_appends h (.of_eq rfl rfl rfl)

theorem invariant_handle (env : Env) (event : Event) {s u : Mud} (h : Invariant s)
    (ht : Timely s event) (ho : Orderly env s event) (hu : handle env event s = some u) :
    Invariant u := by
  cases event with
  | received b l => exact invariant_received env b l h ho (received_handled env b l s u hu)
  | sent =>
    obtain rfl := Option.some.inj hu
    exact invariant_sent env h (mqttSocketSent_sent env s)
  | tick =>
    obtain rfl := Option.some.inj hu
    exact invariant_timer env h ht
  | publish topic payload qos retain callback =>
    obtain rfl := Option.some.inj hu
    exact invariant_outcome env h (mqttSocketPublish_outcome env _ _ _ _ _ s)
  | subscribe topics callback =>
    obtain rfl := Option.some.inj hu
    exact invariant_outcome env h (mqttSocketSubscribe_outcome env _ _ s)
  | unsubscribe topics callback =>
    obtain rfl := Option.some.inj hu
    exact invariant_outcome env h (mqttSocketUnsubscribe_outcome env _ _ s)

theorem send_effects (env : Env) (s : Mud) :
    ∃ sends, (mqttSendIfPossible env s).2.effects = s.effects ++ sends ∧
      ∀ e ∈ sends, ∃ node, e = .send node := by
  rw [mqttSendIfPossible]
  split_ifs
  · cases msgPeek s with
    | none => exact ⟨[], by simp⟩
    | some node => exact ⟨[.send node], by simp⟩
  · exact ⟨[], by simp⟩

/-- An acknowledgement that is not expected breaks the protocol. -/
theorem expected_of_protocol (env : Env) (b : Mem) (l : Nat) (s : Mud) (node : MsgQueue)
    (rest : List MsgQueue) (h : s.connState = .data) (hq : s.pendingMsgQ = node :: rest)
    (ha : Acknowledges (mqttGetType b).val (packetId env b l) node)
    (hp : Protocol (mqttSendIfPossible env (readPacket env b l s).val.1).2.effects) :
    Expected env b l s node rest := by
  obtain ⟨sends, hsends, hnode⟩ := send_effects env (readPacket env b l s).val.1
  rw [hsends] at hp
  obtain ⟨type, htype, hr⟩ := readPacket_removes env b l s h node rest hq ha
  obtain ⟨_, _, es, -, -, he, -⟩ := hr.removed
  have hpublish : expectedType type = some .publish → node.msgType = .publish := by
    intro hexp
    have h1 := ha.1
    rw [htype] at h1
    exact (Option.some.inj (hexp.symm.trans h1)).symm
  have hthrough : Through node (.acknowledgement type (packetId env b l)) := by
    refine hp.through node _ (List.mem_append_left _ ?_)
    rw [he]
    simp
  refine ⟨fun hpuback hqos => ?_, fun hpubrec => ⟨fun hqos => ?_, fun hqos => ?_⟩⟩
  · obtain rfl := Option.some.inj (htype.symm.trans hpuback)
    have hend : endedBy node = some .pubrec := by
      simp [endedBy, hpublish rfl, hqos]
    cases hthrough _ hend
  · obtain rfl := Option.some.inj (htype.symm.trans hpubrec)
    have hend : endedBy node = some .puback := by
      simp [endedBy, hpublish rfl, hqos]
    cases hthrough _ hend
  · by_contra hz
    have hrec := readPacket_pubrec env b l s node rest h hq ha hpubrec
    rw [if_neg hz] at hrec
    rw [hrec, List.append_assoc] at hp
    obtain ⟨rel, post, hpost, -⟩ := hp.released _ node _ _ rfl hqos
    have hmem : .queued rel ∈ sends := by
      rw [show sends = .queued rel :: post from hpost]
      exact List.mem_cons_self
    obtain ⟨_, hsend⟩ := hnode _ hmem
    cases hsend

theorem orderly_of_protocol (env : Env) (event : Event) (s : Mud)
    (h : ∀ u, handle env event s = some u → Protocol u.effects) : Orderly env s event := by
  cases event with
  | received b l =>
    intro hs hl hmax b' l' t node rest ha hq hack
    have hret := received_of_arrives env ha (last_of_acknowledges env hack) hs hl hmax l
      (Nat.le_refl l)
    exact expected_of_protocol env b' l' t node rest
      ((arrives_appends ha hs).2.connState.trans hs) hq hack (h _ hret)
  | publish | subscribe | unsubscribe | sent | tick => trivial

/-- A client whose queued messages have numbers of their own. -/
def Numbered (s : Mud) : Prop :=
  (s.pendingMsgQ.map (·.origin)).Nodup ∧ ∀ o ∈ s.pendingMsgQ.map (·.origin), o < s.queued

theorem invariant_connected (s : Mud) (h : Numbered s) : Invariant (connected s) := by
  have hp : publishedOrigins (connected s).effects = [] := rfl
  refine ⟨⟨?_, ?_⟩, ⟨fun node cause hm => ?_, released_of_not_removed fun node cause hm => ?_, ?_⟩⟩
  · rw [hp, List.append_nil]
    exact h.1
  · rw [hp, List.append_nil]
    exact h.2
  · simp [connected, mqttSocketConnected] at hm
  · simp [connected, mqttSocketConnected] at hm
  · rw [hp]
    exact List.nodup_nil

/-- The events of a connection keep the protocol exactly when all acknowledgements of the head
are expected: no PUBACK for a publication of quality of service 2 and no PUBREC for one of 1. -/
theorem protocol_iff_orderly (start : Mud) (hn : Numbered start) (events : List (Env × Event))
    (h : Along step (Met fun s i => Timely s i.2) (some (connected start)) events) :
    Along step (fun s i => ∀ u, step s i = some u → Protocol u.effects)
        (some (connected start)) events ↔
      Along step (Met fun s i => Orderly i.1 s i.2) (some (connected start)) events := by
  refine along_congr_of step _ _ _ (fun o => ∀ t, o = some t → Invariant t) ?_ ?_ _ events ?_ h
  · rintro o ⟨env, event⟩ hI ht
    constructor
    · rintro hp t rfl
      exact orderly_of_protocol env event t hp
    · intro ho u hu
      cases o with
      | none => cases hu
      | some t => exact (invariant_handle env event (hI t rfl) (ht t rfl) (ho t rfl) hu).protocol
  · rintro o ⟨env, event⟩ hI ht hp u hu
    cases o with
    | none => cases hu
    | some t =>
      exact invariant_handle env event (hI t rfl) (ht t rfl) (orderly_of_protocol env event t hp) hu
  · intro t ht
    obtain rfl := Option.some.inj ht
    exact invariant_connected start hn

instance (s : Mud) : ∀ event, Decidable (Timely s event)
  | .tick => inferInstanceAs (Decidable (s.eventTimeout ≠ 1))
  | .publish _ _ _ _ _ | .subscribe _ _ | .unsubscribe _ _ | .received _ _ | .sent => isTrue trivial

instance (s : Mud) : Decidable (Numbered s) := instDecidableAnd

/-- A publication of quality of service 2 that is sent and answered by a PUBACK. -/
def wrongAnswer : List (Env × Event) :=
  [.sent, .received acceptance 4, .publish topicT [0x61] 2 0 false, .sent,
    .received firstPuback 4].map (plainEnv, ·)

/-- The publication. -/
def exactlyOnce : MsgQueue :=
  ⟨[0x34, 6, 0, 1, 0x74, 0, 1, 0x61], 1, .publish, 2, 0, 0⟩

theorem wrongAnswer_removes :
    (run step (some (connected listening)) wrongAnswer).map (fun s =>
      decide (.removed exactlyOnce (.acknowledgement .puback 1) ∈ s.effects)) = some true := by
  decide

/-- The PUBACK ends the publication, and no release follows. -/
theorem wrongAnswer_not_protocol :
    ∃ s, run step (some (connected listening)) wrongAnswer = some s ∧
      Along step (Met fun s i => Timely s i.2) (some (connected listening)) wrongAnswer ∧
      ¬Protocol s.effects := by
  obtain ⟨s, hs, hm⟩ := Option.map_eq_some_iff.mp wrongAnswer_removes
  refine ⟨s, hs, by decide, fun hp => ?_⟩
  have hend : endedBy exactlyOnce = some .pubrec := by decide
  cases hp.through exactlyOnce _ (of_decide_eq_true hm) _ hend

theorem wrongAnswer_not_orderly :
    ¬Along step (Met fun s i => Orderly i.1 s i.2) (some (connected listening)) wrongAnswer := by
  intro ho
  have h := (protocol_iff_orderly listening (by decide) wrongAnswer (by decide)).mpr ho
  obtain ⟨s, hs, hm⟩ := Option.map_eq_some_iff.mp wrongAnswer_removes
  have hend : endedBy exactlyOnce = some .pubrec := by decide
  cases (h.2.2.2.2.1 s hs).through exactlyOnce _ (of_decide_eq_true hm) _ hend

end NodeMcu.Mqtt.Acknowledgements
