import NodeMcu.Mqtt.Runs

namespace NodeMcu.Mqtt.Sending

open NodeMcu.Lib.Memory NodeMcu.Lib.Reading NodeMcu.Lib.Run
open NodeMcu.Mqtt.Msg NodeMcu.Mqtt.Client NodeMcu.Mqtt.Handlers NodeMcu.Mqtt.Runs

/-! ## Messages that end after they were sent -/

/-- The message leaves the queue, or the application is told that it was published. -/
def Ends (node : MsgQueue) (e : Effect) : Prop :=
  (∃ cause, e = .removed node cause) ∨ e = .published node

/-- No message comes to its end before it was sent. -/
def Handed (es : List Effect) : Prop :=
  ∀ pre e post node, es = pre ++ e :: post → Ends node e → .send node ∈ pre

theorem handed_append {es fs : List Effect} (h : Handed es)
    (hf : ∀ e ∈ fs, ∀ node, Ends node e → .send node ∈ es) : Handed (es ++ fs) := by
  intro pre e post node heq he
  obtain ⟨mid, rfl, hfs⟩ | ⟨mid, hes, hfs⟩ := List.append_eq_append_iff.mp heq
  · exact List.mem_append_left mid (hf e (by simp [hfs]) node he)
  · cases mid with
    | nil =>
      rw [List.append_nil] at hes
      rw [List.nil_append] at hfs
      rw [← hes]
      exact hf e (by simp [← hfs]) node he
    | cons x mid =>
      obtain ⟨rfl, rfl⟩ := List.cons.inj hfs
      exact h pre e mid node hes he

theorem not_ends_of_quiet {e : Effect} (h : Quiet e) (node : MsgQueue) : ¬Ends node e := by
  rintro (⟨cause, rfl⟩ | rfl) <;> exact h

theorem not_handed {es : List Effect} (node : MsgQueue) (cause : Cause)
    (hr : .removed node cause ∈ es) (hs : .send node ∉ es) : ¬Handed es := by
  intro h
  obtain ⟨pre, post, rfl⟩ := List.append_of_mem hr
  exact hs (List.mem_append_left _ (h pre _ post node rfl (.inl ⟨cause, rfl⟩)))

theorem handed_appends {s t : Mud} (h : Handed s.effects) (ha : Appends s t) :
    Handed t.effects := by
  obtain ⟨nodes, es, -, he, hes, -⟩ := ha.more
  rw [he]
  exact handed_append h fun e hm node hn => (not_ends_of_quiet (hes e hm) node hn).elim

/-- The head may leave the queue once it was sent. -/
theorem handed_removes {s t : Mud} {cause : Cause} {node : MsgQueue} (h : Handed s.effects)
    (hr : Removes cause node s t) (hs : .send node ∈ s.effects) : Handed t.effects := by
  obtain ⟨rest, nodes, es, -, -, he, hf, -⟩ := hr.removed
  rw [he]
  refine handed_append h fun e hm node' hn => ?_
  have hnode : node' = node := by
    obtain rfl | hm := List.mem_cons.mp hm
    · obtain ⟨_, hn⟩ | hn := hn
      · exact (Effect.removed.inj hn).1.symm
      · cases hn
    · cases hf with
      | nothing => cases hm
      | answer next =>
        obtain rfl := List.mem_singleton.mp hm
        rcases hn with ⟨_, hn⟩ | hn <;> cases hn
      | call e' hcall =>
        obtain rfl := List.mem_singleton.mp hm
        obtain ⟨_, rfl⟩ | rfl := hn
        · rcases hcall with hc | hc | hc <;> cases hc
        · obtain hc | hc | hc := hcall
          · cases hc
          · cases hc
          · exact Effect.published.inj hc
  rw [hnode]
  exact hs

/-! ## The invariant -/

def HeadSent (s : Mud) : Prop :=
  ∃ node rest, s.pendingMsgQ = node :: rest ∧ .send node ∈ s.effects

/-- While a client waits for the answer to its connection an event timeout runs, and the only
send under way is that of the connection. Else the head of the queue was sent, or the queue is
empty and no event timeout runs. -/
structure Invariant (s : Mud) : Prop where
  handed : Handed s.effects
  sending : s.connState = .connectSending → 0 < s.eventTimeout ∧ s.outstanding ≤ 1
  waiting : s.connState = .connectSent → 0 < s.eventTimeout ∧ s.outstanding = 0
  head : ¬Waiting s → HeadSent s ∨ (s.pendingMsgQ = [] ∧ s.eventTimeout = 0)

/-- In front of a send: nothing holds it back, or the head was sent. -/
structure Ready (s : Mud) : Prop where
  handed : Handed s.effects
  notWaiting : ¬Waiting s
  head : s.eventTimeout = 0 ∨ HeadSent s

theorem headSent_appends {s t : Mud} (h : HeadSent s) (ha : Appends s t) : HeadSent t := by
  obtain ⟨node, rest, hq, hs⟩ := h
  obtain ⟨nodes, es, hq', he, -⟩ := ha.more
  exact ⟨node, rest ++ nodes, by rw [hq', hq]; rfl, by rw [he]; exact List.mem_append_left _ hs⟩

theorem send_waits (env : Env) (s : Mud) (h : 0 < s.eventTimeout) :
    (mqttSendIfPossible env s).2 = s := by
  rw [mqttSendIfPossible, if_neg (by omega)]

theorem send_idle (env : Env) (s : Mud) (h : s.pendingMsgQ = []) :
    (mqttSendIfPossible env s).2 = s := by
  rw [mqttSendIfPossible]
  split_ifs
  · rw [msgPeek, h]
    rfl
  · rfl

theorem invariant_of_ready (env : Env) {s : Mud} (h : Ready s) :
    Invariant (mqttSendIfPossible env s).2 := by
  have hw1 : s.connState ≠ .connectSending := fun hs => h.notWaiting (.inl hs)
  have hw2 : s.connState ≠ .connectSent := fun hs => h.notWaiting (.inr hs)
  by_cases h0 : s.eventTimeout = 0
  · cases hq : s.pendingMsgQ with
    | nil =>
      rw [send_idle env s hq]
      exact ⟨h.handed, fun hs => (hw1 hs).elim, fun hs => (hw2 hs).elim,
        fun _ => .inr ⟨hq, h0⟩⟩
    | cons node rest =>
      simp only [mqttSendIfPossible, if_pos h0, msgPeek, hq, List.head?_cons]
      refine ⟨handed_append h.handed ?_, fun hs => (hw1 hs).elim, fun hs => (hw2 hs).elim,
        fun _ => .inl ⟨node, rest, rfl, by simp⟩⟩
      intro e he node' hn
      obtain rfl := List.mem_singleton.mp he
      rcases hn with ⟨_, hn⟩ | hn <;> cases hn
  · rw [send_waits env s (by omega)]
    exact ⟨h.handed, fun hs => (hw1 hs).elim, fun hs => (hw2 hs).elim,
      fun _ => .inl (h.head.resolve_left h0)⟩

theorem waiting_same {s t : Mud} (h : SameState s t) : Waiting t ↔ Waiting s := by
  rw [Waiting, Waiting, h.connState]

theorem ready_appends {s t : Mud} (h : Invariant s) (hw : ¬Waiting s) (ha : Appends s t)
    (same : SameState s t) : Ready t := by
  refine ⟨handed_appends h.handed ha, fun hw' => hw ((waiting_same same).mp hw'), ?_⟩
  obtain hs | ⟨-, h0⟩ := h.head hw
  · exact .inr (headSent_appends hs ha)
  · exact .inl (same.eventTimeout.trans h0)

theorem invariant_waiting {s t : Mud} (h : Invariant s) (hw : Waiting s) (ha : Appends s t)
    (same : SameState s t) : Invariant t := by
  refine ⟨handed_appends h.handed ha, fun hs => ?_, fun hs => ?_,
    fun hw' => (hw' ((waiting_same same).mpr hw)).elim⟩
  · rw [same.eventTimeout, same.outstanding]
    exact h.sending (same.connState.symm.trans hs)
  · rw [same.eventTimeout, same.outstanding]
    exact h.waiting (same.connState.symm.trans hs)

theorem timeout_of_waiting {s : Mud} (h : Invariant s) (hw : Waiting s) : 0 < s.eventTimeout := by
  obtain hs | hs := hw
  · exact (h.sending hs).1
  · exact (h.waiting hs).1

theorem invariant_outcome (env : Env) {s t : Mud} (h : Invariant s) (ho : Outcome env s t) :
    Invariant t := by
  by_cases hw : Waiting s
  · cases ho with
    | stays more same queue => exact invariant_waiting h hw more same
    | sends u more same sent =>
      have ht : 0 < u.eventTimeout := by
        rw [same.eventTimeout]
        exact timeout_of_waiting h hw
      rw [sent, send_waits env u ht]
      exact invariant_waiting h hw more same
  · cases ho with
    | sends u more same sent =>
      rw [sent]
      exact invariant_of_ready env (ready_appends h hw more same)
    | stays more same queue =>
      have hw' : ¬Waiting t := fun hw' => hw ((waiting_same same).mp hw')
      refine ⟨handed_appends h.handed more, fun hs => (hw' (.inl hs)).elim,
        fun hs => (hw' (.inr hs)).elim, fun _ => ?_⟩
      obtain hs | ⟨hq, h0⟩ := h.head hw
      · exact .inl (headSent_appends hs more)
      · exact .inr ⟨queue.trans hq, same.eventTimeout.trans h0⟩

theorem invariant_connected (s : Mud) : Invariant (connected s) := by
  refine ⟨?_, fun _ => ⟨Nat.succ_pos 4, by simp [connected, mqttSocketConnected]⟩,
    fun h => (by cases h), fun h => (h (.inl rfl)).elim⟩
  refine @handed_append [] [.connectSent] ?_ ?_
  · intro pre e post node h
    simp at h
  · intro e he node hn
    obtain rfl := List.mem_singleton.mp he
    rcases hn with ⟨_, hn⟩ | hn <;> cases hn

/-- A callback comes for a send that is under way, and no event timeout expires. -/
def Permitted (s : Mud) : Event → Prop
  | .sent => 0 < s.outstanding
  | .tick => s.eventTimeout ≠ 1
  | _ => True

instance (s : Mud) : ∀ event, Decidable (Permitted s event)
  | .sent => inferInstanceAs (Decidable (0 < s.outstanding))
  | .tick => inferInstanceAs (Decidable (s.eventTimeout ≠ 1))
  | .publish _ _ _ _ _ | .subscribe _ _ | .unsubscribe _ _ | .received _ _ => isTrue trivial

/-- An acknowledgement of the head comes in time: no event timeout runs when its segment comes,
and the queue is not empty then. -/
def InTime (env : Env) (s : Mud) : Event → Prop
  | .received b l => s.connState = .data → 0 < l → l ≤ mqttBufSize.toNat →
    ∀ b' l' t, Arrives env b l s b' l' t → ∀ node ∈ t.pendingMsgQ.head?,
      Acknowledges (mqttGetType b').val (packetId env b' l') node →
      s.eventTimeout = 0 ∧ s.pendingMsgQ ≠ []
  | _ => True

/-- A segment for data comes when no event timeout runs, to a queue that is not empty. -/
def AtRest (s : Mud) : Event → Prop
  | .received _ _ => s.connState = .data → s.eventTimeout = 0 ∧ s.pendingMsgQ ≠ []
  | _ => True

instance (s : Mud) : ∀ event, Decidable (AtRest s event)
  | .received _ _ =>
    inferInstanceAs (Decidable (s.connState = .data → s.eventTimeout = 0 ∧ s.pendingMsgQ ≠ []))
  | .publish _ _ _ _ _ | .subscribe _ _ | .unsubscribe _ _ | .sent | .tick => isTrue trivial

theorem inTime_of_atRest (env : Env) (s : Mud) (event : Event) (h : AtRest s event) :
    InTime env s event := by
  cases event with
  | received b l => exact fun hs _ _ _ _ _ _ _ _ _ => h hs
  | publish | subscribe | unsubscribe | sent | tick => trivial

theorem invariant_received (env : Env) (b : Mem) (l : Nat) {s u : Mud} (h : Invariant s)
    (ht : InTime env s (.received b l)) (hu : Handled env b l s u) : Invariant u := by
  cases hu with
  | ignored => exact h
  | notConnected hs =>
    exact invariant_outcome env h
      (.sends (withBuffer s) (withBuffer_appends s) ⟨rfl, rfl, rfl, rfl⟩ rfl)
  | answered hw v ha =>
    exact invariant_of_ready env ⟨handed_appends h.handed ha.more, ha.ended, .inl ha.eventTimeout⟩
  | data hs hl hmax b' l' t ha hlast =>
    obtain ⟨more, same⟩ := arrives_appends ha hs
    have hts : t.connState = .data := same.connState.trans hs
    have hround := same.trans (readPacket_same env b' l' t hts)
    have hnw : ¬Waiting s := by
      rintro (hw | hw) <;> simp [hs] at hw
    by_cases hn : ∀ node ∈ t.pendingMsgQ.head?,
        ¬Acknowledges (mqttGetType b').val (packetId env b' l') node
    · exact invariant_outcome env h
        (.sends _ (more.trans (readPacket_appends env b' l' t hts hn)) hround rfl)
    · -- the head is acknowledged: it was sent, and the next message is sent now
      simp only [not_forall, not_not] at hn
      obtain ⟨node, hhead, hack⟩ := hn
      obtain ⟨h0, hne⟩ := ht hs hl hmax b' l' t ha node hhead hack
      obtain ⟨node', rest, hq, hsent⟩ :=
        headSent_appends ((h.head hnw).resolve_right fun hr => hne hr.1) more
      rw [hq, List.head?_cons, Option.mem_some_iff] at hhead
      subst hhead
      obtain ⟨type, -, hr⟩ := readPacket_removes env b' l' t hts node' rest hq hack
      have hat := atPacket_appends env b' l' t
      have hsent' : .send node' ∈ (atPacket env b' l' t).effects := by
        simp only [atPacket, Mud.record, withBuffer]
        exact List.mem_append_left _ hsent
      exact invariant_of_ready env
        ⟨handed_removes (handed_appends (handed_appends h.handed more) hat) hr hsent',
          fun hw => hnw ((waiting_same hround).mp hw), .inl (hround.eventTimeout.trans h0)⟩

theorem invariant_sent (env : Env) {s u : Mud} (h : Invariant s) (ho : 0 < s.outstanding)
    (hu : Sent env s u) : Invariant u := by
  have hnw : s.connState ≠ .connectSending → ¬Waiting s := by
    rintro hs (hw | hw)
    · exact hs hw
    · have := (h.waiting hw).2
      omega
  cases hu with
  | disconnected =>
    exact ⟨h.handed, fun hs => ⟨(h.sending hs).1, by have := (h.sending hs).2; dsimp only; omega⟩,
      fun hs => ⟨(h.waiting hs).1, by have := (h.waiting hs).2; dsimp only; omega⟩, h.head⟩
  | connect hs =>
    have h1 := (h.sending hs).2
    refine ⟨h.handed, fun hs' => (by cases hs'), fun _ => ⟨Nat.succ_pos 4, ?_⟩,
      fun hw => (hw (.inr rfl)).elim⟩
    simp only [afterSent]
    omega
  | kept hs =>
    have hw := hnw hs
    refine ⟨h.handed, fun hs' => (hw (.inl hs')).elim, fun hs' => (hw (.inr hs')).elim,
      fun _ => ?_⟩
    exact (h.head hw).imp id fun hq => ⟨hq.1, rfl⟩
  | forgotten hs node v hf hr same =>
    have hw := hnw hs
    obtain ⟨rest, _, _, hq, -⟩ := hr.removed
    have hsent : .send node ∈ s.effects := by
      obtain ⟨node', rest', hq', hsent⟩ | ⟨hq', -⟩ := h.head hw
      · obtain ⟨rfl, -⟩ := List.cons.inj (hq'.symm.trans hq)
        exact hsent
      · cases hq'.symm.trans hq
    have hh : Handed (afterSent s).effects := h.handed
    refine invariant_of_ready env ⟨handed_removes hh hr hsent, fun hw' => ?_,
      .inl same.eventTimeout⟩
    exact hw ((waiting_same same).mp hw')

theorem invariant_timer (env : Env) {s : Mud} (h : Invariant s) (ht : s.eventTimeout ≠ 1) :
    Invariant (mqttSocketTimer env s) := by
  rw [mqttSocketTimer_eq env s ht]
  split_ifs with h0
  · refine invariant_outcome env h (timerStates_outcome env s fun hw => ?_)
    have := timeout_of_waiting h hw
    omega
  · refine ⟨h.handed, fun hs => ⟨?_, (h.sending hs).2⟩, fun hs => ⟨?_, (h.waiting hs).2⟩,
      fun hw => .inl ((h.head hw).resolve_right fun hq => h0 hq.2)⟩
    · dsimp only
      omega
    · dsimp only
      omega

theorem invariant_handle (env : Env) (event : Event) {s u : Mud} (h : Invariant s)
    (hp : Permitted s event) (ht : InTime env s event) (hu : handle env event s = some u) :
    Invariant u := by
  cases event with
  | received b l => exact invariant_received env b l h ht (received_handled env b l s u hu)
  | sent =>
    obtain rfl := Option.some.inj hu
    exact invariant_sent env h hp (mqttSocketSent_sent env s)
  | tick =>
    obtain rfl := Option.some.inj hu
    exact invariant_timer env h hp
  | publish topic payload qos retain callback =>
    obtain rfl := Option.some.inj hu
    exact invariant_outcome env h (mqttSocketPublish_outcome env _ _ _ _ _ s)
  | subscribe topics callback =>
    obtain rfl := Option.some.inj hu
    exact invariant_outcome env h (mqttSocketSubscribe_outcome env _ _ s)
  | unsubscribe topics callback =>
    obtain rfl := Option.some.inj hu
    exact invariant_outcome env h (mqttSocketUnsubscribe_outcome env _ _ s)

/-- A publication that is sent and then acknowledged. -/
def acknowledged : List (Env × Event) :=
  [.sent, .received acceptance 4, .publish topicT [0x61] 1 0 false, .sent,
    .received firstPuback 4].map (plainEnv, ·)

/-- The first publication is acknowledged before the callback of its send. -/
def early : List (Env × Event) :=
  [.sent, .received acceptance 4, .publish topicT [0x61] 1 0 false,
    .publish topicT [0x62] 0 0 false, .received firstPuback 4, .sent].map (plainEnv, ·)

/-- The second publication. -/
def lost : MsgQueue := ⟨[0x30, 4, 0, 1, 0x74, 0x62], 0, .publish, 0, 1, 1⟩

end NodeMcu.Mqtt.Sending
