import NodeMcu.Coap.Deadlines

namespace NodeMcu.Coap.Schedule

open NodeMcu.Lib.Delays NodeMcu.Lib.Run NodeMcu.Coap.Retransmission NodeMcu.Coap.Deadlines

/-! ## What happened to a message -/

theorem events_append {s s' : Client} {es : List (Message × Nat × What)}
    (h : s'.trace = s.trace ++ es) (m : Message) :
    events m s' = events m s ++ (es.filter fun e => e.1 = m).map Prod.snd := by
  rw [events, events, h, List.filter_append, List.map_append]

theorem sends_succ (m : Message) (n : Nat) :
    sends m (n + 1) = sends m n ++ [(transmission m n, .sent)] := by
  rw [sends, List.range_succ, List.map_append]
  rfl

theorem responseTimeout_lt (r : Nat) : responseTimeout r < 3000 := by
  have hand : r &&& 0xFF ≤ 0xFF := Nat.and_le_right
  have hshift : (1000 * (r &&& 0xFF)) >>> 8 = 1000 * (r &&& 0xFF) / 256 :=
    Nat.shiftRight_eq_div_pow _ _
  change 2 * 1000 + 1 * ((1000 * (r &&& 0xFF)) >>> 8) < 3000
  rw [hshift]
  omega

/-- The wait for the next transmission is short. -/
theorem wait_lt {timeout k : Nat} (h : timeout < 3000) (hk : k ≤ defaultMaxRetransmit) :
    timeout * 2 ^ k < 48000 := by
  have hpow : 2 ^ k ≤ 2 ^ 4 := Nat.pow_le_pow_right (by decide) hk
  have hmul := Nat.mul_le_mul (Nat.le_of_lt_succ h) hpow
  omega

/-! ## What a run keeps -/

/-- The message of a node was sent at its times so far, and there was no response to it. -/
structure Waits (x : World) (n : Node) : Prop where
  sent : n.pdu ∈ x.messages
  timeout : n.timeout = n.pdu.timeout
  few : n.retransmitCnt ≤ defaultMaxRetransmit
  conn : n.pconn ≠ none
  events : events n.pdu x.coap = sends n.pdu (n.retransmitCnt + 1)
  past : transmission n.pdu n.retransmitCnt ≤ x.now
  unanswered : ∀ time, (time, n.pdu) ∉ x.answers

theorem waits_put (x : World) (t : Nat) (n : Node) : Waits x (nodeDelay.put t n) ↔ Waits x n :=
  ⟨fun ⟨h1, h2, h3, h4, h5, h6, h7⟩ => ⟨h1, h2, h3, h4, h5, h6, h7⟩,
    fun ⟨h1, h2, h3, h4, h5, h6, h7⟩ => ⟨h1, h2, h3, h4, h5, h6, h7⟩⟩

/-- A message does not wait any longer. -/
inductive Over (x : World) (m : Message) : Prop
  | answered (k : Nat) (few : k ≤ defaultMaxRetransmit) (time : Nat) (past : time ≤ x.now)
    (events : events m x.coap = sends m (k + 1) ++ [(time, .removed)])
    (next : time ≤ transmission m (k + 1)) (answer : (time, m) ∈ x.answers)
    (first : ∀ time', (time', m) ∈ x.answers → time ≤ time')
  | dropped (past : transmission m (defaultMaxRetransmit + 1) ≤ x.now)
    (events : events m x.coap = sends m (defaultMaxRetransmit + 1) ++
      [(transmission m (defaultMaxRetransmit + 1), .deleted)])
    (unanswered : ∀ time, (time, m) ∈ x.answers →
      transmission m (defaultMaxRetransmit + 1) ≤ time)

/-- Every node is due at the time of the next transmission of its message, and the timer is set for
the first one. -/
structure OnTime (x : World) : Prop where
  timed : Timed nodeDelay 1000 x.now x.coap.queue
  timer : x.coap.timer = x.coap.queue.head?.map due
  base : x.coap.basetime = systemGetTime x.refreshed / 1000
  refreshed : x.refreshed ≤ x.now
  waits : ∀ n ∈ x.coap.queue, Waits x n
  nodup : (x.coap.queue.map Node.pdu).Nodup
  settled : ∀ m ∈ x.messages, (∃ n ∈ x.coap.queue, n.pdu = m) ∨ Over x m
  serial : ∀ m ∈ x.messages, m.serial < x.messages.length
  timeout : ∀ m ∈ x.messages, m.timeout < 3000
  known : ∀ e ∈ x.coap.trace, e.1 ∈ x.messages
  asked : ∀ a ∈ x.answers, a.2 ∈ x.messages

section Kept

variable {x y : World}

theorem Waits.kept {n : Node} (h : Waits x n) (hmessages : ∀ m ∈ x.messages, m ∈ y.messages)
    (hevents : Retransmission.events n.pdu y.coap = Retransmission.events n.pdu x.coap)
    (hnow : x.now ≤ y.now)
    (hanswers : ∀ time, (time, n.pdu) ∈ y.answers → (time, n.pdu) ∈ x.answers) : Waits y n where
  sent := hmessages _ h.sent
  timeout := h.timeout
  few := h.few
  conn := h.conn
  events := hevents.trans h.events
  past := Nat.le_trans h.past hnow
  unanswered time hy := h.unanswered time (hanswers time hy)

theorem Over.kept {m : Message} (h : Over x m)
    (hevents : events m y.coap = events m x.coap) (hnow : x.now ≤ y.now)
    (hold : ∀ time, (time, m) ∈ x.answers → (time, m) ∈ y.answers)
    (hnew : ∀ time, (time, m) ∈ y.answers → (time, m) ∈ x.answers ∨ x.now ≤ time) : Over y m := by
  cases h with
  | answered k few time past events next answer first =>
    exact .answered k few time (Nat.le_trans past hnow) (hevents.trans events) next
      (hold time answer) fun time' h' => (hnew time' h').elim (first time') (Nat.le_trans past)
  | dropped past events unanswered =>
    exact .dropped (Nat.le_trans past hnow) (hevents.trans events)
      fun time h' => (hnew time h').elim (unanswered time) (Nat.le_trans past)

end Kept

section OnTime

variable {x : World} (h : OnTime x)
include h

theorem OnTime.due_le {n : Node} (hn : n ∈ x.coap.queue) : due n < x.now + 1000 * 48000 := by
  have hw := h.waits n hn
  have hwait := wait_lt (h.timeout _ hw.sent) hw.few
  have hpast := hw.past
  rw [due, transmission]
  omega

/-- What comes before the timer comes before all nodes are due. -/
theorem OnTime.le_due {time : Nat} (ht : ∀ at' ∈ x.coap.timer, time ≤ at') :
    ∀ n ∈ x.coap.queue, time ≤ due n := by
  have htimed := h.timed
  have htimer := h.timer
  cases hq : x.coap.queue with
  | nil => exact fun n hn => absurd hn List.not_mem_nil
  | cons n queue =>
    rw [hq] at htimed htimer
    have hfirst : time ≤ due n := ht _ htimer
    intro n' hn'
    obtain rfl | hn' := List.mem_cons.mp hn'
    · exact hfirst
    · exact Nat.le_trans hfirst (htimed.2.start_le n' hn')

/-- A message that was not sent yet has no events. -/
theorem OnTime.events_fresh {m : Message} (hm : m ∉ x.messages) : events m x.coap = [] := by
  rw [events, List.map_eq_nil_iff, List.filter_eq_nil_iff]
  intro e he
  have hne : e.1 ≠ m := fun heq => hm (heq ▸ h.known e he)
  simpa using hne

theorem OnTime.message_fresh (time r : Nat) : x.message time r ∉ x.messages :=
  fun hm => Nat.lt_irrefl _ (h.serial _ hm)

theorem OnTime.onSchedule : OnSchedule x := by
  intro m hm
  obtain ⟨n, hn, rfl⟩ | hover := h.settled m hm
  · have hw := h.waits n hn
    have htimer := h.timer
    have htimed := h.timed
    refine .pending n.retransmitCnt hw.few hw.events (h.timed.start_le n hn) ?_ hw.unanswered
    cases hq : x.coap.queue with
    | nil =>
      rw [hq] at hn
      exact absurd hn List.not_mem_nil
    | cons n' queue =>
      rw [hq] at htimer htimed hn
      refine ⟨due n', htimer, ?_⟩
      obtain rfl | hn := List.mem_cons.mp hn
      · exact Nat.le_refl _
      · exact htimed.2.start_le n hn
  · cases hover with
    | answered k few time past events next answer first =>
      exact .answered k few time events next answer first
    | dropped past events unanswered => exact .dropped events unanswered

/-- The queue with the time that goes by until a send or a response. -/
theorem OnTime.advance {queue : List Node} {time : Nat} (hqueue : Timed nodeDelay 1000 x.now queue)
    (hnow : x.now ≤ time) (hdue : ∀ n ∈ queue, time ≤ due n) (hfresh : Fresh x queue time) :
    Timed nodeDelay 1000 time (advance nodeDelay
      (coapTimerElapsed (systemGetTime time / 1000) x.coap.basetime) queue) := by
  cases queue with
  | nil => trivial
  | cons n queue =>
    rw [h.base]
    obtain ⟨hbase, hcounted⟩ | ⟨hnext, hperiod⟩ := hfresh n rfl
    · have helapsed := (elapsed_iff (hbase ▸ hnow)).mpr hcounted
      have hadvance := hqueue.advance (d := coapTimerElapsed (systemGetTime time / 1000)
        (systemGetTime x.refreshed / 1000))
        (fun a ha => by
          rw [hbase, helapsed]
          exact hdue a (List.mem_of_mem_head? ha)) (by decide)
      rwa [hbase, helapsed] at hadvance
    · obtain ⟨hn, hrest⟩ := hqueue
      have hle := le_elapsed h.refreshed (hn.symm.trans hnext) hperiod
      refine ⟨?_, hrest⟩
      change due n = time + 1000 * (n.t - _)
      change n.t ≤ _ at hle
      rw [Nat.sub_eq_zero_of_le hle, hnext, Nat.mul_zero, Nat.add_zero]

end OnTime

/-! ## Steps that act on one message -/

/-- A node without its time. -/
def bare (n : Node) : Node := nodeDelay.put 0 n

/-- The nodes of the other messages, without their times. -/
def others (pdu : Message) (queue : List Node) : List Node :=
  (queue.map bare).filter fun n => n.pdu ≠ pdu

theorem mem_others {pdu : Message} {queue : List Node} {n : Node} :
    n ∈ others pdu queue ↔ (∃ n' ∈ queue, bare n' = n) ∧ n.pdu ≠ pdu := by
  rw [others, List.mem_filter, List.mem_map, decide_eq_true_iff]

/-- A step does something to one message, which waits or is over then, and leaves this queue. -/
structure Acts (x y : World) (pdu : Message) (queue : List Node)
    (es : List (Message × Nat × What)) : Prop where
  now : x.now ≤ y.now
  coap : y.coap =
    ⟨queue, systemGetTime y.refreshed / 1000, queue.head?.map due, x.coap.trace ++ es⟩
  refreshed : y.refreshed ≤ y.now
  timed : Timed nodeDelay 1000 y.now queue
  trace : ∀ e ∈ es, e.1 = pdu
  messages : y.messages = x.messages ∧ pdu ∈ x.messages ∨ y.messages = x.messages ++ [pdu] ∧
    pdu.serial = x.messages.length ∧ pdu.timeout < 3000
  answers : y.answers = x.answers ∨ y.answers = x.answers ++ [(y.now, pdu)]
  others : (others pdu queue).Perm (others pdu x.coap.queue)
  nodup : (queue.map Node.pdu).Nodup
  waits : ∀ n ∈ queue, n.pdu = pdu → Waits y n
  settled : (∃ n ∈ queue, n.pdu = pdu) ∨ Over y pdu

section Acts

variable {x y : World} {pdu : Message} {queue : List Node} {es : List (Message × Nat × What)}
  (ha : Acts x y pdu queue es)
include ha

theorem Acts.mem_messages {m : Message} : m ∈ y.messages ↔ m ∈ x.messages ∨ m = pdu := by
  obtain ⟨hm, hpdu⟩ | ⟨hm, -⟩ := ha.messages
  · rw [hm]
    exact ⟨.inl, fun h => h.elim id fun h => h ▸ hpdu⟩
  · rw [hm, List.mem_append, List.mem_singleton]

theorem Acts.mem_answers {a : Nat × Message} (h : a ∈ y.answers) :
    a ∈ x.answers ∨ a = (y.now, pdu) := by
  obtain hans | hans := ha.answers
  · exact .inl (hans ▸ h)
  · rwa [hans, List.mem_append, List.mem_singleton] at h

theorem Acts.mem_answers_of {a : Nat × Message} (h : a ∈ x.answers) : a ∈ y.answers := by
  obtain hans | hans := ha.answers
  · rwa [hans]
  · rw [hans]
    exact List.mem_append_left _ h

theorem Acts.events_eq {m : Message} (hm : m ≠ pdu) : events m y.coap = events m x.coap := by
  have hnone : (es.filter fun e => e.1 = m) = [] := by
    refine List.filter_eq_nil_iff.mpr fun e he => ?_
    rw [decide_eq_true_iff, ha.trace e he]
    exact Ne.symm hm
  rw [events_append (congrArg Client.trace ha.coap), hnone, List.map_nil, List.append_nil]

/-- The nodes of other messages wait as before. -/
theorem Acts.waits_all (h : OnTime x) : ∀ n ∈ queue, Waits y n := by
  intro n hn
  by_cases hpdu : n.pdu = pdu
  · exact ha.waits n hn hpdu
  · have hmem := ha.others.mem_iff.mp (mem_others.mpr ⟨⟨n, hn, rfl⟩, hpdu⟩)
    obtain ⟨⟨n', hn', heq⟩, -⟩ := mem_others.mp hmem
    have hbare : Waits x (bare n) := by
      rw [← heq]
      exact (waits_put x 0 n').mpr (h.waits n' hn')
    refine ((waits_put x 0 n).mp hbare).kept (fun m hm => ha.mem_messages.mpr (.inl hm))
      (ha.events_eq hpdu) ha.now fun time hans => ?_
    exact (ha.mem_answers hans).resolve_right fun heq => hpdu (congrArg Prod.snd heq)

/-- Other messages wait as before or are over. -/
theorem Acts.over_all (h : OnTime x) :
    ∀ m ∈ y.messages, (∃ n ∈ queue, n.pdu = m) ∨ Over y m := by
  intro m hm
  by_cases hpdu : m = pdu
  · exact hpdu ▸ ha.settled
  · have hx := (ha.mem_messages.mp hm).resolve_right hpdu
    obtain ⟨n, hn, rfl⟩ | hover := h.settled m hx
    · have hmem := ha.others.mem_iff.mpr (mem_others.mpr ⟨⟨n, hn, rfl⟩, hpdu⟩)
      obtain ⟨⟨n', hn', heq⟩, -⟩ := mem_others.mp hmem
      have hsame : (bare n').pdu = (bare n).pdu := congrArg Node.pdu heq
      exact .inl ⟨n', hn', hsame⟩
    · refine .inr (hover.kept (ha.events_eq hpdu) ha.now
        (fun _ hans => ha.mem_answers_of hans) fun time hans => ?_)
      exact (ha.mem_answers hans).imp id fun heq => absurd (congrArg Prod.snd heq) hpdu

theorem Acts.onTime (h : OnTime x) : OnTime y where
  timed := by
    rw [ha.coap]
    exact ha.timed
  timer := by rw [ha.coap]
  base := by rw [ha.coap]
  refreshed := ha.refreshed
  waits := by
    rw [ha.coap]
    exact ha.waits_all h
  nodup := by
    rw [ha.coap]
    exact ha.nodup
  settled := by
    rw [ha.coap]
    exact ha.over_all h
  serial m hm := by
    obtain ⟨hmessages, -⟩ | ⟨hmessages, hserial, -⟩ := ha.messages
    · rw [hmessages] at hm ⊢
      exact h.serial m hm
    · rw [hmessages, List.length_append, List.length_singleton]
      obtain hm | rfl := ha.mem_messages.mp hm
      · exact Nat.lt_succ_of_lt (h.serial m hm)
      · exact hserial ▸ Nat.lt_succ_self _
  timeout m hm := by
    obtain ⟨hmessages, -⟩ | ⟨-, -, htimeout⟩ := ha.messages
    · exact h.timeout m (hmessages ▸ hm)
    · obtain hm | rfl := ha.mem_messages.mp hm
      · exact h.timeout m hm
      · exact htimeout
  known e he := by
    rw [ha.coap] at he
    obtain he | he := List.mem_append.mp he
    · exact ha.mem_messages.mpr (.inl (h.known e he))
    · exact ha.mem_messages.mpr (ha.messages.elim (fun hm => .inl (ha.trace e he ▸ hm.2))
        fun _ => .inr (ha.trace e he))
  asked a hans := by
    obtain hans | rfl := ha.mem_answers hans
    · exact ha.mem_messages.mpr (.inl (h.asked a hans))
    · exact ha.mem_messages.mpr (ha.messages.elim (fun hm => .inl hm.2) fun _ => .inr rfl)

end Acts

/-- A message is sent and its node takes its place in the queue. -/
theorem acts_enqueue {x y : World} {node : Node} {left : List Node} (hnow : x.now ≤ y.now)
    (hcoap : y.coap = ⟨enqueue nodeDelay left node, systemGetTime y.refreshed / 1000,
      (enqueue nodeDelay left node).head?.map due, x.coap.trace ++ [(node.pdu, y.now, .sent)]⟩)
    (hrefreshed : y.refreshed ≤ y.now)
    (htimed : Timed nodeDelay 1000 y.now (enqueue nodeDelay left node))
    (hmessages : y.messages = x.messages ∧ node.pdu ∈ x.messages ∨
      y.messages = x.messages ++ [node.pdu] ∧ node.pdu.serial = x.messages.length ∧
        node.pdu.timeout < 3000)
    (hanswers : y.answers = x.answers)
    (hothers : others node.pdu left = others node.pdu x.coap.queue)
    (hnodup : node.pdu ∉ left.map Node.pdu ∧ (left.map Node.pdu).Nodup) (hw : Waits y node) :
    Acts x y node.pdu (enqueue nodeDelay left node) [(node.pdu, y.now, .sent)] := by
  have hpdus := map_enqueue (D := nodeDelay) (f := Node.pdu) (fun _ _ => rfl) left node
  have hleft : ∀ n ∈ left, n.pdu ≠ node.pdu := fun n hn heq =>
    hnodup.1 (List.mem_map.mpr ⟨n, hn, heq⟩)
  exact {
    now := hnow
    coap := hcoap
    refreshed := hrefreshed
    timed := htimed
    trace := by simp
    messages := hmessages
    answers := .inl hanswers
    others := by
      have hbare := map_enqueue (D := nodeDelay) (f := bare) (fun _ _ => rfl) left node
      have hfilter := hbare.filter fun n => n.pdu ≠ node.pdu
      rw [List.filter_cons_of_neg (by simp [bare, nodeDelay])] at hfilter
      rw [← hothers]
      exact hfilter
    nodup := hpdus.nodup_iff.mpr (List.nodup_cons.mpr hnodup)
    waits := forall_enqueue (P := fun n => n.pdu = node.pdu → Waits y n)
      (fun d n => imp_congr Iff.rfl (waits_put y d n)) (fun _ => hw)
      fun n hn heq => absurd heq (hleft n hn)
    settled := .inl (List.mem_map.mp (hpdus.mem_iff.mpr List.mem_cons_self)) }

/-! ## The steps -/

section Steps

variable {x : World} (h : OnTime x)
include h

theorem send_onTime {time pconn r id : Nat} (hallowed : Allowed x (.send time pconn r id))
    (hprompt : Prompt x (.send time pconn r id)) : OnTime (step x (.send time pconn r id)) := by
  obtain ⟨hnow, htimer⟩ := hallowed
  have hfresh := h.message_fresh time r
  let pdu := x.message time r
  let node : Node := ⟨responseTimeout r, 0, responseTimeout r, id, pdu, some pconn⟩
  let left := advance nodeDelay (coapTimerElapsed (systemGetTime time / 1000) x.coap.basetime)
    x.coap.queue
  have hnode : due node = time + 1000 * responseTimeout r := by
    change time + 1000 * (responseTimeout r * 2 ^ 0) = _
    rw [Nat.pow_zero, Nat.mul_one]
  have hqueue : Timed nodeDelay 1000 time (enqueue nodeDelay left node) :=
    (h.advance h.timed hnow (h.le_due htimer) hprompt).enqueue hnode
  have hcoap : (step x (.send time pconn r id)).coap =
      ⟨enqueue nodeDelay left node, systemGetTime time / 1000,
        (enqueue nodeDelay left node).head?.map due, x.coap.trace ++ [(pdu, time, .sent)]⟩ := by
    change coapTimerStart time { coapTimerUpdate time (coapTimerStop (x.coap.record pdu time .sent))
      with queue := _ } = _
    rw [coapTimerUpdate_eq, coapInsertNode_eq]
    exact coapTimerStart_eq hqueue rfl
  have hpdus : pdu ∉ left.map Node.pdu := by
    rw [map_advance (f := Node.pdu) fun _ _ => rfl]
    intro hin
    obtain ⟨n, hn, heq⟩ := List.mem_map.mp hin
    have hsent := (h.waits n hn).sent
    rw [heq] at hsent
    exact hfresh hsent
  have hwaits : Waits (step x (.send time pconn r id)) node := by
    refine ⟨List.mem_append_right _ List.mem_cons_self, rfl, Nat.zero_le _, by simp [node], ?_,
      Nat.le_refl _, fun time' hans => hfresh (h.asked _ hans)⟩
    rw [events_append (congrArg Client.trace hcoap), h.events_fresh hfresh]
    simp [node, pdu, sends, transmission, World.message]
  refine (acts_enqueue hnow hcoap (Nat.le_refl _) hqueue
    (.inr ⟨rfl, rfl, responseTimeout_lt r⟩) rfl ?_ ⟨hpdus, ?_⟩ hwaits).onTime h
  · rw [others, map_advance (f := bare) (fun _ _ => rfl), others]
  · rw [map_advance (f := Node.pdu) fun _ _ => rfl]
    exact h.nodup

/-- The timer fires for the first node. -/
theorem fired {time id : Nat} (hallowed : Allowed x (.tick time id)) :
    ∃ node queue, x.coap.queue = node :: queue ∧ due node = time := by
  have htimer := h.timer
  rw [show x.coap.timer = some time from hallowed] at htimer
  cases hq : x.coap.queue with
  | nil =>
    rw [hq] at htimer
    cases htimer
  | cons node queue =>
    rw [hq] at htimer
    exact ⟨node, queue, rfl, (Option.some.inj htimer).symm⟩

section Fired

variable {node : Node} {queue : List Node} {time : Nat} (hq : x.coap.queue = node :: queue)
  (hdue : due node = time) (id : Nat)
include hq hdue

theorem rest_timed : x.now ≤ time ∧ Timed nodeDelay 1000 time queue := by
  have htimed := h.timed
  rw [hq] at htimed
  exact ⟨hdue ▸ htimed.start_le node List.mem_cons_self, hdue ▸ htimed.2⟩

omit h hdue in
theorem others_rest : others node.pdu queue = others node.pdu x.coap.queue := by
  rw [hq, others, others, List.map_cons, List.filter_cons_of_neg (by simp [bare, nodeDelay])]

omit hdue in
theorem pdus_rest : node.pdu ∉ queue.map Node.pdu ∧ (queue.map Node.pdu).Nodup := by
  have hnodup := h.nodup
  rwa [hq, List.map_cons, List.nodup_cons] at hnodup

theorem resend_onTime (hcnt : node.retransmitCnt < defaultMaxRetransmit) :
    OnTime (step x (.tick time id)) := by
  obtain ⟨hnow, hqueue⟩ := rest_timed h hq hdue
  have hothers := others_rest hq
  have hnodup := pdus_rest h hq
  have hw := h.waits node (hq ▸ List.mem_cons_self)
  obtain ⟨pconn, hconn⟩ := Option.ne_none_iff_exists'.mp hw.conn
  let t := (node.timeout <<< (node.retransmitCnt + 1)) % 2 ^ 32
  let node' : Node := ⟨t, node.retransmitCnt + 1, node.timeout, id, node.pdu, some pconn⟩
  have ht : t = node.pdu.timeout * 2 ^ (node.retransmitCnt + 1) := by
    have hwait := wait_lt (h.timeout _ hw.sent) (k := node.retransmitCnt + 1) hcnt
    have hlt : node.pdu.timeout * 2 ^ (node.retransmitCnt + 1) < 2 ^ 32 := by omega
    rw [← Nat.mod_eq_of_lt hlt, ← hw.timeout, ← Nat.shiftLeft_eq]
  have hnode : due node' = time + 1000 * t := by
    change due node + 1000 * (node.pdu.timeout * 2 ^ (node.retransmitCnt + 1)) = _
    rw [hdue, ht]
  have hplaced : Timed nodeDelay 1000 time (enqueue nodeDelay queue node') :=
    hqueue.enqueue hnode
  have hcoap : (step x (.tick time id)).coap = ⟨enqueue nodeDelay queue node',
      systemGetTime x.refreshed / 1000, (enqueue nodeDelay queue node').head?.map due,
      x.coap.trace ++ [(node.pdu, time, .sent)]⟩ := by
    have hstart := coapTimerStart_eq
      (s := ⟨enqueue nodeDelay queue node', systemGetTime x.refreshed / 1000, none,
        x.coap.trace ++ [(node.pdu, time, .sent)]⟩) hplaced rfl
    rw [← hstart, ← coapInsertNode_eq, ← h.base]
    change coapTimerTick time id (coapTimerStop x.coap) = _
    simp only [coapTimerTick, coapTimerStop, hq, if_pos hcnt, hconn, coapSend]
    rfl
  have hwaits : Waits (step x (.tick time id)) node' := by
    refine ⟨hw.sent, hw.timeout, hcnt, by simp [node'], ?_, Nat.le_of_eq hdue, hw.unanswered⟩
    rw [events_append (congrArg Client.trace hcoap), show node'.pdu = node.pdu from rfl, hw.events,
      sends_succ _ (node.retransmitCnt + 1), ← hdue]
    simp [due]
  exact (acts_enqueue hnow hcoap (Nat.le_trans h.refreshed hnow) hplaced (.inl ⟨rfl, hw.sent⟩) rfl
    hothers hnodup hwaits).onTime h

theorem delete_onTime (hcnt : ¬node.retransmitCnt < defaultMaxRetransmit) :
    OnTime (step x (.tick time id)) := by
  obtain ⟨hnow, hqueue⟩ := rest_timed h hq hdue
  have hnodup := pdus_rest h hq
  have hw := h.waits node (hq ▸ List.mem_cons_self)
  have hlast : node.retransmitCnt = defaultMaxRetransmit :=
    Nat.le_antisymm hw.few (Nat.le_of_not_lt hcnt)
  have hcoap : (step x (.tick time id)).coap = ⟨queue, systemGetTime x.refreshed / 1000,
      queue.head?.map due, x.coap.trace ++ [(node.pdu, time, .deleted)]⟩ := by
    have hstart := coapTimerStart_eq
      (s := ⟨queue, systemGetTime x.refreshed / 1000, none,
        x.coap.trace ++ [(node.pdu, time, .deleted)]⟩) hqueue rfl
    rw [← hstart, ← h.base]
    change coapTimerTick time id (coapTimerStop x.coap) = _
    simp only [coapTimerTick, coapTimerStop, hq, if_neg hcnt]
    rfl
  have hend : transmission node.pdu (defaultMaxRetransmit + 1) = time := by
    rw [← hdue, due, hlast]
  have hover : Over (step x (.tick time id)) node.pdu := by
    refine .dropped (Nat.le_of_eq hend) ?_ fun time' hans => absurd hans (hw.unanswered time')
    rw [events_append (congrArg Client.trace hcoap), hw.events, hlast, hend]
    simp
  have hacts : Acts x (step x (.tick time id)) node.pdu queue [(node.pdu, time, .deleted)] := {
    now := hnow
    coap := hcoap
    refreshed := Nat.le_trans h.refreshed hnow
    timed := hqueue
    trace := by simp
    messages := .inl ⟨rfl, hw.sent⟩
    answers := .inl rfl
    others := by rw [others_rest hq]
    nodup := hnodup.2
    waits := fun n hn heq => absurd (List.mem_map.mpr ⟨n, hn, heq⟩) hnodup.1
    settled := .inr hover }
  exact hacts.onTime h

end Fired

section Answer

variable {time id : Nat} {pdu : Message} (hallowed : Allowed x (.answer time pdu id))
  (hprompt : Prompt x (.answer time pdu id))
include hallowed hprompt

/-- The nodes that a response leaves, with the time that went by. -/
theorem answer_coap : ∃ queue : List Node, Timed nodeDelay 1000 time queue ∧
    (∀ {β : Type} {f : Node → β}, (∀ d n, f (nodeDelay.put d n) = f n) →
      queue.map f = (x.coap.queue.filter fun n => n.pdu ≠ pdu).map f) ∧
    (step x (.answer time pdu id)).coap =
      ⟨queue, systemGetTime time / 1000, queue.head?.map due, x.coap.trace ++
        ((x.coap.queue.find? fun n => n.id = id).map fun n => (n.pdu, time, .removed)).toList⟩ := by
  obtain ⟨hnow, htimer, -⟩ := hallowed
  obtain ⟨hfresh, hfirst⟩ := hprompt
  let left := remove nodeDelay (fun n => n.id = id) x.coap.queue
  have hmap : ∀ {β : Type} {f : Node → β}, (∀ d n, f (nodeDelay.put d n) = f n) →
      left.map f = (x.coap.queue.filter fun n => n.pdu ≠ pdu).map f :=
    fun hf => map_remove_eq hf pdu id h.nodup hfirst
  have hleft : Fresh x left time := by
    intro n hn
    have hhead := congrArg List.head? (hmap (f := due) fun _ _ => rfl)
    rw [List.head?_map, List.head?_map, show left.head? = some n from hn, Option.map_some] at hhead
    obtain ⟨n', hn', heq⟩ := Option.map_eq_some_iff.mp hhead.symm
    rw [← heq]
    exact hfresh n' hn'
  let queue := advance nodeDelay (coapTimerElapsed (systemGetTime time / 1000) x.coap.basetime) left
  have hqueue : Timed nodeDelay 1000 time queue :=
    h.advance (h.timed.remove _) hnow (forall_remove (fun _ _ => Iff.rfl) _ (h.le_due htimer)) hleft
  refine ⟨queue, hqueue, fun hf => (map_advance hf _ left).trans (hmap hf), ?_⟩
  have hremove : coapRemoveNode id x.coap.queue =
      (x.coap.queue.find? (fun n => n.id = id), left) :=
    coapRemoveNode_eq id (h.timed.sum_lt (fun n hn => by
      have := h.due_le hn
      change due n < _
      omega) (by decide))
  have hstart := coapTimerStart_eq
    (s := ⟨queue, systemGetTime time / 1000, none, x.coap.trace ++
      ((x.coap.queue.find? fun n => n.id = id).map fun n => (n.pdu, time, What.removed)).toList⟩)
    hqueue rfl
  rw [← hstart]
  change coapResponseHandler time id x.coap = _
  rw [coapResponseHandler, coapTimerUpdate_eq]
  simp only [coapTimerStop, hremove]
  cases x.coap.queue.find? fun n => n.id = id with
  | none => simp [queue]
  | some n => simp [queue, Client.record]

/-- The message of a response does not wait any longer. -/
theorem answer_over (htrace : (step x (.answer time pdu id)).coap.trace = x.coap.trace ++
      ((x.coap.queue.find? fun n => n.id = id).map fun n => (n.pdu, time, What.removed)).toList) :
    Over (step x (.answer time pdu id)) pdu := by
  obtain ⟨hnow, htimer, hsent⟩ := hallowed
  obtain ⟨-, hfirst⟩ := hprompt
  cases hfind : x.coap.queue.find? fun n => n.id = id with
  | none =>
    rw [hfind] at htrace
    have hx := (h.settled pdu hsent).resolve_left fun ⟨n, hn, heq⟩ => by
      have hsome := (hfirst n hn).mpr heq
      rw [hfind] at hsome
      cases hsome
    refine hx.kept ?_ hnow (fun _ hans => List.mem_append_left _ hans) fun time' hans => ?_
    · rw [events_append htrace]
      simp
    · refine (List.mem_append.mp hans).imp (fun hold => hold) fun heq => ?_
      have htime : time' = time := congrArg Prod.fst (List.mem_singleton.mp heq)
      exact htime ▸ hnow
  | some n =>
    rw [hfind] at htrace
    have hn : n ∈ x.coap.queue := List.mem_of_find?_eq_some hfind
    have hw := h.waits n hn
    obtain rfl := (hfirst n hn).mp hfind
    refine .answered n.retransmitCnt hw.few time (Nat.le_refl _) ?_ (h.le_due htimer n hn)
      (List.mem_append_right _ List.mem_cons_self) fun time' hans => ?_
    · rw [events_append htrace, hw.events]
      simp
    · obtain hans | hans := List.mem_append.mp hans
      · exact absurd hans (hw.unanswered time')
      · exact Nat.le_of_eq (congrArg Prod.fst (List.mem_singleton.mp hans)).symm

theorem answer_onTime : OnTime (step x (.answer time pdu id)) := by
  obtain ⟨queue, hqueue, hmap, hcoap⟩ := answer_coap h hallowed hprompt
  have hover := answer_over h hallowed hprompt (congrArg Client.trace hcoap)
  obtain ⟨hnow, htimer, hsent⟩ := hallowed
  have hbare : queue.map bare = others pdu x.coap.queue := by
    rw [hmap (f := bare) fun _ _ => rfl, others, List.filter_map]
    rfl
  have hleft : ∀ n ∈ queue, n.pdu ≠ pdu := by
    intro n hn
    have hmem : bare n ∈ others pdu x.coap.queue := hbare ▸ List.mem_map_of_mem hn
    exact (mem_others.mp hmem).2
  have hacts : Acts x (step x (.answer time pdu id)) pdu queue
      ((x.coap.queue.find? fun n => n.id = id).map fun n => (n.pdu, time, .removed)).toList := {
    now := hnow
    coap := hcoap
    refreshed := Nat.le_refl _
    timed := hqueue
    trace := by
      intro e he
      obtain ⟨n, hfind, rfl⟩ := Option.map_eq_some_iff.mp (Option.mem_toList.mp he)
      exact (hprompt.2 n (List.mem_of_find?_eq_some hfind)).mp hfind
    messages := .inl ⟨rfl, hsent⟩
    answers := .inr rfl
    others := by
      rw [others, hbare, List.filter_eq_self.mpr fun n hn => ?_]
      exact decide_eq_true (mem_others.mp hn).2
    nodup := by
      rw [hmap (f := Node.pdu) fun _ _ => rfl]
      exact h.nodup.sublist (List.filter_sublist.map _)
    waits := fun n hn heq => absurd heq (hleft n hn)
    settled := .inr hover }
  exact hacts.onTime h

end Answer

theorem step_onTime {op : Op} (hallowed : Allowed x op) (hprompt : Prompt x op) :
    OnTime (step x op) := by
  cases op with
  | send time pconn r id => exact send_onTime h hallowed hprompt
  | answer time pdu id => exact answer_onTime h hallowed hprompt
  | tick time id =>
    obtain ⟨node, queue, hq, hdue⟩ := fired h hallowed
    by_cases hcnt : node.retransmitCnt < defaultMaxRetransmit
    · exact resend_onTime h hq hdue id hcnt
    · exact delete_onTime h hq hdue id hcnt

end Steps

theorem start_onTime : OnTime .start := by
  constructor <;> simp [World.start, Timed, systemGetTime]

/-! ## Runs -/

/-- Two messages within a second, a response to the second one, and the retransmissions of the
first one. -/
def twoMessages : List Op :=
  [.send 500 1 0 5, .send 1000500 1 255 6, .answer 1700500 ⟨1, 1000500, 2996⟩ 6, .tick 2000500 5,
    .tick 6000500 5, .tick 14000500 5, .tick 30000500 5, .tick 62000500 5]

/-- In a run whose sends and responses all find a fresh base time, every message is on schedule in
every state. -/
theorem run_onSchedule (ops : List Op)
    (h : Along step (fun x op => Allowed x op ∧ Prompt x op) .start ops) :
    Along step (fun x op => OnSchedule (step x op)) .start ops :=
  along_imp step _ _ (fun _ _ hy => hy.onSchedule) _ _
    (along_invariant step _ OnTime (fun _ _ hx hp => step_onTime hx hp.1 hp.2) _ ops start_onTime h)

theorem twoMessages_onSchedule :
    Along step (fun x op => OnSchedule (step x op)) .start twoMessages :=
  run_onSchedule twoMessages (by decide +kernel)

theorem time_of_sent {x : World} {m : Message} (h : Scheduled x m) (time : Nat)
    (ht : (time, .sent) ∈ events m x.coap) :
    ∃ k ≤ defaultMaxRetransmit, time = transmission m k := by
  have hsends : ∀ n ≤ defaultMaxRetransmit, (time, What.sent) ∈ sends m (n + 1) →
      ∃ k ≤ defaultMaxRetransmit, time = transmission m k := by
    intro n hn hmem
    obtain ⟨k, hk, heq⟩ := List.mem_map.mp hmem
    exact ⟨k, by have := List.mem_range.mp hk; omega, (congrArg Prod.fst heq).symm⟩
  cases h with
  | pending k few events next timer unanswered => exact hsends k few (events ▸ ht)
  | answered k few time' events next answer first =>
    rw [events] at ht
    exact hsends k few ((List.mem_append.mp ht).resolve_right (by simp))
  | dropped events unanswered =>
    rw [events] at ht
    exact hsends _ (Nat.le_refl _) ((List.mem_append.mp ht).resolve_right (by simp))

/-- A message is sent a second after the first retransmission of another one. -/
def lateMessage : List Op := [.send 0 1 0 5, .tick 2000000 5, .send 3000000 1 0 6, .tick 4000000 5]

/-- The next retransmission of the first message comes two seconds after the last one. -/
theorem lateMessage_not_onSchedule :
    Along step Allowed .start lateMessage ∧
      ¬Along step (fun x op => OnSchedule (step x op)) .start lateMessage := by
  refine ⟨by decide +kernel, fun h => ?_⟩
  have hlast : OnSchedule (run step .start lateMessage) := h.2.2.2.1
  have hm := hlast ⟨0, 0, 2000⟩ (by decide +kernel)
  obtain ⟨k, hk, htime⟩ := time_of_sent hm 4000000 (by decide +kernel)
  revert k
  decide +kernel

end NodeMcu.Coap.Schedule
