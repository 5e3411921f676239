import NodeMcu.Coap.Retransmission

namespace NodeMcu.Coap.Deadlines

open NodeMcu.Lib.Delays NodeMcu.Coap.Retransmission

/-! ## The clock -/

/-- The difference of two readings is the time in between exactly when the clock counts it. -/
theorem elapsed_iff {time time' : Nat} (h : time ≤ time') :
    time + 1000 * coapTimerElapsed (systemGetTime time' / 1000) (systemGetTime time / 1000) =
      time' ↔ Counted time time' := by
  have hmax : sysTimeMax = 4294967 := rfl
  rw [coapTimerElapsed, systemGetTime, systemGetTime, Counted, hmax]
  split_ifs <;> omega

/-- Without a wrap at least the time from any point in between is counted. -/
theorem le_elapsed {time now time' t : Nat} (h : time ≤ now) (ht : now + 1000 * t = time')
    (hperiod : time' / 2 ^ 32 = time / 2 ^ 32) :
    t ≤ coapTimerElapsed (systemGetTime time' / 1000) (systemGetTime time / 1000) := by
  have hle : systemGetTime time / 1000 ≤ systemGetTime time' / 1000 := by
    simp only [systemGetTime]
    omega
  rw [coapTimerElapsed, if_pos hle]
  simp only [systemGetTime]
  omega

/-! ## The queue as a list of delays -/

def nodeDelay : Delayed Node where
  delay := Node.t
  put t n := { n with t := t }
  due := due
  delay_put _ _ := rfl
  due_put _ _ := rfl

theorem coapInsertNode_eq (queue : List Node) (node : Node) :
    coapInsertNode queue node = enqueue nodeDelay queue node := by
  induction queue generalizing node with
  | nil => rfl
  | cons q queue ih =>
    rw [coapInsertNode, enqueue, ih]
    rfl

section Find

variable {id : Nat} {q : Node} (queue : List Node)

theorem find_pos (h : q.id = id) : ((q :: queue).find? fun n => n.id = id) = some q :=
  List.find?_cons_of_pos (decide_eq_true h)

theorem find_neg (h : q.id ≠ id) :
    ((q :: queue).find? fun n => n.id = id) = queue.find? fun n => n.id = id :=
  List.find?_cons_of_neg (by simpa using h)

end Find

/-- The time of a removed node is added without overflow where the times together have none. -/
theorem coapRemoveNode_eq (id : Nat) {queue : List Node}
    (h : (queue.map nodeDelay.delay).sum < 2 ^ 32) :
    coapRemoveNode id queue =
      (queue.find? (fun n => n.id = id), remove nodeDelay (fun n => n.id = id) queue) := by
  induction queue with
  | nil => rfl
  | cons q queue ih =>
    rw [List.map_cons, List.sum_cons] at h
    rw [coapRemoveNode, remove]
    by_cases hid : q.id = id
    · rw [if_pos hid, if_pos (decide_eq_true hid), find_pos queue hid]
      congr 1
      cases queue with
      | nil => rfl
      | cons q' queue =>
        have hlt : q'.t + q.t < 2 ^ 32 := by
          rw [List.map_cons, List.sum_cons] at h
          change q.t + (q'.t + _) < _ at h
          omega
        rw [addTime, postpone, Nat.mod_eq_of_lt hlt]
        rfl
    · rw [if_neg hid, if_neg (by simpa using hid), find_neg queue hid, ih (by omega)]

theorem coapTimerUpdate_eq (time : Nat) (s : Client) :
    coapTimerUpdate time s = { s with
      basetime := systemGetTime time / 1000
      queue := advance nodeDelay (coapTimerElapsed (systemGetTime time / 1000) s.basetime) s.queue
    } := by
  obtain ⟨queue, basetime, timer, trace⟩ := s
  cases queue with
  | nil => rfl
  | cons first queue =>
    have hsub : (if coapTimerElapsed (systemGetTime time / 1000) basetime ≤ first.t
        then first.t - coapTimerElapsed (systemGetTime time / 1000) basetime else 0) =
        first.t - coapTimerElapsed (systemGetTime time / 1000) basetime := by
      split_ifs <;> omega
    simp only [coapTimerUpdate, hsub]
    rfl

/-- The nodes that are left are those of other messages. -/
theorem map_remove_eq {β : Type} {f : Node → β} (hf : ∀ d n, f (nodeDelay.put d n) = f n)
    (pdu : Message) (id : Nat) {queue : List Node} (hnodup : (queue.map Node.pdu).Nodup)
    (hfirst : ∀ n ∈ queue, (queue.find? fun n => n.id = id) = some n ↔ n.pdu = pdu) :
    (remove nodeDelay (fun n => n.id = id) queue).map f =
      (queue.filter fun n => n.pdu ≠ pdu).map f := by
  induction queue with
  | nil => rfl
  | cons q queue ih =>
    rw [List.map_cons, List.nodup_cons] at hnodup
    have hq := hfirst q List.mem_cons_self
    rw [remove]
    by_cases hid : q.id = id
    · rw [find_pos queue hid] at hq
      have hpdu := hq.mp rfl
      rw [if_pos (decide_eq_true hid), map_postpone hf,
        List.filter_cons_of_neg (by simpa using hpdu), List.filter_eq_self.mpr fun n hn => ?_]
      have hne : n.pdu ≠ q.pdu := fun h => hnodup.1 (h ▸ List.mem_map_of_mem hn)
      simpa [hpdu] using hne
    · rw [find_neg queue hid] at hq
      simp only [find_neg queue hid] at hfirst
      have hne : q.pdu ≠ pdu := fun h => hid (by simpa using List.find?_some (hq.mpr h))
      rw [if_neg (by simpa using hid), List.filter_cons_of_pos (by simpa using hne), List.map_cons,
        List.map_cons, ih hnodup.2 fun n hn => hfirst n (List.mem_cons_of_mem q hn)]

theorem coapTimerStart_eq {time : Nat} {s : Client} (h : Timed nodeDelay 1000 time s.queue)
    (hoff : s.timer = none) :
    coapTimerStart time s = { s with timer := s.queue.head?.map due } := by
  obtain ⟨queue, basetime, timer, trace⟩ := s
  cases queue with
  | nil => exact congrArg (Client.mk [] basetime · trace) hoff
  | cons n queue =>
    have hdue : due n = time + 1000 * n.t := h.1
    simp only [coapTimerStart, List.head?_cons, Option.map_some, hdue]

end NodeMcu.Coap.Deadlines
