import Mathlib.Data.List.Induction
import NodeMcu.Coap.Deadlines

namespace NodeMcu.Coap.DeltaQueue

open NodeMcu.Lib.Delays NodeMcu.Lib.Run NodeMcu.Coap.Retransmission NodeMcu.Coap.Deadlines

/-! ## The queue and its times -/

/-- The first node, and the others. -/
def coapPopNext : List Node → Option Node × List Node
  | [] => (none, [])
  | next :: queue => (some next, queue)

/-- What a queue leaves as it is. -/
def content (n : Node) : Node := { n with t := 0 }

/-- The nodes with the times that the queue stands for. -/
def agenda (base : Nat) (queue : List Node) : List (Nat × Node) :=
  times nodeDelay content base queue

/-- A queue whose first node waits from `base` on. All its times can be told in ticks from there. -/
structure Timeline where
  base : Nat
  queue : List Node
  ticks : ∀ e ∈ agenda base queue, e.1 < base + 2 ^ 32

def Timeline.agenda (s : Timeline) : List (Nat × Node) := DeltaQueue.agenda s.base s.queue

theorem content_put (d : Nat) (n : Node) : content (nodeDelay.put d n) = content n := rfl

section Operations

variable (s : Timeline)

/-- A node comes between others. -/
theorem insert_between (node : Node) :
    ∃ before behind, s.agenda = before ++ behind ∧
      agenda s.base (coapInsertNode s.queue node) =
        before ++ (s.base + node.t, content node) :: behind := by
  rw [coapInsertNode_eq]
  exact times_enqueue content_put node

theorem insert_ticks {node : Node} (hnode : node.t < 2 ^ 32) :
    ∀ e ∈ agenda s.base (coapInsertNode s.queue node), e.1 < s.base + 2 ^ 32 := by
  obtain ⟨before, behind, hbefore, hinsert⟩ := insert_between s node
  have hticks := s.ticks
  change ∀ e ∈ s.agenda, _ at hticks
  rw [hbefore] at hticks
  rw [hinsert]
  intro e he
  obtain he | he := List.mem_append.mp he
  · exact hticks e (List.mem_append_left _ he)
  · obtain rfl | he := List.mem_cons.mp he
    · exact Nat.add_lt_add_left hnode _
    · exact hticks e (List.mem_append_right _ he)

/-- The first node leaves when its time has come, from which the next one counts then. -/
def popBase : Nat := (coapPopNext s.queue).1.elim s.base fun next => s.base + next.t

theorem pop_first :
    s.agenda = s.agenda.head?.toList ++ agenda (popBase s) (coapPopNext s.queue).2 := by
  obtain ⟨base, queue, ticks⟩ := s
  cases queue with
  | nil => rfl
  | cons n queue => rfl

theorem pop_ticks :
    ∀ e ∈ agenda (popBase s) (coapPopNext s.queue).2, e.1 < popBase s + 2 ^ 32 := by
  have hbase : s.base ≤ popBase s := by
    rw [popBase]
    cases (coapPopNext s.queue).1 with
    | none => exact Nat.le_refl _
    | some n => exact Nat.le_add_right _ _
  intro e he
  have hlt := s.ticks e (by
    change e ∈ s.agenda
    rw [pop_first]
    exact List.mem_append_right _ he)
  omega

/-- A node leaves from between others. -/
theorem remove_between (id : Nat) :
    ∃ before behind,
      s.agenda = before ++ ((s.agenda.find? fun e => e.2.id = id).toList ++ behind) ∧
      agenda s.base (coapRemoveNode id s.queue).2 = before ++ behind := by
  rw [coapRemoveNode_eq id (times_sum_lt s.ticks (by decide))]
  exact times_remove content_put (r := fun n => decide (n.id = id)) fun _ => rfl

theorem remove_ticks (id : Nat) :
    ∀ e ∈ agenda s.base (coapRemoveNode id s.queue).2, e.1 < s.base + 2 ^ 32 := by
  obtain ⟨before, behind, hbefore, hremove⟩ := remove_between s id
  have hticks := s.ticks
  change ∀ e ∈ s.agenda, _ at hticks
  rw [hbefore] at hticks
  rw [hremove]
  intro e he
  obtain he | he := List.mem_append.mp he
  · exact hticks e (List.mem_append_left _ he)
  · exact hticks e (List.mem_append_right _ (List.mem_append_right _ he))

end Operations

/-! ## Runs -/

/-- A node is inserted with a time in ticks from the base on. -/
inductive Op
  | insert (node : Node) (ticks : node.t < 2 ^ 32)
  | pop
  | remove (id : Nat)

def step (s : Timeline) : Op → Timeline
  | .insert node ticks => ⟨s.base, coapInsertNode s.queue node, insert_ticks s ticks⟩
  | .pop => ⟨popBase s, (coapPopNext s.queue).2, pop_ticks s⟩
  | .remove id => ⟨s.base, (coapRemoveNode id s.queue).2, remove_ticks s id⟩

/-- The node that comes, with its own time. -/
def inserted (s : Timeline) : Op → List (Nat × Node)
  | .insert node _ => [(s.base + node.t, content node)]
  | _ => []

/-- The node that leaves. -/
def removed (s : Timeline) : Op → List (Nat × Node)
  | .insert _ _ => []
  | .pop => s.agenda.head?.toList
  | .remove id => (s.agenda.find? fun e => e.2.id = id).toList

/-- Around the node that comes or leaves all others stay as they are. -/
theorem step_between (s : Timeline) (op : Op) :
    ∃ before behind, s.agenda = before ++ (removed s op ++ behind) ∧
      (step s op).agenda = before ++ (inserted s op ++ behind) := by
  cases op with
  | insert node ticks => exact insert_between s node
  | pop => exact ⟨[], (step s .pop).agenda, pop_first s, rfl⟩
  | remove id => exact remove_between s id

theorem step_account (s : Timeline) (op : Op) :
    (s.agenda ++ inserted s op).Perm ((step s op).agenda ++ removed s op) := by
  obtain ⟨before, behind, hs, hstep⟩ := step_between s op
  rw [hs, hstep, List.append_assoc, List.append_assoc, List.append_assoc, List.append_assoc]
  refine .append_left before (List.perm_append_comm.trans ?_)
  rw [List.append_assoc]
  exact List.perm_append_comm_assoc _ _ _

/-- In every queue that is reached the times are in order, every node that was there or was inserted
and has not left is there once with its own time, and the next operation leaves the others as they
are. -/
theorem run_agenda (s : Timeline) (ops : List Op) :
    ((run step s ops).agenda.map Prod.fst).Pairwise (· ≤ ·) ∧
      (s.agenda ++ gather step inserted s ops).Perm
        ((run step s ops).agenda ++ gather step removed s ops) ∧
      ∀ op, ∃ before behind,
        (run step s ops).agenda = before ++ (removed (run step s ops) op ++ behind) ∧
        (step (run step s ops) op).agenda =
          before ++ (inserted (run step s ops) op ++ behind) :=
  ⟨times_sorted, gather_account step Timeline.agenda inserted removed step_account s ops,
    step_between (run step s ops)⟩

/-! ## All queues -/

def Timeline.empty (base : Nat) : Timeline := ⟨base, [], fun _ he => (List.not_mem_nil he).elim⟩

/-- A queue is built of its nodes, each inserted at its own time. -/
theorem built (s : Timeline) : ∃ ops, run step (.empty s.base) ops = s := by
  obtain ⟨base, queue, ticks⟩ := s
  dsimp only
  induction queue using List.reverseRecOn with
  | nil => exact ⟨[], rfl⟩
  | append_singleton queue n ih =>
    have hlast : agenda base (queue ++ [n]) = agenda base queue ++
        [(base + ((queue.map Node.t).sum + n.t), content n)] := times_concat n
    have hticks : ∀ e ∈ agenda base queue, e.1 < base + 2 ^ 32 := fun e he =>
      ticks e (by rw [hlast]; exact List.mem_append_left _ he)
    have hn : (queue.map Node.t).sum + n.t < 2 ^ 32 := by
      have := ticks (base + ((queue.map Node.t).sum + n.t), content n) (by
        rw [hlast]
        exact List.mem_append_right _ List.mem_cons_self)
      exact Nat.lt_of_add_lt_add_left this
    obtain ⟨ops, hops⟩ := ih hticks
    refine ⟨ops ++ [.insert { n with t := (queue.map Node.t).sum + n.t } hn], ?_⟩
    have hinsert : coapInsertNode queue { n with t := (queue.map Node.t).sum + n.t } =
        queue ++ [n] := by
      rw [coapInsertNode_eq]
      exact enqueue_last (D := nodeDelay) (fun _ _ _ => rfl) n.t n
    rw [run_append, hops]
    simp only [run_cons, run_nil, step, hinsert]

end NodeMcu.Coap.DeltaQueue
