import NodeMcu.Lib.Delays
import NodeMcu.Lib.Run

namespace NodeMcu.Coap.Retransmission

open NodeMcu.Lib.Delays NodeMcu.Lib.Run

/-! ## Messages and nodes

Times are in microseconds from the start of the clock. -/

/-- A message that was sent to be confirmed. -/
structure Message where
  serial : Nat
  start : Nat
  timeout : Nat
  deriving DecidableEq

/-- A node of the queue. Its `t` are the milliseconds behind the node in front of it, and its `pdu`
stands for the message that it sends. -/
structure Node where
  t : Nat
  retransmitCnt : Nat
  timeout : Nat
  id : Nat
  pdu : Message
  pconn : Option Nat
  deriving DecidableEq

/-- What happens to a message: it is sent, it is removed for a response, or it is deleted by the
timer. -/
inductive What
  | sent
  | removed
  | deleted
  deriving DecidableEq

/-- The queue, the base time and the time at which the timer fires, if it is armed. `trace` keeps
what happened to the messages. -/
structure Client where
  queue : List Node
  basetime : Nat
  timer : Option Nat
  trace : List (Message × Nat × What)

def Client.record (s : Client) (pdu : Message) (time : Nat) (what : What) : Client :=
  { s with trace := s.trace ++ [(pdu, time, what)] }

/-! ## The queue -/

/-- A node in front of the first one that it comes before, whose time becomes relative to it. -/
def coapInsertNode : List Node → Node → List Node
  | [], node => [node]
  | q :: queue, node =>
    if node.t < q.t then node :: { q with t := q.t - node.t } :: queue
    else q :: coapInsertNode queue { node with t := node.t - q.t }

def addTime (t : Nat) : List Node → List Node
  | [] => []
  | q :: queue => { q with t := (q.t + t) % 2 ^ 32 } :: queue

/-- The first node with the transaction id, and the others. -/
def coapRemoveNode (id : Nat) : List Node → Option Node × List Node
  | [] => (none, [])
  | q :: queue =>
    if q.id = id then (some q, addTime q.t queue)
    else ((coapRemoveNode id queue).1, q :: (coapRemoveNode id queue).2)

/-! ## The timer -/

def sysTimeMax : Nat := 0xFFFFFFFF / 1000

def defaultResponseTimeout : Nat := 2

def defaultMaxRetransmit : Nat := 4

def ticksPerSecond : Nat := 1000

/-- The counter of microseconds. -/
def systemGetTime (time : Nat) : Nat := time % 2 ^ 32

/-- The milliseconds between two readings of the clock. -/
def coapTimerElapsed (now basetime : Nat) : Nat :=
  if basetime ≤ now then now - basetime else now + sysTimeMax - basetime

def coapTimerUpdate (time : Nat) (s : Client) : Client :=
  let now := systemGetTime time / 1000
  let diff := coapTimerElapsed now s.basetime
  match s.queue with
  | [] => { s with basetime := now }
  | first :: queue =>
    { s with
      basetime := now
      queue := { first with t := if diff ≤ first.t then first.t - diff else 0 } :: queue }

def coapTimerStop (s : Client) : Client := { s with timer := none }

def coapTimerStart (time : Nat) (s : Client) : Client :=
  match s.queue with
  | [] => s
  | node :: _ => { s with timer := some (time + 1000 * node.t) }

/-- The transaction id comes from the message and the address that the connection has then. -/
def coapSend (pconn : Option Nat) (pdu : Message) (time id : Nat) (s : Client) :
    Option Nat × Client :=
  match pconn with
  | none => (none, s)
  | some _ => (some id, s.record pdu time .sent)

/-- The timer has fired. -/
def coapTimerTick (time id : Nat) (s : Client) : Client :=
  match s.queue with
  | [] => s
  | node :: queue =>
    let s := { s with queue := queue }
    coapTimerStart time
      (if node.retransmitCnt < defaultMaxRetransmit then
        let cnt := node.retransmitCnt + 1
        match coapSend node.pconn node.pdu time id s with
        | (none, s) => s.record node.pdu time .deleted
        | (some id, s) =>
          { s with
            queue := coapInsertNode s.queue
              { node with retransmitCnt := cnt, t := (node.timeout <<< cnt) % 2 ^ 32, id := id } }
      else s.record node.pdu time .deleted)

/-! ## Sends and responses -/

/-- The timeout of a message, for a random number. -/
def responseTimeout (r : Nat) : Nat :=
  defaultResponseTimeout * ticksPerSecond +
    (defaultResponseTimeout >>> 1) * ((ticksPerSecond * (r &&& 0xFF)) >>> 8)

def coapSendConfirmed (time : Nat) (pconn : Option Nat) (pdu : Message) (r id : Nat) (s : Client) :
    Option Nat × Client :=
  match coapSend pconn pdu time id s with
  | (none, s) => (none, s)
  | (some id, s) =>
    let timeout := responseTimeout r
    let node : Node :=
      { t := timeout, retransmitCnt := 0, timeout := timeout, id := id, pdu := pdu, pconn := pconn }
    let s := coapTimerUpdate time (coapTimerStop s)
    (some id, coapTimerStart time { s with queue := coapInsertNode s.queue node })

/-- The part of the response handlers that has to do with the queue. -/
def coapResponseHandler (time id : Nat) (s : Client) : Client :=
  let s := coapTimerStop s
  let r := coapRemoveNode id s.queue
  let s := { s with queue := r.2 }
  let s := match r.1 with
    | none => s
    | some node => s.record node.pdu time .removed
  coapTimerStart time (coapTimerUpdate time s)

/-! ## Runs -/

/-- The world beside the queue: the time of the last step, the time of the last send or response,
the messages that were sent, and the responses to them that came. -/
structure World where
  coap : Client
  now : Nat
  refreshed : Nat
  messages : List Message
  answers : List (Nat × Message)

def World.start : World := ⟨⟨[], 0, none, []⟩, 0, 0, [], []⟩

inductive Op
  | send (time pconn r id : Nat)
  | answer (time : Nat) (pdu : Message) (id : Nat)
  | tick (time id : Nat)

/-- The next message, with the number of those in front of it. -/
def World.message (x : World) (time r : Nat) : Message :=
  ⟨x.messages.length, time, responseTimeout r⟩

def step (x : World) : Op → World
  | .send time pconn r id =>
    { x with
      coap := (coapSendConfirmed time (some pconn) (x.message time r) r id x.coap).2
      now := time
      refreshed := time
      messages := x.messages ++ [x.message time r] }
  | .answer time pdu id =>
    { x with
      coap := coapResponseHandler time id x.coap
      now := time
      refreshed := time
      answers := x.answers ++ [(time, pdu)] }
  | .tick time id =>
    { x with coap := coapTimerTick time id (coapTimerStop x.coap), now := time }

/-- The timer fires at its time, and nothing that comes later happens before it. Responses are to
messages that were sent. -/
def Allowed (x : World) : Op → Prop
  | .send time _ _ _ => x.now ≤ time ∧ ∀ at' ∈ x.coap.timer, time ≤ at'
  | .answer time pdu _ => x.now ≤ time ∧ (∀ at' ∈ x.coap.timer, time ≤ at') ∧ pdu ∈ x.messages
  | .tick time _ => x.coap.timer = some time

/-! ## Schedules -/

/-- The time of the transmission with this number: `timeout * 2 ^ k` milliseconds after the `k`-th
one comes the next. -/
def transmission (m : Message) : Nat → Nat
  | 0 => m.start
  | k + 1 => transmission m k + 1000 * (m.timeout * 2 ^ k)

/-- So many transmissions. -/
def sends (m : Message) (n : Nat) : List (Nat × What) :=
  (List.range n).map fun k => (transmission m k, .sent)

/-- What happened to a message. -/
def events (m : Message) (s : Client) : List (Nat × What) :=
  (s.trace.filter fun e => e.1 = m).map Prod.snd

/-- A message was sent at its times and then waits for the next of them, was answered before it, or
was dropped at the end. -/
inductive Scheduled (x : World) (m : Message) : Prop
  | pending (k : Nat) (few : k ≤ defaultMaxRetransmit) (events : events m x.coap = sends m (k + 1))
    (next : x.now ≤ transmission m (k + 1))
    (timer : ∃ at' ∈ x.coap.timer, at' ≤ transmission m (k + 1))
    (unanswered : ∀ time, (time, m) ∉ x.answers)
  | answered (k : Nat) (few : k ≤ defaultMaxRetransmit) (time : Nat)
    (events : events m x.coap = sends m (k + 1) ++ [(time, .removed)])
    (next : time ≤ transmission m (k + 1)) (answer : (time, m) ∈ x.answers)
    (first : ∀ time', (time', m) ∈ x.answers → time ≤ time')
  | dropped
    (events : events m x.coap = sends m (defaultMaxRetransmit + 1) ++
      [(transmission m (defaultMaxRetransmit + 1), .deleted)])
    (unanswered : ∀ time, (time, m) ∈ x.answers →
      transmission m (defaultMaxRetransmit + 1) ≤ time)

/-- Every message is on schedule. -/
def OnSchedule (x : World) : Prop := ∀ m ∈ x.messages, Scheduled x m

/-! ## The clock -/

/-- The clock counts the milliseconds from one time to another without a rest: it does not wrap in
between and shows the same part of a millisecond, or it wraps once with a difference that makes up
for what the wrap leaves out. -/
def Counted (time time' : Nat) : Prop :=
  (time' / 2 ^ 32 = time / 2 ^ 32 ∧ time' % 2 ^ 32 % 1000 = time % 2 ^ 32 % 1000) ∨
    (time' / 2 ^ 32 = time / 2 ^ 32 + 1 ∧ time' % 2 ^ 32 / 1000 < time % 2 ^ 32 / 1000 ∧
      time % 2 ^ 32 % 1000 = time' % 2 ^ 32 % 1000 + 296)

instance (time time' : Nat) : Decidable (Counted time time') := inferInstanceAs (Decidable (_ ∨ _))

/-- The time of the next transmission of a node's message. -/
def due (n : Node) : Nat := transmission n.pdu (n.retransmitCnt + 1)

/-- Where a message waits, no tick has come since the last send or response and the clock counts
the time since then, or the first of those that wait is due right now. -/
def Fresh (x : World) (queue : List Node) (time : Nat) : Prop :=
  ∀ n ∈ queue.head?, (x.now = x.refreshed ∧ Counted x.refreshed time) ∨
    (due n = time ∧ time / 2 ^ 32 = x.refreshed / 2 ^ 32)

/-- The base time is fresh for the other messages, and a response finds no other message than its
own. -/
def Prompt (x : World) : Op → Prop
  | .send time _ _ _ => Fresh x x.coap.queue time
  | .answer time pdu id => Fresh x (x.coap.queue.filter fun n => n.pdu ≠ pdu) time ∧
      ∀ n ∈ x.coap.queue, (x.coap.queue.find? fun n => n.id = id) = some n ↔ n.pdu = pdu
  | .tick _ _ => True

instance (x : World) (op : Op) : Decidable (Allowed x op) :=
  match op with
  | .send _ _ _ _ => inferInstanceAs (Decidable (_ ∧ _))
  | .answer _ _ _ => inferInstanceAs (Decidable (_ ∧ _ ∧ _))
  | .tick _ _ => inferInstanceAs (Decidable (_ = _))

instance (x : World) (queue : List Node) (time : Nat) : Decidable (Fresh x queue time) :=
  inferInstanceAs (Decidable (∀ _ ∈ queue.head?, _))

instance (x : World) (op : Op) : Decidable (Prompt x op) :=
  match op with
  | .send _ _ _ _ => inferInstanceAs (Decidable (Fresh _ _ _))
  | .answer _ _ _ => inferInstanceAs (Decidable (_ ∧ ∀ _ ∈ _, _))
  | .tick _ _ => inferInstanceAs (Decidable True)

end NodeMcu.Coap.Retransmission
