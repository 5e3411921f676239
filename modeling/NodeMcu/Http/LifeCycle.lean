import NodeMcu.Http.Accumulation
import NodeMcu.Http.Request

namespace NodeMcu.Http.LifeCycle

open NodeMcu.Lib.Run NodeMcu.Lib.Text
open NodeMcu.Http.Response NodeMcu.Http.Request NodeMcu.Http.Accumulation

/-! ## A request and its memory -/

/-- The blocks that a request obtains. A buffer that grows is a new block. -/
inductive Block
  | req | hostname | method | path | headers | noHeaders | postData | conn | tcp
  | buffer (generation : Nat)
  deriving DecidableEq

/-- What the system is to call back. -/
inductive Link
  | resolving | unresolved | connecting | connected | closed
  deriving DecidableEq

/-- A request, the blocks that are allocated for it, what it has asked the system for, and what
it has done. -/
structure Request where
  args : RequestArgs
  callbackHandle : Bool
  buffer : List UInt8
  generation : Nat
  live : Block → Bool
  timer : Bool
  link : Link
  outstanding : Nat
  sent : List (List UInt8)
  delivered : List Delivery

def Request.alloc (b : Block) (r : Request) : Request :=
  { r with live := Function.update r.live b true }

/-- There is no result where a block is used that is not allocated. -/
def Request.use (bs : List Block) (r : Request) : Option Request :=
  if bs.all r.live then some r else none

def Request.free (b : Block) (r : Request) : Option Request :=
  if r.live b then some { r with live := Function.update r.live b false } else none

/-- One after the other. -/
def Request.freeAll (bs : List Block) (r : Request) : Option Request :=
  bs.foldlM (fun r b => r.free b) r

def Request.deliver (d : Delivery) (r : Request) : Request :=
  { r with delivered := if r.callbackHandle then r.delivered ++ [d] else r.delivered }

def Request.send (data : List UInt8) (r : Request) : Request :=
  { r with sent := r.sent ++ [data], outstanding := r.outstanding + 1 }

/-- The callback of a name that is not found. -/
def notFound : Delivery := ⟨[0], -1, [0]⟩

def httpDnsCallback (found : Bool) (r : Request) : Option Request := do
  let r ← r.use [.req]
  if found then
    some { (r.alloc .conn).alloc .tcp with timer := true, link := .connecting }
  else
    let r ← (r.deliver notFound).free .req
    some { r with link := .unresolved }

inductive Gethostbyname
  | inprogress | ok | error
  deriving DecidableEq

def firstBlocks (args : RequestArgs) : Block → Bool
  | .req | .hostname | .method | .path => true
  | .headers => args.headers.isSome
  | .postData => args.postData.isSome
  | .buffer generation => generation == 0
  | .noHeaders | .conn | .tcp => false

/-- A request for which there is memory. -/
def newRequest (args : RequestArgs) (callbackHandle : Bool) : Request where
  args
  callbackHandle
  buffer := initialBuffer
  generation := 0
  live := firstBlocks args
  timer := false
  link := .resolving
  outstanding := 0
  sent := []
  delivered := []

def httpRawRequest (args : RequestArgs) (callbackHandle : Bool) (result : Gethostbyname) :
    Option Request :=
  let r := newRequest args callbackHandle
  match result with
  | .inprogress => some r
  | .ok => httpDnsCallback true r
  | .error => httpDnsCallback false r

/-- The text is printed into an array of its own, whose size is computed beforehand. -/
def sendHeader (block : Block) (r : Request) : Option Request := do
  let r ← r.use [.method, .path, .hostname, block]
  let r ← r.use (if r.args.postData.isSome then [.postData] else [])
  guard ((requestHeader r.args).length + 1 ≤ bufferSize r.args)
  let r ← (r.send (requestHeader r.args)).free block
  some { r with args := { r.args with headers := none }, link := .connected }

def httpConnectCallback (r : Request) : Option Request := do
  let r ← r.use [.conn, .req]
  if r.args.headers.isSome then sendHeader .headers r
  else sendHeader .noHeaders (r.alloc .noHeaders)

def httpSendCallback (r : Request) : Option Request := do
  let r ← r.use [.conn, .req]
  match r.args.postData with
  | none => some r
  | some data =>
    let r ← r.use [.postData]
    let r ← (r.send data).free .postData
    some { r with args := { r.args with postData := none } }

/-- A segment that is lost marks the buffer and asks for the end of the connection. -/
def httpReceiveSegment (s : Segment) (r : Request) : Option Request := do
  let r ← r.use [.conn, .req, .buffer r.generation]
  if bufferSizeMax < r.buffer.length + s.buf.length ∨ s.malloc = false then
    some { r with buffer := httpReceiveCallback r.buffer s }
  else
    let r ← (r.alloc (.buffer (r.generation + 1))).free (.buffer r.generation)
    some { r with
      buffer := httpReceiveCallback r.buffer s
      generation := r.generation + 1 }

def httpClosedCallback (overflow : Int) (r : Request) : Option Request := do
  let r ← r.use [.conn]
  let r ← r.free .tcp
  let r ← r.use [.req, .buffer r.generation]
  match httpDisconnectCallback overflow r.buffer with
  | .error _ => none
  | .ok d =>
    let r ← ({ r with timer := false }.deliver d).freeAll
      [.buffer r.generation, .hostname, .method, .path, .req, .conn]
    some { r with link := .closed }

/-- The end of the connection is asked for. -/
def httpTimeoutCallback (r : Request) : Option Request := r.use [.conn, .req]

/-! ## What the system calls back -/

inductive Event
  | resolved (found : Bool)
  | connected
  | sent
  | received (s : Segment)
  | disconnected
  | timeout

def Event.segment : Event → Option Segment
  | .received s => some s
  | _ => none

variable (overflow : Int)

def handle (r : Request) : Event → Option Request
  | .resolved found => httpDnsCallback found r
  | .connected => httpConnectCallback r
  | .sent => httpSendCallback { r with outstanding := r.outstanding - 1 }
  | .received s => httpReceiveSegment s r
  | .disconnected => httpClosedCallback overflow r
  | .timeout => httpTimeoutCallback { r with timer := false }

def step (r : Option Request) (e : Event) : Option Request := r.bind (handle overflow · e)

/-- What the system promises: an answer for each thing that was asked for, and none after the end
of a connection. A connection ends where the body that was received can be decoded. -/
def Promised (r : Request) : Event → Prop
  | .resolved _ => r.link = .resolving
  | .connected => r.link = .connecting
  | .sent => r.link = .connected ∧ 0 < r.outstanding
  | .received _ => r.link = .connected
  | .disconnected => (r.link = .connecting ∨ r.link = .connected) ∧
      ∃ d, httpDisconnectCallback overflow r.buffer = .ok d
  | .timeout => r.timer = true

instance (buffer : List UInt8) : Decidable (∃ d, httpDisconnectCallback overflow buffer = .ok d) :=
  match httpDisconnectCallback overflow buffer with
  | .ok d => .isTrue ⟨d, rfl⟩
  | .error _ => .isFalse nofun

instance (r : Request) (e : Event) : Decidable (Promised overflow r e) :=
  match e with
  | .resolved _ => inferInstanceAs (Decidable (r.link = .resolving))
  | .connected => inferInstanceAs (Decidable (r.link = .connecting))
  | .sent => inferInstanceAs (Decidable (r.link = .connected ∧ 0 < r.outstanding))
  | .received _ => inferInstanceAs (Decidable (r.link = .connected))
  | .disconnected => inferInstanceAs (Decidable ((r.link = .connecting ∨ r.link = .connected) ∧
      ∃ d, httpDisconnectCallback overflow r.buffer = .ok d))
  | .timeout => inferInstanceAs (Decidable (r.timer = true))

/-! ## What holds in every state -/

/-- The blocks to which a request has a pointer. At the end those that are left are lost. -/
def owned (r : Request) : Block → Bool
  | .req => decide (r.link ≠ .unresolved ∧ r.link ≠ .closed)
  | .hostname | .method | .path => decide (r.link ≠ .closed)
  | .headers => r.args.headers.isSome
  | .postData => r.args.postData.isSome
  | .noHeaders => false
  | .conn | .tcp => decide (r.link = .connecting ∨ r.link = .connected)
  | .buffer generation => decide (generation = r.generation ∧ r.link ≠ .closed)

/-- What is left of the arguments, and what has been sent: the header goes first, the data of a
post follow it once. -/
inductive Progress (args : RequestArgs) : RequestArgs → List (List UInt8) → Prop
  | unsent : Progress args args []
  | header : Progress args { args with headers := none } [requestHeader args]
  | data {data : List UInt8} (h : args.postData = some data) :
    Progress args { args with headers := none, postData := none } [requestHeader args, data]

/-- What the callback has been called with after the segments that were received. -/
def Delivered (callbackHandle : Bool) (segments : List Segment) (r : Request) : Prop :=
  match r.link with
  | .unresolved => r.delivered = if callbackHandle then [notFound] else []
  | .closed => ∃ d, httpDisconnectCallback overflow (received segments) = .ok d ∧
      r.delivered = if callbackHandle then [d] else []
  | _ => r.delivered = []

structure Sound (args : RequestArgs) (callbackHandle : Bool) (segments : List Segment)
    (r : Request) : Prop where
  live : r.live = owned r
  progress : Progress args r.args r.sent
  unsent : r.link ≠ .connected → r.link ≠ .closed → r.sent = []
  header : r.link = .connected → r.sent ≠ []
  callback : r.callbackHandle = callbackHandle
  buffer : r.buffer = received segments
  delivered : Delivered overflow callbackHandle segments r
  timer : r.timer = true → r.link = .connecting ∨ r.link = .connected

section Steps

variable {overflow} {args : RequestArgs} {callbackHandle : Bool} {segments : List Segment}
variable {r : Request}

theorem use_of {bs : List Block} (h : bs.all r.live = true) : r.use bs = some r := if_pos h

theorem free_of {b : Block} (h : r.live b = true) :
    r.free b = some { r with live := Function.update r.live b false } := if_pos h

theorem freeAll_of {bs : List Block} (hnodup : bs.Nodup) (h : ∀ b ∈ bs, r.live b = true) :
    r.freeAll bs = some { r with live := fun b => r.live b && decide (b ∉ bs) } := by
  induction bs generalizing r with
  | nil => simp [Request.freeAll]
  | cons b bs ih =>
    obtain ⟨hb, hnodup⟩ := List.nodup_cons.mp hnodup
    rw [List.forall_mem_cons] at h
    have hrest : ∀ c ∈ bs, Function.update r.live b false c = true := by
      intro c hc
      rw [Function.update_of_ne (ne_of_mem_of_not_mem hc hb)]
      exact h.2 c hc
    have hstep : r.freeAll (b :: bs) =
        Request.freeAll bs { r with live := Function.update r.live b false } := by
      rw [Request.freeAll, List.foldlM_cons, free_of h.1]
      rfl
    rw [hstep, ih hnodup hrest]
    congr 2
    funext c
    by_cases hc : c = b <;> simp [hc]

theorem Progress.unsent_args {left : RequestArgs} (h : Progress args left []) : left = args := by
  cases h
  rfl

theorem Sound.args_of_unsent (h : Sound overflow args callbackHandle segments r)
    (hsent : r.sent = []) : r.args = args := Progress.unsent_args (hsent ▸ h.progress)

theorem sound_new : Sound overflow args callbackHandle [] (newRequest args callbackHandle) where
  live := by
    funext b
    cases b <;> simp [newRequest, firstBlocks, owned, beq_eq_decide]
  progress := .unsent
  unsent _ _ := rfl
  header := nofun
  callback := rfl
  buffer := rfl
  delivered := rfl
  timer := nofun

theorem Sound.resolved (h : Sound overflow args callbackHandle segments r)
    (hlink : r.link = .resolving) (found : Bool) :
    ∃ r', httpDnsCallback found r = some r' ∧
      Sound overflow args callbackHandle segments r' := by
  have hreq : r.live .req = true := by simp [h.live, owned, hlink]
  have hsent := h.unsent (by simp [hlink]) (by simp [hlink])
  have hdelivered : r.delivered = [] := by simpa [Delivered, hlink] using h.delivered
  have htimer : r.timer = false := by
    by_contra htimer
    have := h.timer (by simpa using htimer)
    simp [hlink] at this
  rw [httpDnsCallback, use_of (by simp [hreq])]
  cases found with
  | true =>
    refine ⟨_, rfl, ⟨?_, h.progress, fun _ _ => hsent, nofun, h.callback, h.buffer, hdelivered,
      fun _ => .inl rfl⟩⟩
    funext b
    cases b <;> simp [Request.alloc, h.live, owned, hlink, Function.update]
  | false =>
    have hfree : (r.deliver notFound).live .req = true := hreq
    simp only [Option.bind_eq_bind, Option.bind_some, free_of hfree]
    refine ⟨_, rfl, ⟨?_, h.progress, fun _ _ => hsent, nofun, h.callback, h.buffer, ?_, ?_⟩⟩
    · funext b
      cases b <;> simp [Request.deliver, h.live, owned, hlink, Function.update]
    · simp [Delivered, Request.deliver, hdelivered, h.callback]
    · simp [Request.deliver, htimer]

theorem sendHeader_of {block : Block}
    (huse : [.method, .path, .hostname, block].all r.live = true)
    (hpost : r.args.postData.isSome = true → r.live .postData = true)
    (hfits : (requestHeader r.args).length + 1 ≤ bufferSize r.args) :
    sendHeader block r = some { r with
      args := { r.args with headers := none }
      live := Function.update r.live block false
      link := .connected
      outstanding := r.outstanding + 1
      sent := r.sent ++ [requestHeader r.args] } := by
  have hused : (if r.args.postData.isSome then [Block.postData] else []).all r.live = true := by
    split
    · simpa using hpost ‹_›
    · rfl
  have hblock : (r.send (requestHeader r.args)).live block = true := by
    simp only [List.all_cons, Bool.and_eq_true] at huse
    exact huse.2.2.2.1
  simp only [sendHeader, use_of huse, Option.bind_eq_bind, Option.bind_some, use_of hused, guard,
    if_pos hfits, free_of hblock]
  rfl

theorem Sound.connected (h : Sound overflow args callbackHandle segments r)
    (hlink : r.link = .connecting)
    (hfits : (requestHeader args).length + 1 ≤ bufferSize args) :
    ∃ r', httpConnectCallback r = some r' ∧
      Sound overflow args callbackHandle segments r' := by
  have hsent := h.unsent (by simp [hlink]) (by simp [hlink])
  have hargs := h.args_of_unsent hsent
  have hdelivered : r.delivered = [] := by simpa [Delivered, hlink] using h.delivered
  have hprogress : Progress args { r.args with headers := none }
      (r.sent ++ [requestHeader r.args]) := by
    rw [hsent, hargs]
    exact .header
  rw [httpConnectCallback, use_of (by simp [h.live, owned, hlink])]
  simp only [Option.bind_eq_bind, Option.bind_some]
  by_cases hheaders : r.args.headers.isSome
  · rw [if_pos hheaders, sendHeader_of (by simp [h.live, owned, hlink, hheaders])
      (by simp [h.live, owned]) (hargs ▸ hfits)]
    refine ⟨_, rfl, ⟨?_, hprogress, nofun, fun _ => by simp, h.callback, h.buffer,
      hdelivered, fun _ => .inr rfl⟩⟩
    funext b
    cases b <;> simp [h.live, owned, hlink, Function.update]
  · rw [if_neg hheaders, sendHeader_of (by simp [Request.alloc, h.live, owned, hlink])
      (by simp [Request.alloc, h.live, owned]) (by simpa [Request.alloc, hargs] using hfits)]
    refine ⟨_, rfl, ⟨?_, hprogress, nofun, fun _ => by simp [Request.alloc], h.callback, h.buffer,
      hdelivered, fun _ => .inr rfl⟩⟩
    funext b
    cases b <;> simp_all [Request.alloc, h.live, owned, Function.update]

/-- What is left of the arguments when the header has been sent. -/
theorem Progress.data_left {left : RequestArgs} {sent : List (List UInt8)}
    (h : Progress args left sent) (hsent : sent ≠ []) {data : List UInt8}
    (hdata : left.postData = some data) :
    Progress args { left with postData := none } (sent ++ [data]) := by
  cases h with
  | unsent => exact absurd rfl hsent
  | header => exact .data hdata
  | data _ => cases hdata

theorem Sound.sent (h : Sound overflow args callbackHandle segments r)
    (hlink : r.link = .connected) (outstanding : Nat) :
    ∃ r', httpSendCallback { r with outstanding } = some r' ∧
      Sound overflow args callbackHandle segments r' := by
  have hdelivered : r.delivered = [] := by simpa [Delivered, hlink] using h.delivered
  rw [httpSendCallback, use_of (by simp [h.live, owned, hlink])]
  simp only [Option.bind_eq_bind, Option.bind_some]
  cases hdata : r.args.postData with
  | none => exact ⟨_, rfl, ⟨h.live, h.progress, h.unsent, h.header, h.callback, h.buffer,
      h.delivered, h.timer⟩⟩
  | some data =>
    have hlive : r.live .postData = true := by simp [h.live, owned, hdata]
    have hfree : (Request.send data { r with outstanding }).live .postData = true := hlive
    have huse : Request.use [.postData] { r with outstanding } = some { r with outstanding } :=
      use_of (by simp [hlive])
    simp only [huse, Option.bind_some, free_of hfree]
    refine ⟨_, rfl, ⟨?_, h.progress.data_left (h.header hlink) hdata, fun hc => absurd hlink hc,
      fun _ => by simp [Request.send], h.callback, h.buffer, ?_, fun _ => .inr hlink⟩⟩
    · funext b
      cases b <;> simp [Request.send, h.live, owned, Function.update]
    · simpa [Delivered, Request.send, hlink] using hdelivered

theorem Sound.received (h : Sound overflow args callbackHandle segments r)
    (hlink : r.link = .connected) (s : Segment) :
    ∃ r', httpReceiveSegment s r = some r' ∧
      Sound overflow args callbackHandle (segments ++ [s]) r' := by
  have hdelivered : r.delivered = [] := by simpa [Delivered, hlink] using h.delivered
  have hbuffer : httpReceiveCallback r.buffer s = Accumulation.received (segments ++ [s]) := by
    rw [h.buffer, Accumulation.received, Accumulation.received, run_append]
    rfl
  rw [httpReceiveSegment, use_of (by simp [h.live, owned, hlink])]
  simp only [Option.bind_eq_bind, Option.bind_some]
  split
  · refine ⟨_, rfl, ⟨h.live, h.progress, h.unsent, h.header, h.callback, hbuffer, ?_, h.timer⟩⟩
    simpa [Delivered, hlink] using hdelivered
  · have hfree : (r.alloc (.buffer (r.generation + 1))).live (.buffer r.generation) = true := by
      simp [Request.alloc, h.live, owned, hlink]
    rw [free_of hfree, Option.bind_some]
    refine ⟨_, rfl, ⟨?_, h.progress, h.unsent, h.header, h.callback, hbuffer, ?_, h.timer⟩⟩
    · funext b
      cases b with
      | buffer generation =>
        simp only [Request.alloc, h.live, owned, hlink, Function.update]
        grind
      | _ => simp [Request.alloc, h.live, owned, Function.update]
    · simpa [Delivered, Request.alloc, hlink] using hdelivered

theorem Sound.closed (h : Sound overflow args callbackHandle segments r)
    (hlink : r.link = .connecting ∨ r.link = .connected) {d : Delivery}
    (hd : httpDisconnectCallback overflow r.buffer = .ok d) :
    ∃ r', httpClosedCallback overflow r = some r' ∧
      Sound overflow args callbackHandle segments r' := by
  have hdelivered : r.delivered = [] := by
    have := h.delivered
    obtain hlink | hlink := hlink <;> simpa [Delivered, hlink] using this
  have hopen : r.link ≠ .unresolved ∧ r.link ≠ .closed := by
    obtain hlink | hlink := hlink <;> simp [hlink]
  have htcp : r.live .tcp = true := by simp [h.live, owned, hlink]
  rw [httpClosedCallback, use_of (by simp [h.live, owned, hlink])]
  simp only [Option.bind_eq_bind, Option.bind_some, free_of htcp]
  rw [use_of (by simp [h.live, owned, hopen]), Option.bind_some, hd]
  simp only
  rw [freeAll_of (by simp) (by simp [Request.deliver, h.live, owned, hopen, hlink])]
  refine ⟨_, rfl, ⟨?_, h.progress, nofun, nofun, h.callback, h.buffer, ?_, nofun⟩⟩
  · funext b
    cases b <;> simp [Request.deliver, h.live, owned, hopen, Function.update]
  · exact ⟨d, h.buffer ▸ hd, by simp [Request.deliver, hdelivered, h.callback]⟩

theorem Sound.timedOut (h : Sound overflow args callbackHandle segments r)
    (htimer : r.timer = true) :
    ∃ r', httpTimeoutCallback { r with timer := false } = some r' ∧
      Sound overflow args callbackHandle segments r' := by
  have huse : [Block.conn, .req].all r.live = true := by
    obtain hlink | hlink := h.timer htimer <;> simp [h.live, owned, hlink]
  exact ⟨_, use_of huse, ⟨h.live, h.progress, h.unsent, h.header, h.callback, h.buffer,
    h.delivered, nofun⟩⟩

/-- One callback of the system. -/
theorem Sound.step (h : Sound overflow args callbackHandle segments r)
    (hfits : (requestHeader args).length + 1 ≤ bufferSize args) {e : Event}
    (he : Promised overflow r e) :
    ∃ r', handle overflow r e = some r' ∧
      Sound overflow args callbackHandle (segments ++ e.segment.toList) r' := by
  cases e with
  | received s => exact h.received he s
  | resolved found => simpa [handle, Event.segment] using h.resolved he found
  | connected => simpa [handle, Event.segment] using h.connected he hfits
  | sent => simpa [handle, Event.segment] using h.sent he.1 _
  | disconnected =>
    obtain ⟨hlink, d, hd⟩ := he
    simpa [handle, Event.segment] using h.closed hlink hd
  | timeout => simpa [handle, Event.segment] using h.timedOut he

end Steps

/-! ## Every run -/

variable (args : RequestArgs) (callbackHandle : Bool) (result : Gethostbyname)

/-- The promises hold as long as the request is there. -/
def Keeps (r : Option Request) (e : Event) : Prop := ∀ r' ∈ r, Promised overflow r' e

instance (r : Option Request) (e : Event) : Decidable (Keeps overflow r e) :=
  inferInstanceAs (Decidable (∀ r' ∈ r, Promised overflow r' e))

variable {overflow args callbackHandle result}

theorem run_sound {segments : List Segment} {r : Request}
    (hfits : (requestHeader args).length + 1 ≤ bufferSize args)
    (h : Sound overflow args callbackHandle segments r) {events : List Event}
    (hkeeps : Along (step overflow) (Keeps overflow) (some r) events) :
    ∃ r', run (step overflow) (some r) events = some r' ∧
      Sound overflow args callbackHandle (segments ++ events.filterMap Event.segment) r' := by
  induction events generalizing r segments with
  | nil => exact ⟨r, rfl, by simpa using h⟩
  | cons e events ih =>
    obtain ⟨r', hr', h'⟩ := h.step hfits (hkeeps.1 r rfl)
    have hstep : step overflow (some r) e = some r' := hr'
    have hrest := hkeeps.2
    rw [hstep] at hrest
    obtain ⟨r'', hr'', h''⟩ := ih h' hrest
    refine ⟨r'', by rw [run_cons, hstep, hr''], ?_⟩
    cases hsegment : e.segment with
    | none => simpa [hsegment] using h''
    | some s => simpa [hsegment] using h''

theorem httpRawRequest_sound (result : Gethostbyname) :
    ∃ r, httpRawRequest args callbackHandle result = some r ∧
      Sound overflow args callbackHandle [] r := by
  cases result with
  | inprogress => exact ⟨_, rfl, sound_new⟩
  | ok => exact sound_new.resolved rfl true
  | error => exact sound_new.resolved rfl false

/-- A post whose answer comes in two segments. -/
def post : RequestArgs :=
  ⟨bytesOf "h", 80, false, bytesOf "POST", bytesOf "/", none, some (bytesOf "x")⟩

def postEvents : List Event :=
  [.resolved true, .connected, .sent, .received ⟨bytesOf "HTTP/1.1 200 OK\r\n", true⟩, .sent,
    .received ⟨bytesOf "\r\nhi", true⟩, .timeout, .disconnected]

theorem keeps_post :
    Along (step 0) (Keeps 0) (httpRawRequest post true .inprogress) postEvents := by decide +kernel

end NodeMcu.Http.LifeCycle
