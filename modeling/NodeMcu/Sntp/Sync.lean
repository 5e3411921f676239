import NodeMcu.Lib.Run
import NodeMcu.Sntp.Correction

namespace NodeMcu.Sntp.Sync

open NodeMcu.Lib.Run NodeMcu.Rtc.Clock NodeMcu.Sntp.Correction

/-! ## The exchange with a time server -/

inductive NtpErr
  | dns
  | mem
  | send
  | timeout
  deriving DecidableEq

abbrev IpAddr := UInt32

def ipaddrAny : IpAddr := 0

/-- The address 224.0.1.1. -/
def ntpAnycastAddr : IpAddr := 0x010100E0

def maxAttempts : Nat := 5

/-- What an exchange does, in its order. -/
inductive Out
  | began (syncCb errCb : Bool)
  | request (stamp : NtpTimestamp)
  | clock (origin : NtpTimestamp) (tv : RtcTimeval)
  | released
  | synced (tv : RtcTimeval) (server : IpAddr)
  | failed (err : NtpErr)
  | raised (msg : String)
  deriving DecidableEq

structure SntpState where
  cookie : NtpTimestamp
  syncCb : Bool
  errCb : Bool
  attempts : Nat

/-- The two variables of the module and what the system is to call back: the timer, the receiver
of packets, and so many lookups of a name. The log starts anew with each exchange. -/
structure Module where
  state : Option SntpState
  server : IpAddr
  armed : Bool
  listening : Bool
  lookups : Nat
  log : List Out

def Module.put (m : Module) (out : Out) : Module := { m with log := m.log ++ [out] }

/-- There is no result where a state is accessed that has been released. -/
def cleanup (m : Module) : Option Module :=
  m.state.map fun _ =>
    { m.put .released with state := none, armed := false, listening := false }

/-- A callback is called after the state is released. A synchronisation that it starts is a step
of its own. -/
def handleError (m : Module) (err : NtpErr) : Option Module :=
  match m.state, cleanup m with
  | some st, some m => some (if st.errCb then m.put (.failed err) else m)
  | _, _ => none

/-- The local time of a request, whether a buffer is obtained for it, and whether it is sent. -/
structure Attempt where
  now : RtcTimeval
  alloc : Bool
  ok : Bool

def sntpDosend (m : Module) (x : Attempt) : Option Module :=
  match m.state with
  | none => none
  | some st =>
    let m := { m with
      state := some { st with attempts := st.attempts + 1 }
      armed := if st.attempts = 0 then true else m.armed }
    -- There is no return after a buffer that is not obtained.
    match if x.alloc then some m else handleError m .mem with
    | none => none
    | some m =>
      match m.state with
      | none => none
      | some st =>
        let m := { m.put (.request (requestStamp x.now)) with
          state := some { st with cookie := requestStamp x.now } }
        if x.ok then some m else handleError m .send

def sntpDnsFound (m : Module) (ipaddr : Option IpAddr) (x : Attempt) : Option Module :=
  match ipaddr with
  | none => handleError m .dns
  | some addr => sntpDosend { m with server := addr } x

def onTimeout (m : Module) (x : Attempt) : Option Module :=
  match m.state with
  | none => none
  | some st => if maxAttempts ≤ st.attempts then handleError m .timeout else sntpDosend m x

structure NtpFrame where
  li : Nat
  origin : NtpTimestamp
  recv : NtpTimestamp
  xmit : NtpTimestamp

/-- A packet, of which the first bytes are a frame when it is long enough, the address it comes
from, and the local time at which it arrives. -/
structure Packet where
  len : Nat
  ntp : NtpFrame
  addr : IpAddr
  now : RtcTimeval

def ntpFrameSize : Nat := 48

/-- The checks that are made before the clock is touched. -/
def sane (server : IpAddr) (st : SntpState) (p : Packet) : Bool :=
  ntpFrameSize ≤ p.len &&
    (server = ntpAnycastAddr || server = p.addr) &&
    p.ntp.origin = st.cookie &&
    p.ntp.li ≠ 3

def onRecv (m : Module) (p : Option Packet) : Option Module :=
  match m.state with
  | none => some { m with listening := false }
  | some st =>
    match p with
    | none => some m
    | some p =>
      if sane m.server st p then
        let tv := corrected p.ntp.origin p.ntp.recv p.ntp.xmit p.now
        match cleanup { m.put (.clock p.ntp.origin tv) with server := p.addr } with
        | none => none
        | some m => some (if st.syncCb then m.put (.synced tv p.addr) else m)
      else some m

/-- The first argument. A number counts as its text. -/
inductive Host
  | noneOrNil
  | text (length : Nat)
  | other

inductive DnsResult
  | known (addr : IpAddr)
  | inProgress
  | badArgument
  | noSlot

/-- A call, and what the system gives it. -/
structure SyncCall where
  host : Host
  syncCb : Bool
  errCb : Bool
  malloc : Bool
  pcb : Bool
  bind : Bool
  dns : DnsResult
  attempt : Attempt

/-- What `sync_err` does once the state is set up. -/
def syncErr (m : Module) (msg : String) : Module :=
  { m.put (.raised msg) with state := none, listening := false }

/-- What follows once the state is set up. The check of the first argument raises an error of
its own, which leaves the state behind. -/
def sntpStart (m : Module) (x : SyncCall) : Option Module :=
  match x.host with
  | .noneOrNil => sntpDosend m x.attempt
  | .other => some (m.put (.raised "string expected"))
  | .text length =>
    if 128 < length then some (syncErr m "need <128 hostname")
    else
      match x.dns with
      | .inProgress => some { m with lookups := m.lookups + 1 }
      | .badArgument => some (syncErr m "bad hostname")
      | .known addr => sntpDosend { m with server := addr } x.attempt
      | .noSlot => sntpDosend m x.attempt

/-- The module as the state is set up. -/
def withState (m : Module) (x : SyncCall) : Module :=
  { m with
    state := some ⟨⟨0, 0⟩, x.syncCb, x.errCb, 0⟩
    listening := true
    log := [.began x.syncCb x.errCb] }

def sntpBegin (m : Module) (x : SyncCall) : Option Module :=
  if !x.malloc || !x.pcb then
    some { m with log := [.began x.syncCb x.errCb, .raised "out of memory"] }
  else if !x.bind then
    some { m with log := [.began x.syncCb x.errCb, .raised "no port available"] }
  else sntpStart (withState m x) x

def defaultServer (m : Module) : Module :=
  if m.server = ipaddrAny then { m with server := ntpAnycastAddr } else m

def sntpSync (m : Module) (x : SyncCall) : Option Module :=
  match (defaultServer m).state with
  | some _ => some (defaultServer m) -- The error is "sync in progress".
  | none => sntpBegin (defaultServer m) x

inductive Event
  | sync (x : SyncCall)
  | dnsFound (ipaddr : Option IpAddr) (x : Attempt)
  | timer (x : Attempt)
  | packet (p : Option Packet)

/-- What the system does not call back does not happen. -/
def handle (m : Module) : Event → Option Module
  | .sync x => sntpSync m x
  | .dnsFound ipaddr x =>
    if m.lookups = 0 then some m
    else sntpDnsFound { m with lookups := m.lookups - 1 } ipaddr x
  | .timer x => if m.armed then onTimeout m x else some m
  | .packet p => if m.listening then onRecv m p else some m

def step (s : Option Module) (e : Event) : Option Module := s.bind (handle · e)

/-- The module after a reset. -/
def booted : Module := ⟨none, ipaddrAny, false, false, 0, []⟩

/-! ## What is expected of an exchange -/

def requestOf : Out → Option NtpTimestamp
  | .request stamp => some stamp
  | _ => none

def requests (log : List Out) : List NtpTimestamp := log.filterMap requestOf

def isCallback : Out → Bool
  | .synced _ _ => true
  | .failed _ => true
  | _ => false

def callbacks (log : List Out) : List Out := log.filter isCallback

/-- The packet that sets the clock answers the last request before it. -/
def ClockAnswered (log : List Out) : Prop :=
  ∀ i origin tv, log[i]? = some (.clock origin tv) →
    (requests (log.take i)).getLast? = some origin

/-- The callbacks of an exchange that has been released: the one for its outcome, if it is
registered. -/
def Outcome (log : List Out) : Prop :=
  ∃ syncCb errCb, log.head? = some (.began syncCb errCb) ∧
    ((∃ origin tv server, .clock origin tv ∈ log ∧
        callbacks log = if syncCb then [.synced tv server] else []) ∨
      (∀ origin tv, .clock origin tv ∉ log) ∧
        ∃ err, callbacks log = if errCb then [.failed err] else [])

def isRaised : Out → Bool
  | .raised _ => true
  | _ => false

/-- Whether the exchange is over. -/
def isOver (log : List Out) : Bool := log.any fun out => out = .released || isRaised out

/-- What holds of what an exchange has done at any time. -/
structure Regular (log : List Out) : Prop where
  atMost : (requests log).length ≤ maxAttempts
  answered : ClockAnswered log
  outcome : .released ∈ log → Outcome log
  silent : .released ∉ log → callbacks log = []

/-- When an exchange is over, a new one can be started. -/
structure Kept (m : Module) : Prop where
  regular : Regular m.log
  free : isOver m.log → m.state = none

/-- No released state was accessed, and all is as it should be. -/
def Lawful : Option Module → Prop
  | none => False
  | some m => Kept m

/-! ## When it is met -/

/-- The request that the start of an exchange makes. -/
def startAttempt (x : SyncCall) : Option Attempt :=
  match x.host, x.dns with
  | .noneOrNil, _ => some x.attempt
  | .text length, .known _ => if 128 < length then none else some x.attempt
  | .text length, .noSlot => if 128 < length then none else some x.attempt
  | _, _ => none

/-- The request that a step makes. -/
def attemptOf (m : Module) : Event → Option Attempt
  | .sync x =>
    if m.state.isNone && x.malloc && x.pcb && x.bind then startAttempt x else none
  | .dnsFound (some _) x => if m.lookups = 0 then none else some x
  | .timer x =>
    if m.armed && m.state.any (·.attempts < maxAttempts) then some x else none
  | _ => none

/-- A buffer is obtained for a request, no packet passes the checks before there is one, and a
call whose state can be set up has a text as its first argument, or none. -/
structure Sound (m : Module) (e : Event) : Prop where
  buffer : ∀ x, attemptOf m e = some x → x.alloc = true
  asked : ∀ p st, e = .packet (some p) → m.state = some st → sane m.server st p = true →
    st.attempts ≠ 0
  host : ∀ x, e = .sync x → m.state = none → (x.malloc && x.pcb && x.bind) = true →
    x.host ≠ .other

/-! ## The log of an exchange -/

theorem requests_append (a b : List Out) : requests (a ++ b) = requests a ++ requests b :=
  List.filterMap_append

theorem callbacks_append (a b : List Out) : callbacks (a ++ b) = callbacks a ++ callbacks b :=
  List.filter_append ..

/-- The log of an exchange that is not over. -/
def asking (syncCb errCb : Bool) (stamps : List NtpTimestamp) : List Out :=
  .began syncCb errCb :: stamps.map .request

section Asking

variable (syncCb errCb : Bool) (stamps : List NtpTimestamp)

theorem requests_asking : requests (asking syncCb errCb stamps) = stamps := by
  induction stamps with
  | nil => rfl
  | cons stamp stamps ih => exact congrArg (stamp :: ·) ih

/-- Such a log has an entry for its start and one for each request. -/
theorem forall_asking {P : Out → Prop} (hbegan : P (.began syncCb errCb))
    (hrequest : ∀ stamp, P (.request stamp)) : ∀ out ∈ asking syncCb errCb stamps, P out := by
  intro out hout
  obtain rfl | hout := List.mem_cons.mp hout
  · exact hbegan
  · obtain ⟨stamp, -, rfl⟩ := List.mem_map.mp hout
    exact hrequest stamp

theorem callbacks_asking : callbacks (asking syncCb errCb stamps) = [] := by
  apply List.filter_eq_nil_iff.mpr
  apply forall_asking <;> simp [isCallback]

theorem isOver_asking : isOver (asking syncCb errCb stamps) = false := by
  apply List.any_eq_false.mpr
  apply forall_asking <;> simp [isRaised]

theorem clock_not_asking (origin : NtpTimestamp) (tv : RtcTimeval) :
    .clock origin tv ∉ asking syncCb errCb stamps := by
  intro hout
  refine forall_asking syncCb errCb stamps (P := (· ≠ .clock origin tv)) ?_ ?_ _ hout rfl <;> simp

theorem released_not_asking : .released ∉ asking syncCb errCb stamps := by
  intro hout
  refine forall_asking syncCb errCb stamps (P := (· ≠ .released)) ?_ ?_ _ hout rfl <;> simp

end Asking

/-- The log of an exchange that is over. -/
inductive Ended : List Out → Prop
  | fresh : Ended []
  | raised (syncCb errCb : Bool) (msg : String) : Ended [.began syncCb errCb, .raised msg]
  | failed (syncCb errCb : Bool) (stamps : List NtpTimestamp) (err : NtpErr)
      (hmost : stamps.length ≤ maxAttempts) :
      Ended (asking syncCb errCb stamps ++
        .released :: if errCb then [.failed err] else [])
  | synced (syncCb errCb : Bool) (stamps : List NtpTimestamp) (origin : NtpTimestamp)
      (tv : RtcTimeval) (server : IpAddr) (hmost : stamps.length ≤ maxAttempts)
      (hlast : stamps.getLast? = some origin) :
      Ended (asking syncCb errCb stamps ++
        .clock origin tv :: .released :: if syncCb then [.synced tv server] else [])

theorem answered_of_not_mem {log : List Out} (h : ∀ origin tv, .clock origin tv ∉ log) :
    ClockAnswered log := by
  intro i origin tv hi
  exact absurd (List.mem_of_getElem? hi) (h origin tv)

theorem regular_asking (syncCb errCb : Bool) {stamps : List NtpTimestamp}
    (hmost : stamps.length ≤ maxAttempts) : Regular (asking syncCb errCb stamps) where
  atMost := by
    rw [requests_asking]
    exact hmost
  answered := answered_of_not_mem (clock_not_asking syncCb errCb stamps)
  outcome := by
    intro h
    exact absurd h (released_not_asking syncCb errCb stamps)
  silent := by
    intro _
    exact callbacks_asking syncCb errCb stamps

/-- Only the entry behind the requests sets the clock. -/
theorem answered_of_tail (syncCb errCb : Bool) {stamps : List NtpTimestamp}
    {origin : NtpTimestamp} (tv : RtcTimeval) {rest : List Out}
    (hlast : stamps.getLast? = some origin) (hrest : ∀ o t, .clock o t ∉ rest) :
    ClockAnswered (asking syncCb errCb stamps ++ .clock origin tv :: rest) := by
  intro i o t hi
  obtain hlt | rfl | hgt := Nat.lt_trichotomy i (asking syncCb errCb stamps).length
  · rw [List.getElem?_append_left hlt] at hi
    exact absurd (List.mem_of_getElem? hi) (clock_not_asking syncCb errCb stamps o t)
  · rw [List.getElem?_append_right (Nat.le_refl _), Nat.sub_self] at hi
    cases hi
    rw [List.take_left, requests_asking]
    exact hlast
  · obtain ⟨k, rfl⟩ := Nat.exists_eq_add_of_lt hgt
    rw [Nat.add_assoc, List.getElem?_append_right (Nat.le_add_right _ _),
      Nat.add_sub_cancel_left, List.getElem?_cons_succ] at hi
    exact absurd (List.mem_of_getElem? hi) (hrest o t)

/-- What an exchange that asked does at its end. -/
theorem regular_append (syncCb errCb : Bool) {stamps : List NtpTimestamp} {rest : List Out}
    (hmost : stamps.length ≤ maxAttempts) (hrequests : requests rest = [])
    (hanswered : ClockAnswered (asking syncCb errCb stamps ++ rest))
    (houtcome : Outcome (asking syncCb errCb stamps ++ rest)) (hreleased : .released ∈ rest) :
    Regular (asking syncCb errCb stamps ++ rest) where
  atMost := by
    rw [requests_append, requests_asking, hrequests, List.append_nil]
    exact hmost
  answered := hanswered
  outcome := by
    intro _
    exact houtcome
  silent := by
    intro h
    exact absurd (List.mem_append_right _ hreleased) h

theorem Ended.regular {log : List Out} (h : Ended log) : Regular log := by
  cases h with
  | fresh => exact ⟨Nat.zero_le _, answered_of_not_mem (by simp), by simp, by simp [callbacks]⟩
  | raised syncCb errCb msg =>
    exact ⟨Nat.zero_le _, answered_of_not_mem (by simp), by simp, by simp [callbacks, isCallback]⟩
  | failed syncCb errCb stamps err hmost =>
    have hclock : ∀ o t, Out.clock o t ∉ asking syncCb errCb stamps ++
        .released :: if errCb then [.failed err] else [] := by
      intro o t hmem
      obtain hmem | hmem := List.mem_append.mp hmem
      · exact clock_not_asking syncCb errCb stamps o t hmem
      · cases errCb <;> simp at hmem
    apply regular_append syncCb errCb hmost
    · cases errCb <;> rfl
    · exact answered_of_not_mem hclock
    · refine ⟨syncCb, errCb, rfl, .inr ⟨hclock, err, ?_⟩⟩
      rw [callbacks_append, callbacks_asking]
      cases errCb <;> rfl
    · exact List.mem_cons_self
  | synced syncCb errCb stamps origin tv server hmost hlast =>
    apply regular_append syncCb errCb hmost
    · cases syncCb <;> rfl
    · apply answered_of_tail syncCb errCb tv hlast
      cases syncCb <;> simp
    · refine ⟨syncCb, errCb, rfl, .inl ⟨origin, tv, server, by simp, ?_⟩⟩
      rw [callbacks_append, callbacks_asking]
      cases syncCb <;> rfl
    · exact List.mem_cons_of_mem _ List.mem_cons_self

/-! ## The states of the module -/

/-- An exchange is under way: the state is there, and so many requests were sent. -/
structure Running (m : Module) (st : SntpState) (stamps : List NtpTimestamp) : Prop where
  state : m.state = some st
  log : m.log = asking st.syncCb st.errCb stamps
  count : stamps.length = st.attempts
  most : st.attempts ≤ maxAttempts
  listening : m.listening = true

/-- No exchange is under way, and nothing is to be called back. -/
structure Idle (m : Module) : Prop where
  state : m.state = none
  armed : m.armed = false
  listening : m.listening = false
  lookups : m.lookups = 0
  ended : Ended m.log

/-- A name is being looked up until the first request, and then the timer runs. -/
structure Waiting (m : Module) (st : SntpState) (stamps : List NtpTimestamp) : Prop where
  running : Running m st stamps
  armed : m.armed = decide (st.attempts ≠ 0)
  lookups : m.lookups = if st.attempts = 0 then 1 else 0
  last : st.attempts ≠ 0 → stamps.getLast? = some st.cookie

/-- What holds between the steps. -/
inductive Inv (m : Module) : Prop
  | idle (h : Idle m)
  | waiting (st : SntpState) (stamps : List NtpTimestamp) (h : Waiting m st stamps)

theorem Inv.kept {m : Module} (h : Inv m) : Kept m := by
  cases h with
  | idle h => exact ⟨h.ended.regular, fun _ => h.state⟩
  | waiting st stamps h =>
    have hmost : stamps.length ≤ maxAttempts := h.running.count ▸ h.running.most
    refine ⟨?_, ?_⟩
    · rw [h.running.log]
      exact regular_asking _ _ hmost
    · intro hover
      rw [h.running.log, isOver_asking] at hover
      cases hover

section Steps

variable {m : Module} {st : SntpState} {stamps : List NtpTimestamp}

/-- The callback that a released exchange ends with, if it is registered. -/
theorem idle_put {b : Bool} {out : Out} (hstate : m.state = none) (harmed : m.armed = false)
    (hlistening : m.listening = false) (hlookups : m.lookups = 0)
    (hended : Ended (m.log ++ if b then [out] else [])) : Idle (if b then m.put out else m) := by
  cases b with
  | false =>
    refine ⟨hstate, harmed, hlistening, hlookups, ?_⟩
    rw [if_neg Bool.false_ne_true, List.append_nil] at hended
    exact hended
  | true => exact ⟨hstate, harmed, hlistening, hlookups, hended⟩

/-- An error ends the exchange. -/
theorem handleError_idle (h : Running m st stamps) (hlookups : m.lookups = 0) (err : NtpErr) :
    ∃ m', handleError m err = some m' ∧ Idle m' := by
  simp only [handleError, cleanup, h.state, Option.map_some]
  refine ⟨_, rfl, idle_put rfl rfl rfl hlookups ?_⟩
  simp only [Module.put, h.log, List.append_assoc, List.singleton_append]
  exact .failed st.syncCb st.errCb stamps err (h.count ▸ h.most)

theorem handleError_state (err : NtpErr) {m' : Module} (h : handleError m err = some m') :
    m'.state = none := by
  cases hstate : m.state with
  | none => simp [handleError, hstate] at h
  | some st =>
    simp only [handleError, cleanup, hstate, Option.map_some, Option.some.injEq] at h
    subst h
    cases st.errCb <;> rfl

/-- A request for which there is no buffer accesses the state that its error has released. -/
theorem sntpDosend_unbuffered (m : Module) {x : Attempt} (h : x.alloc = false) :
    sntpDosend m x = none := by
  cases hstate : m.state with
  | none => rw [sntpDosend, hstate]
  | some st =>
    simp only [sntpDosend, hstate, h, Bool.false_eq_true, if_false]
    split
    · rfl
    · rename_i m' herror
      rw [handleError_state .mem herror]

theorem sntpDosend_inv (h : Running m st stamps) (hlookups : m.lookups = 0)
    (harmed : st.attempts ≠ 0 → m.armed = true) (hless : st.attempts < maxAttempts) {x : Attempt}
    (halloc : x.alloc = true) : ∃ m', sntpDosend m x = some m' ∧ Inv m' := by
  let st' : SntpState :=
    { st with attempts := st.attempts + 1, cookie := requestStamp x.now }
  let m' : Module :=
    { m.put (.request (requestStamp x.now)) with
      state := some st'
      armed := if st.attempts = 0 then true else m.armed }
  have hsent : sntpDosend m x = if x.ok then some m' else handleError m' .send := by
    simp only [sntpDosend, h.state, halloc, if_true]
    rfl
  have harm : m'.armed = true := by
    change (if st.attempts = 0 then true else m.armed) = true
    split_ifs with hzero
    · rfl
    · exact harmed hzero
  have hrunning : Running m' st' (stamps ++ [requestStamp x.now]) :=
    { state := rfl
      log := by
        change m.log ++ [_] = _
        rw [h.log, asking, asking, List.map_append]
        rfl
      count := by
        rw [List.length_append, h.count]
        rfl
      most := hless
      listening := h.listening }
  rw [hsent]
  split_ifs with hok
  · refine ⟨m', rfl, .waiting st' _ ⟨hrunning, ?_, ?_, ?_⟩⟩
    · rw [harm]
      exact (decide_eq_true (Nat.succ_ne_zero _)).symm
    · exact hlookups
    · intro _
      exact List.getLast?_concat
  · obtain ⟨m'', herror, hidle⟩ := handleError_idle hrunning hlookups .send
    exact ⟨m'', herror, .idle hidle⟩

theorem onRecv_inv (h : Waiting m st stamps) {p : Option Packet}
    (hasked : ∀ q, p = some q → sane m.server st q = true → st.attempts ≠ 0) :
    ∃ m', onRecv m p = some m' ∧ Inv m' := by
  cases p with
  | none => exact ⟨m, by rw [onRecv, h.running.state], .waiting st stamps h⟩
  | some p =>
    cases hsane : sane m.server st p with
    | false =>
      refine ⟨m, ?_, .waiting st stamps h⟩
      simp only [onRecv, h.running.state, hsane, Bool.false_eq_true, if_false]
    | true =>
      have hattempts := hasked p rfl hsane
      have hcookie : p.ntp.origin = st.cookie := by
        simp only [sane, Bool.and_eq_true, decide_eq_true_eq] at hsane
        exact hsane.1.2
      have hlookups := h.lookups
      rw [if_neg hattempts] at hlookups
      simp only [onRecv, h.running.state, hsane, if_true, cleanup, Module.put, Option.map_some]
      refine ⟨_, rfl, .idle (idle_put rfl rfl rfl hlookups ?_)⟩
      simp only [h.running.log, List.append_assoc, List.singleton_append]
      exact .synced st.syncCb st.errCb stamps p.ntp.origin _ p.addr
        (h.running.count ▸ h.running.most) (hcookie ▸ h.last hattempts)

theorem onTimeout_inv (h : Waiting m st stamps) (harmed : m.armed = true) {x : Attempt}
    (halloc : st.attempts < maxAttempts → x.alloc = true) :
    ∃ m', onTimeout m x = some m' ∧ Inv m' := by
  have hattempts : st.attempts ≠ 0 := of_decide_eq_true (h.armed.symm.trans harmed)
  have hlookups := h.lookups
  rw [if_neg hattempts] at hlookups
  simp only [onTimeout, h.running.state]
  split_ifs with hmost
  · obtain ⟨m', herror, hidle⟩ := handleError_idle h.running hlookups .timeout
    exact ⟨m', herror, .idle hidle⟩
  · have hless := Nat.lt_of_not_le hmost
    exact sntpDosend_inv h.running hlookups (fun _ => harmed) hless (halloc hless)

theorem sntpDnsFound_inv (h : Waiting m st stamps) (hpending : m.lookups ≠ 0)
    {ipaddr : Option IpAddr} {x : Attempt} (halloc : ipaddr.isSome → x.alloc = true) :
    ∃ m', sntpDnsFound { m with lookups := m.lookups - 1 } ipaddr x = some m' ∧ Inv m' := by
  have hlookups := h.lookups
  have hattempts : st.attempts = 0 := by
    by_contra hne
    rw [if_neg hne] at hlookups
    exact hpending hlookups
  rw [if_pos hattempts] at hlookups
  have hrunning : Running { m with lookups := m.lookups - 1 } st stamps :=
    ⟨h.running.state, h.running.log, h.running.count, h.running.most, h.running.listening⟩
  have hzero : m.lookups - 1 = 0 := by rw [hlookups]
  cases ipaddr with
  | none =>
    obtain ⟨m', herror, hidle⟩ := handleError_idle hrunning hzero .dns
    exact ⟨m', herror, .idle hidle⟩
  | some addr =>
    have hserver : Running { m with lookups := m.lookups - 1, server := addr } st stamps :=
      ⟨hrunning.state, hrunning.log, hrunning.count, hrunning.most, hrunning.listening⟩
    apply sntpDosend_inv hserver hzero
    · intro hne
      exact absurd hattempts hne
    · rw [hattempts]
      decide
    · exact halloc rfl

theorem defaultServer_state (m : Module) : (defaultServer m).state = m.state := by
  rw [defaultServer]
  split_ifs <;> rfl

theorem defaultServer_idle (h : Idle m) : Idle (defaultServer m) := by
  rw [defaultServer]
  split_ifs
  · exact ⟨h.state, h.armed, h.listening, h.lookups, h.ended⟩
  · exact h

theorem defaultServer_waiting (h : Waiting m st stamps) : Waiting (defaultServer m) st stamps := by
  rw [defaultServer]
  split_ifs
  · exact ⟨⟨h.running.state, h.running.log, h.running.count, h.running.most, h.running.listening⟩,
      h.armed, h.lookups, h.last⟩
  · exact h

theorem sntpSync_waiting (h : Waiting m st stamps) (x : SyncCall) :
    ∃ m', sntpSync m x = some m' ∧ Inv m' := by
  have hserver := defaultServer_waiting h
  refine ⟨defaultServer m, ?_, .waiting st stamps hserver⟩
  rw [sntpSync, hserver.running.state]

theorem sntpSync_idle (h : m.state = none) (x : SyncCall) :
    sntpSync m x = sntpBegin (defaultServer m) x := by
  rw [sntpSync, defaultServer_state, h]

theorem sntpStart_inv (h : Idle m) {x : SyncCall}
    (halloc : ∀ a, startAttempt x = some a → a.alloc = true) (hhost : x.host ≠ .other) :
    ∃ m', sntpStart (withState m x) x = some m' ∧ Inv m' := by
  have herr (msg : String) : Inv (syncErr (withState m x) msg) :=
    .idle ⟨rfl, h.armed, rfl, h.lookups, .raised x.syncCb x.errCb msg⟩
  have hsend (server : IpAddr) (ha : x.attempt.alloc = true) :
      ∃ m', sntpDosend { withState m x with server := server } x.attempt = some m' ∧ Inv m' := by
    have hrunning : Running { withState m x with server := server }
        ⟨⟨0, 0⟩, x.syncCb, x.errCb, 0⟩ [] := ⟨rfl, rfl, rfl, Nat.zero_le _, rfl⟩
    exact sntpDosend_inv hrunning h.lookups (fun hne => absurd rfl hne) (Nat.zero_lt_succ 4) ha
  rw [sntpStart]
  cases hname : x.host with
  | noneOrNil =>
    apply hsend (withState m x).server
    apply halloc
    rw [startAttempt, hname]
  | other => exact absurd hname hhost
  | text length =>
    simp only [startAttempt, hname] at halloc
    dsimp only
    split_ifs with hlong
    · exact ⟨_, rfl, herr _⟩
    · cases hdns : x.dns with
      | inProgress =>
        refine ⟨_, rfl, .waiting ⟨⟨0, 0⟩, x.syncCb, x.errCb, 0⟩ [] ?_⟩
        refine ⟨⟨rfl, rfl, rfl, Nat.zero_le _, rfl⟩, h.armed, ?_, fun hne => absurd rfl hne⟩
        exact congrArg (· + 1) h.lookups
      | badArgument => exact ⟨_, rfl, herr _⟩
      | known addr =>
        apply hsend
        apply halloc
        simp only [hdns, if_neg hlong]
      | noSlot =>
        apply hsend (withState m x).server
        apply halloc
        simp only [hdns, if_neg hlong]

theorem sntpBegin_inv (h : Idle m) {x : SyncCall}
    (halloc : (x.malloc && x.pcb && x.bind) = true →
      ∀ a, startAttempt x = some a → a.alloc = true)
    (hhost : (x.malloc && x.pcb && x.bind) = true → x.host ≠ .other) :
    ∃ m', sntpBegin m x = some m' ∧ Inv m' := by
  rw [sntpBegin]
  split_ifs with hmalloc hbind
  · exact ⟨_, rfl, .idle ⟨h.state, h.armed, h.listening, h.lookups, .raised ..⟩⟩
  · exact ⟨_, rfl, .idle ⟨h.state, h.armed, h.listening, h.lookups, .raised ..⟩⟩
  · have hup : (x.malloc && x.pcb && x.bind) = true := by
      simpa using ⟨by simpa using hmalloc, by simpa using hbind⟩
    exact sntpStart_inv h (halloc hup) (hhost hup)

/-- A sound step accesses no released state, and what holds between the steps holds after it. -/
theorem handle_inv (h : Inv m) {e : Event} (hsound : Sound m e) :
    ∃ m', handle m e = some m' ∧ Inv m' := by
  cases h with
  | idle h =>
    cases e with
    | sync x =>
      have hidle := defaultServer_idle h
      rw [handle, sntpSync_idle h.state]
      apply sntpBegin_inv hidle
      · intro hup a ha
        apply hsound.buffer
        rw [attemptOf, h.state, Bool.and_assoc, Bool.and_assoc, ← Bool.and_assoc x.malloc, hup]
        exact ha
      · intro hup
        exact hsound.host x rfl h.state hup
    | dnsFound ipaddr x => exact ⟨m, by rw [handle, if_pos h.lookups], .idle h⟩
    | timer x =>
      refine ⟨m, ?_, .idle h⟩
      rw [handle, h.armed]
      rfl
    | packet p =>
      refine ⟨m, ?_, .idle h⟩
      rw [handle, h.listening]
      rfl
  | waiting st stamps h =>
    cases e with
    | sync x => exact sntpSync_waiting h x
    | dnsFound ipaddr x =>
      rw [handle]
      split_ifs with hzero
      · exact ⟨m, rfl, .waiting st stamps h⟩
      · apply sntpDnsFound_inv h hzero
        intro haddr
        apply hsound.buffer
        obtain ⟨addr, rfl⟩ := Option.isSome_iff_exists.mp haddr
        rw [attemptOf, if_neg hzero]
    | timer x =>
      rw [handle]
      split_ifs with harmed
      · apply onTimeout_inv h harmed
        intro hless
        apply hsound.buffer
        rw [attemptOf, h.running.state, harmed]
        exact if_pos (decide_eq_true hless)
      · exact ⟨m, rfl, .waiting st stamps h⟩
    | packet p =>
      rw [handle, if_pos h.running.listening]
      apply onRecv_inv h
      rintro q rfl hsane
      exact hsound.asked q st rfl h.running.state hsane

/-! ## Steps that are not sound -/

theorem sntpStart_unbuffered (m : Module) {x : SyncCall} {a : Attempt}
    (ha : startAttempt x = some a) (halloc : a.alloc = false) : sntpStart m x = none := by
  rw [startAttempt] at ha
  rw [sntpStart]
  cases hname : x.host with
  | noneOrNil =>
    rw [hname] at ha
    cases ha
    exact sntpDosend_unbuffered m halloc
  | other =>
    rw [hname] at ha
    cases ha
  | text length =>
    rw [hname] at ha
    cases hdns : x.dns with
    | inProgress =>
      rw [hdns] at ha
      cases ha
    | badArgument =>
      rw [hdns] at ha
      cases ha
    | known addr =>
      simp only [hdns] at ha ⊢
      split_ifs at ha ⊢ with hlong
      cases ha
      exact sntpDosend_unbuffered _ halloc
    | noSlot =>
      simp only [hdns] at ha ⊢
      split_ifs at ha ⊢ with hlong
      cases ha
      exact sntpDosend_unbuffered m halloc

theorem handle_unbuffered {e : Event} {x : Attempt} (hx : attemptOf m e = some x)
    (halloc : x.alloc = false) : handle m e = none := by
  cases e with
  | sync call =>
    rw [attemptOf] at hx
    split_ifs at hx with hup
    simp only [Bool.and_eq_true, Option.isNone_iff_eq_none] at hup
    rw [handle, sntpSync_idle hup.1.1.1, sntpBegin, hup.1.1.2, hup.1.2, hup.2]
    exact sntpStart_unbuffered _ hx halloc
  | dnsFound ipaddr x' =>
    cases ipaddr with
    | none => cases hx
    | some addr =>
      rw [attemptOf] at hx
      split_ifs at hx with hzero
      cases hx
      rw [handle, if_neg hzero, sntpDnsFound, sntpDosend_unbuffered _ halloc]
  | timer x' =>
    rw [attemptOf] at hx
    split_ifs at hx with hready
    cases hx
    obtain ⟨harmed, hless⟩ := (Bool.and_eq_true _ _).mp hready
    rw [handle, if_pos harmed, onTimeout]
    cases hstate : m.state with
    | none => rfl
    | some st =>
      rw [hstate] at hless
      exact (if_neg (Nat.not_le.mpr (of_decide_eq_true hless))).trans
        (sntpDosend_unbuffered m halloc)
  | packet p => cases hx

/-- A packet that answers no request leaves a clock that no request was made for. -/
theorem not_lawful_unasked (h : Waiting m st stamps) (hattempts : st.attempts = 0) {p : Packet}
    (hsane : sane m.server st p = true) : ¬ Lawful (onRecv m (some p)) := by
  have hlog : m.log = [.began st.syncCb st.errCb] := by
    rw [h.running.log, List.eq_nil_of_length_eq_zero (h.running.count.trans hattempts)]
    rfl
  simp only [onRecv, h.running.state, hsane, if_true, cleanup, Module.put, Option.map_some, hlog]
  intro hkept
  have hclock := hkept.regular.answered 1 p.ntp.origin
    (corrected p.ntp.origin p.ntp.recv p.ntp.xmit p.now) (by cases st.syncCb <;> rfl)
  cases hcb : st.syncCb <;> rw [hcb] at hclock <;> cases hclock

/-- A call that raises an error for its first argument leaves its state behind. -/
theorem not_lawful_host (h : m.state = none) {x : SyncCall}
    (hup : (x.malloc && x.pcb && x.bind) = true) (hhost : x.host = .other) :
    ¬ Lawful (sntpSync m x) := by
  have hall : (x.malloc = true ∧ x.pcb = true) ∧ x.bind = true := by
    rw [← Bool.and_eq_true, ← Bool.and_eq_true]
    exact hup
  rw [sntpSync_idle h, sntpBegin, sntpStart, hall.1.1, hall.1.2, hall.2, hhost]
  intro hkept
  cases hkept.free rfl

theorem sound_of_lawful (h : Inv m) {e : Event} (hlawful : Lawful (handle m e)) : Sound m e where
  buffer := by
    intro x hx
    by_contra halloc
    rw [handle_unbuffered hx (Bool.eq_false_iff.mpr halloc)] at hlawful
    exact hlawful
  asked := by
    rintro p st rfl hstate hsane hattempts
    cases h with
    | idle h =>
      rw [h.state] at hstate
      cases hstate
    | waiting st' stamps h =>
      cases h.running.state.symm.trans hstate
      rw [handle, if_pos h.running.listening] at hlawful
      exact not_lawful_unasked h hattempts hsane hlawful
  host := by
    rintro x rfl hstate hup hhost
    exact not_lawful_host hstate hup hhost hlawful

end Steps

/-! ## Whole runs -/

/-- The condition on a step. After an access to a released state there is none. -/
def SoundAt (s : Option Module) (e : Event) : Prop := ∀ m, s = some m → Sound m e

/-- The states of a run that is sound. -/
def InvAt (s : Option Module) : Prop := ∃ m, s = some m ∧ Inv m

theorem lawful_iff {s : Option Module} (h : InvAt s) (e : Event) :
    Lawful (step s e) ↔ SoundAt s e := by
  obtain ⟨m, rfl, hinv⟩ := h
  constructor
  · intro hlawful m' hm
    cases hm
    exact sound_of_lawful hinv hlawful
  · intro hsound
    obtain ⟨m', hstep, hinv'⟩ := handle_inv hinv (hsound m rfl)
    rw [step, Option.bind_some, hstep]
    exact hinv'.kept

theorem step_inv {s : Option Module} (h : InvAt s) {e : Event} (hlawful : Lawful (step s e)) :
    InvAt (step s e) := by
  obtain ⟨m, rfl, hinv⟩ := h
  exact handle_inv hinv (sound_of_lawful hinv hlawful)

theorem booted_inv : InvAt (some booted) := ⟨booted, rfl, .idle ⟨rfl, rfl, rfl, rfl, .fresh⟩⟩

/-- In every run from a reset, with calls and answers in any order, no released state is accessed
and every exchange goes as it should, when and only when every step is sound. -/
theorem exchanges_kept_iff (es : List Event) :
    Along step (fun s e => Lawful (step s e)) (some booted) es ↔
      Along step SoundAt (some booted) es :=
  along_congr step _ _ InvAt (fun _ e h => lawful_iff h e) (fun _ _ h hl => step_inv h hl)
    (some booted) es booted_inv

/-- A call without arguments for whose request there is no buffer. -/
def unbuffered : SyncCall where
  host := .noneOrNil
  syncCb := false
  errCb := false
  malloc := true
  pcb := true
  bind := true
  dns := .noSlot
  attempt := ⟨⟨0, 0⟩, false, true⟩

theorem released_state_accessed :
    ¬ Along step (fun s e => Lawful (step s e)) (some booted) [.sync unbuffered] := by
  rintro ⟨h, -⟩
  exact h

end NodeMcu.Sntp.Sync
