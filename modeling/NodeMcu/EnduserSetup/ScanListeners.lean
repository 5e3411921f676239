import Mathlib.Data.List.Nodup
import Mathlib.Logic.Function.Basic
import NodeMcu.Lib.Run

namespace NodeMcu.EnduserSetup.ScanListeners

open NodeMcu.Lib.Run

/-! ## Connections and those that wait for a scan -/

/-- What is called when data come, or the end of the connection. -/
inductive Recv
  | httpRecvcb | handleRemoteClose | null
  deriving DecidableEq

/-- What is called when sent data are acknowledged. -/
inductive Sent
  | null | closeOnceSent | streamoutSent
  deriving DecidableEq

/-- A connection of the stack, with its callbacks, whether it is polled, and the argument. -/
structure TcpPcb where
  recv : Recv
  sent : Sent
  poll : Bool
  arg : Nat

/-- A block of the list, at its address. -/
structure ScanListener where
  block : Nat
  conn : Nat
  deriving DecidableEq

/-- The connections by address, whether there is a state, its list, and whether a connection that
there is not has been used. -/
structure Portal where
  conns : Nat → Option TcpPcb
  up : Bool
  scanListeners : List ScanListener
  fault : Bool

def deferredClose (conn : TcpPcb) : TcpPcb :=
  { conn with poll := true, recv := .handleRemoteClose, sent := .null }

def put (c : Nat) (conn : Option TcpPcb) (s : Portal) : Portal :=
  { s with conns := Function.update s.conns c conn }

def tcpAbort (c : Nat) (s : Portal) : Portal := put c none s

/-- A block that is not in use, or none. -/
def malloc (block : Nat) (s : Portal) : Option Nat :=
  if block = 0 ∨ block ∈ s.scanListeners.map (·.block) then none else some block

def removeScanListener (l : Nat) (s : Portal) : Portal :=
  { s with scanListeners := s.scanListeners.filter (·.block ≠ l) }

/-- The connections after all listeners have been written to. -/
def notifyScanListeners (accepted : Nat → Bool) :
    List ScanListener → (Nat → Option TcpPcb) → Option (Nat → Option TcpPcb)
  | [], conns => some conns
  | l :: ls, conns =>
    match conns l.conn with
    | none => none
    | some conn =>
      notifyScanListeners accepted ls (Function.update conns l.conn
        (if accepted l.conn then some { conn with sent := .closeOnceSent } else none))

/-- What has been asked for, with what the request finds: how much of the page fits, whether or not
it is taken; a block for the listener, and whether a scan starts; whether the credentials could be
handled. All else is answered at once. -/
inductive Request
  | page (chunklen : Nat)
  | aplist (block : Nat) (scans : Bool)
  | update (handled : Bool)
  | other

def aplist (c : Nat) (conn : TcpPcb) (block : Nat) (scans : Bool) (s : Portal) : Portal :=
  match malloc block s with
  | none => s
  | some l =>
    let already := s.scanListeners ≠ []
    if already ∨ scans then
      { put c (some { conn with arg := l }) s with scanListeners := ⟨l, c⟩ :: s.scanListeners }
    else
      { put c (some (deferredClose { conn with arg := l })) s with scanListeners := [] }

/-- Data for a connection whose callback is `enduser_setup_http_recvcb`. -/
def httpRecvcb (c : Nat) (conn : TcpPcb) (r : Request) (s : Portal) : Portal :=
  if s.up then
    match r with
    | .page chunklen =>
      put c (some { conn with arg := chunklen, recv := .null, sent := .streamoutSent }) s
    | .aplist block scans => aplist c conn block scans s
    | .update handled => if handled then put c (some (deferredClose conn)) s else s
    | .other => put c (some (deferredClose conn)) s
  else tcpAbort c s

/-- The end of a connection whose callback is `enduser_setup_http_recvcb`. -/
def httpRecvcbClosed (c : Nat) (conn : TcpPcb) (s : Portal) : Portal :=
  if s.up then
    put c (some (deferredClose conn))
      (if conn.arg ≠ 0 then removeScanListener conn.arg s else s)
  else tcpAbort c s

/-- How a page goes on. -/
inductive StreamOut
  | failed
  | more (offs : Nat)
  | done

def streamoutSent (c : Nat) (conn : TcpPcb) (out : StreamOut) (s : Portal) : Portal :=
  if s.up then
    match out with
    | .failed => tcpAbort c s
    | .more offs => put c (some { conn with arg := offs }) s
    | .done => put c (some (deferredClose conn)) s
  else tcpAbort c s

def onScanDone (accepted : Nat → Bool) (s : Portal) : Portal :=
  if s.up = false ∨ s.scanListeners = [] then s
  else
    match notifyScanListeners accepted s.scanListeners s.conns with
    | none => { s with fault := true }
    | some conns => { s with conns, scanListeners := [] }

/-- What the stack, the clients and the user do. -/
inductive Event
  | connected (c : Nat)
  | received (c : Nat) (r : Request)
  | closed (c : Nat)
  | reset (c : Nat)
  | acknowledged (c : Nat) (out : StreamOut)
  | polled (c : Nat)
  | scanned (accepted : Nat → Bool)
  | stop
  | start (ok : Bool)

def enduserSetupStop (s : Portal) : Portal := { s with up := false, scanListeners := [] }

/-- A portal that is up is stopped, which the error does. -/
def enduserSetupStart (ok : Bool) (s : Portal) : Portal :=
  if s.up then enduserSetupStop s else { s with up := ok }

/-- A new connection has an address of its own. Where no callback is set the stack drops data and
closes. -/
def portalStep (s : Portal) : Event → Portal
  | .connected c =>
    if s.up ∧ s.conns c = none then put c (some ⟨.httpRecvcb, .null, false, 0⟩) s else s
  | .received c r =>
    match s.conns c with
    | none => s
    | some conn =>
      match conn.recv with
      | .httpRecvcb => httpRecvcb c conn r s
      | .handleRemoteClose | .null => s
  | .closed c =>
    match s.conns c with
    | none => s
    | some conn =>
      match conn.recv with
      | .httpRecvcb => httpRecvcbClosed c conn s
      | .handleRemoteClose | .null => put c none s
  | .reset c => put c none s
  | .acknowledged c out =>
    match s.conns c with
    | none => s
    | some conn =>
      match conn.sent with
      | .null => s
      | .closeOnceSent => put c (some (deferredClose conn)) s
      | .streamoutSent => streamoutSent c conn out s
  | .polled c =>
    match s.conns c with
    | none => s
    | some conn => if conn.poll then tcpAbort c s else s
  | .scanned accepted => onScanDone accepted s
  | .stop => enduserSetupStop s
  | .start ok => enduserSetupStart ok s

/-! ### The clients that wait -/

/-- The portal, and the connections whose clients have asked for the list and wait for it, the last
one first. -/
structure System where
  portal : Portal
  waiting : List Nat

/-- Whether the request makes the client wait. -/
def waits (s : Portal) (c : Nat) : Request → Bool
  | .aplist block scans =>
    s.up && (s.conns c).any (·.recv = .httpRecvcb) && (malloc block s).isSome &&
      (!s.scanListeners.isEmpty || scans)
  | _ => false

def waitingAfter (s : System) : Event → List Nat
  | .received c r => if waits s.portal c r then c :: s.waiting else s.waiting
  | .closed c | .reset c => s.waiting.filter (· ≠ c)
  | .scanned _ => if s.portal.up then [] else s.waiting
  | .stop => []
  | .start _ => if s.portal.up then [] else s.waiting
  | .connected _ | .acknowledged _ _ | .polled _ => s.waiting

def step (s : System) (e : Event) : System := ⟨portalStep s.portal e, waitingAfter s e⟩

def start : System := ⟨⟨fun _ => none, false, [], false⟩, []⟩

/-- The connections that are written to after a scan. -/
def answered (s : System) : Event → List Nat
  | .scanned _ => if s.portal.up then s.portal.scanListeners.map (·.conn) else []
  | _ => []

/-- Those that are to be written to. -/
def due (s : System) : Event → List Nat
  | .scanned _ => if s.portal.up then s.waiting else []
  | _ => []

/-- The connection of a listener is there. It has its block as the argument, its end is noticed,
and nothing closes it. -/
structure Served (conns : Nat → Option TcpPcb) (l : ScanListener) : Prop where
  block : l.block ≠ 0
  conn : conns l.conn = some ⟨.httpRecvcb, .null, false, l.block⟩

/-- The list has those who wait, each once, in blocks of their own, and they are served. -/
structure Sound (s : System) : Prop where
  fault : s.portal.fault = false
  waiting : s.portal.scanListeners.map (·.conn) = s.waiting
  blocks : (s.portal.scanListeners.map (·.block)).Nodup
  served (l : ScanListener) (h : l ∈ s.portal.scanListeners) : Served s.portal.conns l
  requests (c : Nat) (conn : TcpPcb) (h : s.portal.conns c = some conn)
    (hrecv : conn.recv = .httpRecvcb) : conn.poll = false ∧ conn.sent ≠ .streamoutSent
  down (h : s.portal.up = false) : s.portal.scanListeners = []

/-- Nobody who waits asks for something else or is reset, nobody begins to wait while an answer is
on its way, and no connection that closes has the block of another one's listener. -/
def Proper (s : System) : Event → Prop
  | .received c r =>
    ∀ conn ∈ s.portal.conns c, conn.recv = .httpRecvcb → s.portal.up = true →
      match r with
      | .aplist _ _ => waits s.portal c r = true → c ∉ s.waiting ∧ conn.sent = .null
      | .update handled => handled = true → c ∉ s.waiting
      | .page _ | .other => c ∉ s.waiting
  | .closed c =>
    ∀ conn ∈ s.portal.conns c, conn.recv = .httpRecvcb →
      ∀ l ∈ s.portal.scanListeners, l.block = conn.arg → l.conn = c
  | .reset c => c ∉ s.waiting
  | _ => True

instance decidableProper (s : System) : ∀ e, Decidable (Proper s e)
  | .received c (.aplist block scans) =>
    inferInstanceAs (Decidable (∀ conn ∈ s.portal.conns c, conn.recv = .httpRecvcb →
      s.portal.up = true → waits s.portal c (.aplist block scans) = true →
        c ∉ s.waiting ∧ conn.sent = .null))
  | .received c (.update handled) =>
    inferInstanceAs (Decidable (∀ conn ∈ s.portal.conns c, conn.recv = .httpRecvcb →
      s.portal.up = true → handled = true → c ∉ s.waiting))
  | .received c (.page _) | .received c .other =>
    inferInstanceAs (Decidable (∀ conn ∈ s.portal.conns c, conn.recv = .httpRecvcb →
      s.portal.up = true → c ∉ s.waiting))
  | .closed c =>
    inferInstanceAs (Decidable (∀ conn ∈ s.portal.conns c, conn.recv = .httpRecvcb →
      ∀ l ∈ s.portal.scanListeners, l.block = conn.arg → l.conn = c))
  | .reset c => inferInstanceAs (Decidable (c ∉ s.waiting))
  | .connected _ | .acknowledged _ _ | .polled _ | .scanned _ | .stop | .start _ =>
    inferInstanceAs (Decidable True)

section Steps

variable {s : System} {c : Nat} {conn : TcpPcb}

@[simp] theorem put_self (c : Nat) (conn : Option TcpPcb) (s : Portal) :
    (put c conn s).conns c = conn := Function.update_self ..

theorem put_other {c' : Nat} (h : c' ≠ c) (conn : Option TcpPcb) (s : Portal) :
    (put c conn s).conns c' = s.conns c' := Function.update_of_ne h ..

theorem Sound.served_unique (hs : Sound s) {l l' : ScanListener}
    (hl : l ∈ s.portal.scanListeners) (hl' : l' ∈ s.portal.scanListeners)
    (h : l.conn = l'.conn) : l = l' := by
  have hconn := (hs.served l hl).conn
  rw [h, (hs.served l' hl').conn] at hconn
  have hblock : l.block = l'.block := by
    injection hconn with hconn
    injection hconn with _ _ _ hblock
    exact hblock.symm
  exact List.inj_on_of_nodup_map hs.blocks hl hl' hblock

theorem Sound.mem_waiting (hs : Sound s) :
    c ∈ s.waiting ↔ ∃ l ∈ s.portal.scanListeners, l.conn = c := by
  rw [← hs.waiting, List.mem_map]

/-- The connection of a client that waits. -/
theorem Sound.conn_waiting (hs : Sound s) (hc : c ∈ s.waiting) :
    ∃ block, block ≠ 0 ∧ s.portal.conns c = some ⟨.httpRecvcb, .null, false, block⟩ ∧
      (⟨block, c⟩ : ScanListener) ∈ s.portal.scanListeners := by
  obtain ⟨⟨block, c'⟩, hl, rfl⟩ := hs.mem_waiting.mp hc
  obtain ⟨hblock, hconn⟩ := hs.served _ hl
  exact ⟨block, hblock, hconn, hl⟩

theorem Sound.requests_put (hs : Sound s) {conn : Option TcpPcb}
    (hrequests : ∀ conn', conn = some conn' → conn'.recv = .httpRecvcb →
      conn'.poll = false ∧ conn'.sent ≠ .streamoutSent) (c' : Nat) (conn' : TcpPcb)
    (h : (put c conn s.portal).conns c' = some conn') (hrecv : conn'.recv = .httpRecvcb) :
    conn'.poll = false ∧ conn'.sent ≠ .streamoutSent := by
  by_cases hc' : c' = c
  · subst hc'
    exact hrequests conn' ((put_self ..).symm.trans h) hrecv
  · exact hs.requests c' conn' ((put_other hc' _ _).symm.trans h) hrecv

/-- A connection whose client does not wait is changed. -/
theorem Sound.put (hs : Sound s) (hc : c ∉ s.waiting) {conn : Option TcpPcb}
    (hrequests : ∀ conn', conn = some conn' → conn'.recv = .httpRecvcb →
      conn'.poll = false ∧ conn'.sent ≠ .streamoutSent) :
    Sound ⟨put c conn s.portal, s.waiting⟩ where
  fault := hs.fault
  waiting := hs.waiting
  blocks := hs.blocks
  served l hl := by
    have hne : l.conn ≠ c := fun h => hc (hs.mem_waiting.mpr ⟨l, hl, h⟩)
    refine ⟨(hs.served l hl).block, ?_⟩
    exact (put_other hne _ _).trans (hs.served l hl).conn
  requests := hs.requests_put hrequests
  down := hs.down

theorem filter_ne {l : List Nat} (hc : c ∉ l) : l.filter (· ≠ c) = l := by
  refine List.filter_eq_self.mpr fun c' hc' => ?_
  rw [decide_eq_true_eq]
  rintro rfl
  exact hc hc'

theorem deferredClose_ne (conn : TcpPcb) (block : Nat) :
    some (deferredClose conn) ≠ some ⟨.httpRecvcb, .null, false, block⟩ := nofun

theorem requests_deferredClose (conn conn' : TcpPcb) (h : some (deferredClose conn) = some conn')
    (hrecv : conn'.recv = .httpRecvcb) : conn'.poll = false ∧ conn'.sent ≠ .streamoutSent := by
  injection h with h
  subst h
  cases hrecv

theorem sound_put_iff (hs : Sound s) {conn : Option TcpPcb}
    (hrequests : ∀ conn', conn = some conn' → conn'.recv = .httpRecvcb →
      conn'.poll = false ∧ conn'.sent ≠ .streamoutSent)
    (hconn : ∀ block, conn ≠ some ⟨.httpRecvcb, .null, false, block⟩) :
    Sound ⟨ScanListeners.put c conn s.portal, s.waiting⟩ ↔ c ∉ s.waiting := by
  constructor
  · intro hsound hc
    obtain ⟨block, -, h, -⟩ := hsound.conn_waiting hc
    exact hconn block ((put_self ..).symm.trans h)
  · intro hc
    exact hs.put hc hrequests

theorem malloc_eq_some {block l : Nat} {p : Portal} (h : malloc block p = some l) :
    l = block ∧ block ≠ 0 ∧ block ∉ p.scanListeners.map (·.block) := by
  rw [malloc] at h
  split_ifs at h with hused
  rw [not_or] at hused
  exact ⟨(Option.some.inj h).symm, hused⟩

/-- A client joins the list with the block `l`. -/
theorem sound_listen_iff (hs : Sound s) (hup : s.portal.up = true)
    (hconn : s.portal.conns c = some conn) (hrecv : conn.recv = .httpRecvcb) {l : Nat}
    (hblock : l ≠ 0) (hfree : l ∉ s.portal.scanListeners.map (·.block)) :
    Sound ⟨{ put c (some { conn with arg := l }) s.portal with
        scanListeners := ⟨l, c⟩ :: s.portal.scanListeners }, c :: s.waiting⟩ ↔
      c ∉ s.waiting ∧ conn.sent = .null := by
  constructor
  · intro hsound
    have hnew := hsound.served ⟨l, c⟩ List.mem_cons_self
    have hsame := (put_self ..).symm.trans hnew.conn
    injection hsame with hsame
    refine ⟨fun hc => ?_, (TcpPcb.mk.inj hsame).2.1⟩
    obtain ⟨block', -, -, hl⟩ := hs.conn_waiting hc
    have hold := (hsound.served ⟨block', c⟩ (List.mem_cons_of_mem _ hl)).conn
    have heq := Option.some.inj (hold.symm.trans hnew.conn)
    refine hfree (List.mem_map.mpr ⟨_, hl, ?_⟩)
    exact (TcpPcb.mk.inj heq).2.2.2
  · rintro ⟨hc, hsent⟩
    have hpoll := (hs.requests c conn hconn hrecv).1
    refine ⟨hs.fault, congrArg (c :: ·) hs.waiting, List.nodup_cons.mpr ⟨hfree, hs.blocks⟩,
      fun l' hl' => ?_, fun c' conn' hconn' hrecv' => ?_, fun hdown => ?_⟩
    · obtain rfl | hl' := List.mem_cons.mp hl'
      · refine ⟨hblock, (put_self ..).trans ?_⟩
        rw [hrecv, hsent, hpoll]
      · have hne : l'.conn ≠ c := fun heq => hc (hs.mem_waiting.mpr ⟨l', hl', heq⟩)
        exact ⟨(hs.served l' hl').block, (put_other hne _ _).trans (hs.served l' hl').conn⟩
    · refine hs.requests_put (fun conn'' hsame _ => ?_) c' conn' hconn' hrecv'
      rw [← Option.some.inj hsame]
      exact hs.requests c conn hconn hrecv
    · exact absurd (hup.symm.trans hdown) (by decide)

/-- No scan begins, and the client is turned away. -/
theorem Sound.turnedAway (hs : Sound s) (hnone : s.portal.scanListeners = []) (l : Nat) :
    Sound ⟨{ ScanListeners.put c (some (deferredClose { conn with arg := l })) s.portal with
      scanListeners := [] }, s.waiting⟩ := by
  have hempty : s.waiting = [] := by
    rw [← hs.waiting, hnone]
    rfl
  have hnot : c ∉ s.waiting := by
    rw [hempty]
    exact List.not_mem_nil
  have hput := hs.put hnot (requests_deferredClose { conn with arg := l })
  exact ⟨hput.fault, hempty.symm, List.nodup_nil, nofun, hput.requests, fun _ => rfl⟩

theorem sound_aplist_iff (hs : Sound s) (hup : s.portal.up = true)
    (hconn : s.portal.conns c = some conn) (hrecv : conn.recv = .httpRecvcb) (block : Nat)
    (scans : Bool) :
    Sound ⟨aplist c conn block scans s.portal,
      if waits s.portal c (.aplist block scans) then c :: s.waiting else s.waiting⟩ ↔
      (waits s.portal c (.aplist block scans) = true → c ∉ s.waiting ∧ conn.sent = .null) := by
  have hwaits : waits s.portal c (.aplist block scans) =
      ((malloc block s.portal).isSome && (!s.portal.scanListeners.isEmpty || scans)) := by
    rw [waits, hup, hconn, Option.any_some, decide_eq_true hrecv, Bool.true_and, Bool.true_and]
  rw [hwaits, aplist]
  cases hmalloc : malloc block s.portal with
  | none => exact iff_of_true hs nofun
  | some l =>
    obtain ⟨rfl, hblock, hfree⟩ := malloc_eq_some hmalloc
    dsimp only
    by_cases hwait : s.portal.scanListeners ≠ [] ∨ scans = true
    · have hcond : (!s.portal.scanListeners.isEmpty || scans) = true := by
        simpa [List.isEmpty_iff] using hwait
      rw [if_pos hwait, hcond, Option.isSome_some, Bool.true_and, if_pos rfl]
      exact (sound_listen_iff hs hup hconn hrecv hblock hfree).trans
        ⟨fun h _ => h, fun h => h rfl⟩
    · rw [not_or, not_not, Bool.not_eq_true] at hwait
      obtain ⟨hnone, hscans⟩ := hwait
      have hcond : (!s.portal.scanListeners.isEmpty || scans) = false := by
        rw [hnone, hscans]
        rfl
      rw [if_neg (by simp [hnone, hscans]), hcond, Bool.and_false, if_neg Bool.false_ne_true]
      exact iff_of_true (hs.turnedAway hnone l) nofun

/-- Only a request to the portal can make a client wait. -/
theorem waits_eq_false {p : Portal} (h : p.up = true → ∀ conn, p.conns c = some conn →
    conn.recv ≠ .httpRecvcb) (r : Request) : waits p c r = false := by
  cases r with
  | aplist block scans =>
    cases hup : p.up with
    | false => simp [waits, hup]
    | true =>
      cases hconn : p.conns c with
      | none => simp [waits, hconn]
      | some conn => simp [waits, hconn, h hup conn hconn]
  | page | update | other => rfl

theorem sound_received_iff (hs : Sound s) (r : Request) :
    Sound (step s (.received c r)) ↔ Proper s (.received c r) := by
  rw [step, portalStep, waitingAfter, Proper]
  cases hconn : s.portal.conns c with
  | none =>
    rw [waits_eq_false fun _ conn h => by rw [hconn] at h; cases h]
    exact iff_of_true hs nofun
  | some conn =>
    dsimp only
    cases hrecv : conn.recv with
    | handleRemoteClose | null =>
      have hne : ∀ conn', s.portal.conns c = some conn' → conn'.recv ≠ .httpRecvcb := by
        intro conn' h
        rw [← Option.some.inj (hconn.symm.trans h), hrecv]
        nofun
      rw [waits_eq_false fun _ => hne]
      refine iff_of_true hs fun conn' h hrecv' => absurd hrecv' (hne conn' ?_)
      rw [hconn, h]
    | httpRecvcb =>
      have hproper {P : TcpPcb → Prop} (hup : s.portal.up = true) :
          (∀ conn' ∈ some conn, conn'.recv = .httpRecvcb → s.portal.up = true →
            P conn') ↔ P conn :=
        ⟨fun h => h conn rfl hrecv hup, fun h conn' hsame _ _ => Option.some.inj hsame ▸ h⟩
      rw [httpRecvcb.eq_def]
      by_cases hup : s.portal.up = true
      · rw [if_pos hup, hproper hup]
        cases r with
        | page chunklen =>
          exact sound_put_iff hs (fun conn' h hrecv' => by
            injection h with h
            subst h
            cases hrecv') nofun
        | aplist block scans => exact sound_aplist_iff hs hup hconn hrecv block scans
        | update handled =>
          cases handled with
          | true =>
            exact (sound_put_iff hs (requests_deferredClose conn) (deferredClose_ne conn)).trans
              ⟨fun h _ => h, fun h => h rfl⟩
          | false => exact iff_of_true hs nofun
        | other => exact sound_put_iff hs (requests_deferredClose conn) (deferredClose_ne conn)
      · have hdown := hs.down (Bool.not_eq_true _ ▸ hup)
        have hempty : c ∉ s.waiting := by
          rw [← hs.waiting, hdown]
          exact List.not_mem_nil
        rw [if_neg hup, waits_eq_false fun h => absurd h hup]
        exact iff_of_true (hs.put hempty nofun) fun _ _ _ h => absurd h hup

theorem Sound.conn_eq (hs : Sound s) (hc : c ∈ s.waiting) (hconn : s.portal.conns c = some conn) :
    ∃ block, block ≠ 0 ∧ conn = ⟨.httpRecvcb, .null, false, block⟩ ∧
      (⟨block, c⟩ : ScanListener) ∈ s.portal.scanListeners := by
  obtain ⟨block, hblock, h, hl⟩ := hs.conn_waiting hc
  exact ⟨block, hblock, Option.some.inj (hconn.symm.trans h), hl⟩

/-- The list after the end of a connection, and those who then wait. -/
theorem sound_remove_iff (hs : Sound s) (hup : s.portal.up = true)
    (hconn : s.portal.conns c = some conn) :
    Sound ⟨put c (some (deferredClose conn))
      (if conn.arg ≠ 0 then removeScanListener conn.arg s.portal else s.portal),
      s.waiting.filter (· ≠ c)⟩ ↔
      ∀ l ∈ s.portal.scanListeners, l.block = conn.arg → l.conn = c := by
  have hremove : (if conn.arg ≠ 0 then removeScanListener conn.arg s.portal else s.portal) =
      removeScanListener conn.arg s.portal := by
    split_ifs with harg
    · rfl
    · rw [not_not] at harg
      rw [removeScanListener, List.filter_eq_self.mpr]
      intro l hl
      rw [decide_eq_true_eq, harg]
      exact (hs.served l hl).block
  -- the listener of the connection itself is the one with the block of its argument
  have hown {l : ScanListener} (hl : l ∈ s.portal.scanListeners) (h : l.conn = c) :
      l.block = conn.arg := by
    have hserved := (hs.served l hl).conn
    rw [h, hconn] at hserved
    rw [Option.some.inj hserved]
  rw [hremove]
  constructor
  · intro hsound l hl hblock
    by_contra hne
    have hmem : l.conn ∈ s.waiting.filter (· ≠ c) :=
      List.mem_filter.mpr ⟨hs.mem_waiting.mpr ⟨l, hl, rfl⟩, by simpa using hne⟩
    obtain ⟨l', hl', hsame⟩ := hsound.mem_waiting.mp hmem
    obtain ⟨hl', hkept⟩ := List.mem_filter.mp hl'
    have heq := hs.served_unique hl' hl hsame
    rw [heq, hblock] at hkept
    simp at hkept
  · intro h
    have hfilter : s.portal.scanListeners.filter (·.block ≠ conn.arg) =
        s.portal.scanListeners.filter (·.conn ≠ c) := by
      refine List.filter_congr fun l hl => ?_
      rw [decide_eq_decide]
      exact not_congr ⟨h l hl, hown hl⟩
    refine ⟨hs.fault, ?_, hs.blocks.sublist (List.filter_sublist.map _), fun l hl => ?_,
      hs.requests_put (requests_deferredClose conn), fun hdown => ?_⟩
    · rw [← hs.waiting, List.filter_map]
      exact congrArg (List.map _) hfilter
    · rw [put, removeScanListener, hfilter] at hl
      obtain ⟨hl, hne⟩ := List.mem_filter.mp hl
      rw [decide_eq_true_eq] at hne
      exact ⟨(hs.served l hl).block, (put_other hne _ _).trans (hs.served l hl).conn⟩
    · exact absurd (hup.symm.trans hdown) (by decide)

theorem sound_closed_iff (hs : Sound s) :
    Sound (step s (.closed c)) ↔ Proper s (.closed c) := by
  rw [step, portalStep, waitingAfter, Proper]
  cases hconn : s.portal.conns c with
  | none =>
    have hnot : c ∉ s.waiting := fun hc => by
      obtain ⟨block, -, h, -⟩ := hs.conn_waiting hc
      rw [hconn] at h
      cases h
    rw [filter_ne hnot]
    exact iff_of_true hs nofun
  | some conn =>
    dsimp only
    cases hrecv : conn.recv with
    | handleRemoteClose | null =>
      have hnot : c ∉ s.waiting := fun hc => by
        obtain ⟨block, -, rfl, -⟩ := hs.conn_eq hc hconn
        cases hrecv
      rw [filter_ne hnot]
      refine iff_of_true (hs.put hnot nofun) fun conn' h hrecv' => ?_
      rw [← Option.some.inj h, hrecv] at hrecv'
      cases hrecv'
    | httpRecvcb =>
      have hproper : (∀ conn' ∈ some conn, conn'.recv = .httpRecvcb →
          ∀ l ∈ s.portal.scanListeners, l.block = conn'.arg → l.conn = c) ↔
          ∀ l ∈ s.portal.scanListeners, l.block = conn.arg → l.conn = c :=
        ⟨fun h => h conn rfl hrecv, fun h conn' hsame _ => Option.some.inj hsame ▸ h⟩
      rw [httpRecvcbClosed, hproper]
      by_cases hup : s.portal.up = true
      · rw [if_pos hup]
        exact sound_remove_iff hs hup hconn
      · have hdown := hs.down (Bool.not_eq_true _ ▸ hup)
        have hempty : c ∉ s.waiting := by
          rw [← hs.waiting, hdown]
          exact List.not_mem_nil
        rw [if_neg hup, filter_ne hempty, hdown]
        exact iff_of_true (hs.put hempty nofun) nofun

theorem sound_reset_iff (hs : Sound s) : Sound (step s (.reset c)) ↔ Proper s (.reset c) := by
  rw [step, portalStep, waitingAfter, Proper]
  constructor
  · intro hsound hc
    obtain ⟨l, hl, rfl⟩ := hs.mem_waiting.mp hc
    have hconn := (hsound.served l hl).conn
    rw [put_self] at hconn
    cases hconn
  · intro hc
    rw [filter_ne hc]
    exact hs.put hc nofun

theorem Sound.connected (hs : Sound s) : Sound (step s (.connected c)) := by
  rw [step, portalStep, waitingAfter]
  split_ifs with hnew
  · have hnot : c ∉ s.waiting := fun hc => by
      obtain ⟨block, -, h, -⟩ := hs.conn_waiting hc
      rw [hnew.2] at h
      cases h
    refine hs.put hnot fun conn' h _ => ?_
    rw [← Option.some.inj h]
    exact ⟨rfl, nofun⟩
  · exact hs

theorem Sound.acknowledged (hs : Sound s) (out : StreamOut) :
    Sound (step s (.acknowledged c out)) := by
  rw [step, portalStep, waitingAfter]
  cases hconn : s.portal.conns c with
  | none => exact hs
  | some conn =>
    have hnot (hsent : conn.sent ≠ .null) : c ∉ s.waiting := fun hc => by
      obtain ⟨block, -, rfl, -⟩ := hs.conn_eq hc hconn
      exact hsent rfl
    dsimp only
    cases hsent : conn.sent with
    | null => exact hs
    | closeOnceSent =>
      exact hs.put (hnot (by rw [hsent]; nofun)) (requests_deferredClose conn)
    | streamoutSent =>
      have hput := hnot (by rw [hsent]; nofun)
      rw [streamoutSent.eq_def]
      split_ifs with hup
      · cases out with
        | failed => exact hs.put hput nofun
        | more offs =>
          refine hs.put hput fun conn' h hrecv => ?_
          rw [← Option.some.inj h] at hrecv
          exact absurd hsent (hs.requests c conn hconn hrecv).2
        | done => exact hs.put hput (requests_deferredClose conn)
      · exact hs.put hput nofun

theorem Sound.polled (hs : Sound s) : Sound (step s (.polled c)) := by
  rw [step, portalStep, waitingAfter]
  cases hconn : s.portal.conns c with
  | none => exact hs
  | some conn =>
    dsimp only
    split_ifs with hpoll
    · refine hs.put (fun hc => ?_) nofun
      obtain ⟨block, -, rfl, -⟩ := hs.conn_eq hc hconn
      cases hpoll
    · exact hs

/-- The connections of all listeners are there, and none is written to twice. -/
theorem notify_spec (accepted : Nat → Bool) {ls : List ScanListener}
    {conns : Nat → Option TcpPcb} (hserved : ∀ l ∈ ls, Served conns l)
    (hnodup : (ls.map (·.conn)).Nodup)
    (hrequests : ∀ c conn, conns c = some conn → conn.recv = .httpRecvcb →
      conn.poll = false ∧ conn.sent ≠ .streamoutSent) :
    ∃ conns', notifyScanListeners accepted ls conns = some conns' ∧
      ∀ c conn, conns' c = some conn → conn.recv = .httpRecvcb →
        conn.poll = false ∧ conn.sent ≠ .streamoutSent := by
  induction ls generalizing conns with
  | nil => exact ⟨conns, rfl, hrequests⟩
  | cons l ls ih =>
    rw [List.forall_mem_cons] at hserved
    obtain ⟨hl, hserved⟩ := hserved
    rw [List.map_cons, List.nodup_cons] at hnodup
    obtain ⟨hfirst, hnodup⟩ := hnodup
    rw [notifyScanListeners, hl.conn]
    refine ih (fun l' hl' => ?_) hnodup fun c conn hconn hrecv => ?_
    · have hne : l'.conn ≠ l.conn := fun h => hfirst (List.mem_map.mpr ⟨l', hl', h⟩)
      exact ⟨(hserved l' hl').block, (Function.update_of_ne hne ..).trans (hserved l' hl').conn⟩
    · by_cases hc : c = l.conn
      · rw [hc, Function.update_self] at hconn
        split_ifs at hconn
        rw [← Option.some.inj hconn]
        exact ⟨rfl, nofun⟩
      · rw [Function.update_of_ne hc] at hconn
        exact hrequests c conn hconn hrecv

theorem Sound.nodup_conns (hs : Sound s) : (s.portal.scanListeners.map (·.conn)).Nodup := by
  refine List.Nodup.map_on (fun l hl l' hl' h => hs.served_unique hl hl' h) ?_
  exact hs.blocks.of_map _

theorem Sound.scanned (hs : Sound s) (accepted : Nat → Bool) :
    Sound (step s (.scanned accepted)) := by
  rw [step, portalStep, waitingAfter, onScanDone]
  by_cases hup : s.portal.up = true
  · rw [if_pos hup]
    by_cases hempty : s.portal.scanListeners = []
    · have hwaiting : s.waiting = [] := by
        rw [← hs.waiting, hempty]
        rfl
      rw [if_pos (.inr hempty), ← hwaiting]
      exact hs
    · obtain ⟨conns, hnotify, hrequests⟩ :=
        notify_spec accepted hs.served hs.nodup_conns hs.requests
      rw [if_neg (by simp [hup, hempty]), hnotify]
      exact ⟨hs.fault, rfl, List.nodup_nil, nofun, hrequests, fun _ => rfl⟩
  · rw [if_neg hup, if_pos (.inl (Bool.not_eq_true _ ▸ hup))]
    exact hs

theorem Sound.stop (hs : Sound s) : Sound ⟨enduserSetupStop s.portal, []⟩ :=
  ⟨hs.fault, rfl, List.nodup_nil, nofun, hs.requests, fun _ => rfl⟩

theorem Sound.start (hs : Sound s) (ok : Bool) : Sound (step s (.start ok)) := by
  rw [step, portalStep, waitingAfter, enduserSetupStart]
  by_cases hup : s.portal.up = true
  · rw [if_pos hup, if_pos hup]
    exact hs.stop
  · rw [if_neg hup, if_neg hup]
    exact ⟨hs.fault, hs.waiting, hs.blocks, hs.served, hs.requests,
      fun _ => hs.down (Bool.not_eq_true _ ▸ hup)⟩

theorem sound_step_iff (hs : Sound s) (e : Event) : Sound (step s e) ↔ Proper s e := by
  cases e with
  | connected c => exact iff_of_true hs.connected trivial
  | received c r => exact sound_received_iff hs r
  | closed c => exact sound_closed_iff hs
  | reset c => exact sound_reset_iff hs
  | acknowledged c out => exact iff_of_true (hs.acknowledged out) trivial
  | polled c => exact iff_of_true hs.polled trivial
  | scanned accepted => exact iff_of_true (hs.scanned accepted) trivial
  | stop => exact iff_of_true hs.stop trivial
  | start ok => exact iff_of_true (hs.start ok) trivial

theorem sound_start : Sound start := ⟨rfl, rfl, List.nodup_nil, nofun, nofun, fun _ => rfl⟩

theorem Sound.answered_eq (hs : Sound s) (e : Event) : answered s e = due s e := by
  cases e with
  | scanned accepted => rw [answered, due, hs.waiting]
  | connected | received | closed | reset | acknowledged | polled | stop | start => rfl

end Steps

/-- In every run all states are sound if and only if no client that waits asks for something else
or is reset, none begins to wait while an answer is on its way to it, and no connection that
closes has the block of another one's listener. -/
theorem scan_run_iff (events : List Event) :
    Along step (fun s e => Sound (step s e)) start events ↔ Along step Proper start events :=
  along_congr step _ _ Sound (fun _ e hs => sound_step_iff hs e) (fun _ _ _ hsound => hsound) _ _
    sound_start

/-- In such a run each scan is answered to those who wait, once each, and nothing is written to a
connection that there is not. -/
theorem scan_run {events : List Event} (hproper : Along step Proper start events) :
    gather step answered start events = gather step due start events ∧
      (run step start events).portal.fault = false := by
  have hstep (s : System) (e : Event) (hs : Sound s) (he : Proper s e) : Sound (step s e) :=
    (sound_step_iff hs e).mpr he
  exact ⟨gather_congr step Proper Sound hstep _ _ (fun _ e hs => hs.answered_eq e) _ _ sound_start
    hproper, (run_invariant step Proper Sound hstep _ _ sound_start hproper).fault⟩

/-- One client leaves while it waits, the other one is served, its list sent, and asks once more
after a new scan. -/
def twoClients : List Event :=
  [.start true, .connected 1, .connected 2, .received 1 (.aplist 100 true),
    .received 2 (.aplist 200 false), .closed 1, .scanned fun _ => true, .acknowledged 2 .done,
    .polled 2, .connected 2, .received 2 (.aplist 100 true), .scanned fun _ => false]

theorem scan_run_twoClients :
    gather step answered start twoClients = gather step due start twoClients ∧
      (run step start twoClients).portal.fault = false :=
  scan_run (by decide)

example : gather step answered start twoClients = [2, 2] := by decide

end NodeMcu.EnduserSetup.ScanListeners
