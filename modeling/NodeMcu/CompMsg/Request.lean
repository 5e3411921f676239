import NodeMcu.CompMsg.Identify
import NodeMcu.Lib.Run

namespace NodeMcu.CompMsg.Request

open NodeMcu.Lib.Memory
open NodeMcu.CompMsg.Codes NodeMcu.CompMsg.Identify

def maxRequests : Nat := 5
def inputUart : Nat := 1

/-- Allocated memory. All lengths that are allocated here are `uint16_t` values. -/
structure Block where
  cap : Nat
  cap_lt : cap < 65536
  mem : Mem

def memLgth : Option Block → Nat
  | none => 0
  | some b => b.cap

def osZalloc (lgth : Nat) : Block := ⟨lgth % 65536, Nat.mod_lt _ (by decide), fun _ => 0⟩

def osRealloc (b : Block) (lgth : Nat) : Block := ⟨lgth % 65536, Nat.mod_lt _ (by decide), b.mem⟩

/-- `msgRequestInfo_t`. A null pointer is `none`. -/
structure RequestInfo where
  requestType : Nat
  sud : Option Nat
  requestDispatcher : Option Nat
  data : Option Block
  lgth : Nat
  currLgth : Nat
  currIdx : Nat
  totalLgth : Nat
  isComplete : Bool

abbrev Requests := Fin maxRequests → RequestInfo

/-- The data of a call and its `uint16_t` length. -/
structure Chunk where
  bytes : List UInt8
  short : bytes.length < 65536

/-- What a call depends on besides the table: whether its two allocations find memory, and what the
functions return that `detectMsg` and `addRequestData` call with a pointer that was never set. -/
structure Call where
  requestType : Nat
  sud : Option Nat
  chunk : Chunk
  zallocOk : Bool
  growOk : Bool
  headerCheck : Ret
  unpack : Ret

/-- The slot that `uartTimerResetRequest` resets. -/
def uartSlot : Fin maxRequests := ⟨0, by decide⟩

def zeroRequest : RequestInfo := ⟨0, none, none, none, 0, 0, 0, 0, false⟩

/-- The table after `compMsgRequestInit`. -/
def initRequests : Requests := fun i => { zeroRequest with requestDispatcher := some i }

/-- The new `currLgth`, when the data does not fit. -/
def growLgth (r : RequestInfo) (lgth : Nat) : Nat :=
  if r.requestType = inputUart then
    (if r.currLgth = 0 then 255 else (r.currLgth + 10) % 65536)
  else (r.currLgth + lgth) % 65536

/-- The check for enough free space in `detectMsg`. -/
def growData (growOk : Bool) (r : RequestInfo) (lgth : Nat) : Result × RequestInfo :=
  if r.currLgth < lgth then
    let currLgth := growLgth r lgth
    if growOk then
      let data := match r.data with
        | none => osZalloc currLgth
        | some b => osRealloc b currLgth
      (.ok (), { r with currLgth := currLgth, data := some data })
    else (.error .outOfMemory, { r with currLgth := currLgth, data := none })
  else (.ok (), r)

def storeAt (r : RequestInfo) (b : Block) (c : UInt8) : RequestInfo :=
  { r with
    data := some { b with mem := write b.mem r.currIdx [c] }
    currIdx := (r.currIdx + 1) % 65536 }

/-- The loop of `detectMsg`. -/
def storeLoop (headerLgth : Nat) (headerCheck : Ret) (r : RequestInfo) :
    List UInt8 → Ret × RequestInfo
  | [] => (.ok, r)
  | c :: cs =>
    match r.data with
    | none => (.crash, r)
    | some b =>
      let r := storeAt r b c
      let check := if r.currIdx = headerLgth then headerCheck else .ok
      match check with
      | .ok =>
        if r.currIdx = r.totalLgth ∧ 0 < r.totalLgth then (.ok, { r with isComplete := true })
        else storeLoop headerLgth headerCheck r cs
      | ret => (ret, r)

def detectMsg (headerLgth : Nat) (call : Call) (r : RequestInfo) : Ret × RequestInfo :=
  let g := growData call.growOk r call.chunk.bytes.length
  match g.1 with
  | .error e => (.error e, g.2)
  | .ok _ => storeLoop headerLgth call.headerCheck g.2 call.chunk.bytes

/-- The second test of the loop of `addRequestData`: whether the slot is taken for the request. -/
def canClaim (call : Call) (r : RequestInfo) : Bool :=
  r.sud == none && r.requestType == 0 ||
    call.requestType == inputUart && call.chunk.bytes.length == 0

def findSlot (call : Call) (s : Requests) : Option (Fin maxRequests) :=
  (List.finRange maxRequests).find? fun i => (s i).sud == call.sud || canClaim call (s i)

def claimSlot (call : Call) (r : RequestInfo) : Result × RequestInfo :=
  if call.zallocOk then
    (.ok (), { r with
      requestType := call.requestType
      sud := call.sud
      data := some (osZalloc call.chunk.bytes.length)
      lgth := call.chunk.bytes.length
      totalLgth := 999 })
  else
    (.error .outOfMemory, { r with
      requestType := call.requestType, sud := call.sud, data := none })

/-- The slot when `detectMsg` gets it. -/
def openSlot (call : Call) (r : RequestInfo) : Result × RequestInfo :=
  if r.sud = call.sud then (.ok (), r) else claimSlot call r

/-- What `addRequestData` does with the slot it has found. -/
def useSlot (headerLgth : Nat) (call : Call) (r : RequestInfo) : Ret × RequestInfo :=
  let o := openSlot call r
  match o.1 with
  | .error e => (.error e, o.2)
  | .ok _ =>
    match o.2.requestDispatcher with
    | none => (.crash, o.2)
    | some _ =>
      let d := detectMsg headerLgth call o.2
      match d.1 with
      | .ok => if d.2.isComplete then (call.unpack, d.2) else d
      | _ => d

theorem detectMsg_grown (headerLgth : Nat) (call : Call) (r : RequestInfo)
    (h : (growData call.growOk r call.chunk.bytes.length).1 = .ok ()) :
    detectMsg headerLgth call r = storeLoop headerLgth call.headerCheck
      (growData call.growOk r call.chunk.bytes.length).2 call.chunk.bytes := by
  rw [detectMsg, h]

/-- The slot that a call with an open slot and a dispatcher leaves is the one of `detectMsg`. -/
theorem useSlot_slot (headerLgth : Nat) (call : Call) (r : RequestInfo)
    (ho : (openSlot call r).1 = .ok ()) (hd : (openSlot call r).2.requestDispatcher ≠ none) :
    (useSlot headerLgth call r).2 = (detectMsg headerLgth call (openSlot call r).2).2 := by
  obtain ⟨disp, hdisp⟩ := Option.ne_none_iff_exists'.mp hd
  rw [useSlot, ho]
  dsimp only
  rw [hdisp]
  dsimp only
  split
  · split
    · rfl
    · rfl
  · rfl

def addRequestData (headerLgth : Nat) (call : Call) (s : Requests) : Ret × Requests :=
  match findSlot call s with
  | none => (.error .tooManyRequests, s)
  | some i =>
    let u := useSlot headerLgth call (s i)
    (u.1, Function.update s i u.2)

def resetRequest (slot : Fin maxRequests) (s : Requests) : Requests :=
  Function.update s slot zeroRequest

/-- The loop of `deleteRequest` goes on to the end of the table also when it has found the request,
so that the code behind the loop always takes it for missing. -/
def deleteRequest (s : Requests) : Result × Requests := (.error .requestNotFound, s)

inductive Op
  | add (call : Call)
  | reset (slot : Fin maxRequests)
  | delete (requestType : Nat) (sud : Option Nat)

/-- The table, whether a call has crashed, and for each slot the bytes that came in for it since it
was last reset. -/
structure Tracked where
  requests : Requests
  crashed : Bool
  received : Fin maxRequests → List UInt8

def start : Tracked := ⟨initRequests, false, fun _ => []⟩

def apply (headerLgth : Nat) (t : Tracked) : Op → Tracked
  | .add call =>
    let a := addRequestData headerLgth call t.requests
    { requests := a.2
      crashed := a.1 == .crash
      received := match findSlot call t.requests with
        | none => t.received
        | some i => Function.update t.received i (t.received i ++ call.chunk.bytes) }
  | .reset slot =>
    { t with
      requests := resetRequest slot t.requests
      received := Function.update t.received slot [] }
  | .delete _ _ => { t with requests := (deleteRequest t.requests).2 }

/-- Nothing runs after a crash. -/
def step (headerLgth : Nat) (t : Tracked) (op : Op) : Tracked :=
  if t.crashed then t else apply headerLgth t op

end NodeMcu.CompMsg.Request
