import Mathlib.Algebra.Group.Nat.Defs
import Mathlib.Algebra.Group.Int.Defs
import Mathlib.Tactic.SplitIfs

namespace NodeMcu.Socket.Sending

/-! ## Frames that are sent -/

/-- What the functions get from the heap and from the network: whether so many bytes are there,
and how `espconn_sent` answers when it is given these bytes. -/
structure Platform where
  hasMemory : Nat → Bool
  espconnSent : List UInt8 → UInt8

/-- The bytes that were given to the UART, and what was given to `espconn_sent` with its
answers. -/
structure Transport where
  uart : List UInt8
  sent : List (List UInt8 × UInt8)
  deriving DecidableEq

def opcodeText : UInt8 := 1

def opcodeBinary : UInt8 := 2

def opcodeClose : UInt8 := 8

def opcodePing : UInt8 := 9

def opcodePong : UInt8 := 10

def webSocketErrOk : UInt8 := 0

/-- The codes below zero as a `uint8_t`. -/
def webSocketErrOutOfMemory : UInt8 := 255

def webSocketErrTooMuchData : UInt8 := 254

def sslBufferSize : Nat := 5120

/-- The array of the header has 4 bytes. -/
def hdrBytes (size : Nat) (opcode : UInt8) : Option (List UInt8) :=
  if size < 126 then some [0x80 ||| opcode, UInt8.ofNat size]
  else if size < sslBufferSize - 4 then
    some [0x80 ||| opcode, 126, UInt8.ofNat (size >>> 8), UInt8.ofNat size]
  else none

/-- The answer of `espconn_sent` is not looked at. -/
def webSocketSendData (p : Platform) (payload : List UInt8) (size : Nat) (opcode : UInt8)
    (t : Transport) : UInt8 × Transport :=
  match hdrBytes size opcode with
  | none => (webSocketErrTooMuchData, t)
  | some hdr =>
    if p.hasMemory (size + hdr.length) then
      let buff := hdr ++ payload.take size
      (webSocketErrOk, { t with sent := t.sent ++ [(buff, p.espconnSent buff)] })
    else (webSocketErrOutOfMemory, t)

/-! ## What a peer reads -/

/-- A frame that is complete and the last one: its opcode and its payload. -/
def readFrame : List UInt8 → Option (UInt8 × List UInt8)
  | first :: second :: rest =>
    if second < 126 then
      if rest.length = second.toNat then some (first &&& 0x0F, rest) else none
    else
      match rest with
      | hi :: lo :: payload =>
        if second = 126 ∧ payload.length = hi.toNat * 256 + lo.toNat then
          some (first &&& 0x0F, payload)
        else none
      | _ => none
  | _ => none

/-- One frame with this payload was given, and nothing else. -/
def GivenFrame (opcode : UInt8) (payload : List UInt8) (t t' : Transport) : Prop :=
  t'.uart = t.uart ∧
    ∃ buff answer, t'.sent = t.sent ++ [(buff, answer)] ∧ readFrame buff = some (opcode, payload)

theorem readFrame_hdrBytes {opcode : UInt8} {payload hdr : List UInt8}
    (hop : (0x80 ||| opcode) &&& 0x0F = opcode)
    (h : hdrBytes payload.length opcode = some hdr) :
    readFrame (hdr ++ payload) = some (opcode, payload) := by
  rw [hdrBytes, sslBufferSize] at h
  split_ifs at h with hshort hlong
  · obtain rfl := Option.some.inj h
    have hsize : (UInt8.ofNat payload.length).toNat = payload.length := by
      rw [UInt8.toNat_ofNat']
      omega
    have hlt : UInt8.ofNat payload.length < 126 := by
      rw [UInt8.lt_iff_toNat_lt, hsize]
      exact hshort
    have hread : readFrame ((0x80 ||| opcode) :: UInt8.ofNat payload.length :: payload) =
        some ((0x80 ||| opcode) &&& 0x0F, payload) := (if_pos hlt).trans (if_pos hsize.symm)
    rw [hop] at hread
    exact hread
  · obtain rfl := Option.some.inj h
    have hsize : payload.length = (UInt8.ofNat (payload.length >>> 8)).toNat * 256 +
        (UInt8.ofNat payload.length).toNat := by
      rw [UInt8.toNat_ofNat', UInt8.toNat_ofNat', Nat.shiftRight_eq_div_pow]
      omega
    have hread : readFrame ((0x80 ||| opcode) :: 126 :: UInt8.ofNat (payload.length >>> 8) ::
        UInt8.ofNat payload.length :: payload) = some ((0x80 ||| opcode) &&& 0x0F, payload) :=
      if_pos ⟨rfl, hsize⟩
    rw [hop] at hread
    exact hread

/-- There is no frame for so much data or no memory for it, or it is given. -/
theorem webSocketSendData_cases (p : Platform) (payload : List UInt8) (opcode : UInt8)
    (t : Transport) :
    let r := webSocketSendData p payload payload.length opcode t
    (r.1 ≠ webSocketErrOk ∧ r.2 = t ∧ ∀ hdr, hdrBytes payload.length opcode = some hdr →
      ¬p.hasMemory (payload.length + hdr.length)) ∨
    (r.1 = webSocketErrOk ∧ ∃ hdr, hdrBytes payload.length opcode = some hdr ∧
      p.hasMemory (payload.length + hdr.length) ∧
      r.2 = { t with sent := t.sent ++ [(hdr ++ payload, p.espconnSent (hdr ++ payload))] }) := by
  rw [webSocketSendData]
  split
  · rename_i hnone
    have hne : webSocketErrTooMuchData ≠ webSocketErrOk := by decide
    exact .inl ⟨hne, rfl, fun hdr hhdr => by rw [hnone] at hhdr; cases hhdr⟩
  · rename_i hdr hhdr
    split
    · rename_i hmem
      refine .inr ⟨rfl, hdr, hhdr, hmem, ?_⟩
      rw [List.take_length]
    · rename_i hmem
      have hne : webSocketErrOutOfMemory ≠ webSocketErrOk := by decide
      refine .inl ⟨hne, rfl, fun hdr' hhdr' => ?_⟩
      rw [hhdr] at hhdr'
      rwa [← Option.some.inj hhdr']

/-- A frame is refused, or it is given with the whole payload. -/
theorem webSocketSendData_given (p : Platform) (payload : List UInt8) (opcode : UInt8)
    (hop : (0x80 ||| opcode) &&& 0x0F = opcode) (t : Transport) :
    let r := webSocketSendData p payload payload.length opcode t
    r.1 ≠ webSocketErrOk ∨ GivenFrame opcode payload t r.2 := by
  obtain ⟨hr, -⟩ | ⟨-, hdr, hhdr, -, hsent⟩ := webSocketSendData_cases p payload opcode t
  · exact .inl hr
  · refine .inr ?_
    rw [hsent]
    exact ⟨rfl, hdr ++ payload, p.espconnSent (hdr ++ payload), rfl, readFrame_hdrBytes hop hhdr⟩

end NodeMcu.Socket.Sending
