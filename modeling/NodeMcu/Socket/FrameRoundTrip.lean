import Mathlib.Data.List.GetD
import NodeMcu.Socket.Parsing

namespace NodeMcu.Socket.FrameRoundTrip

open NodeMcu.Socket.Sending NodeMcu.Socket.Parsing

/-- The frames with data. -/
inductive DataKind
  | text
  | binary
  deriving DecidableEq

def DataKind.opcode : DataKind → UInt8
  | .text => opcodeText
  | .binary => opcodeBinary

/-- The callback that such a frame is for, with all of its payload. -/
def DataKind.call (payload : List UInt8) : DataKind → Call
  | .text => .textReceived payload payload.length
  | .binary => .binaryReceived payload payload.length

/-- The length stands in seven bits. -/
def ShortForm (frame : List UInt8) : Prop := shortSize (start frame).mem 0 < 126

/-- Whoever calls the parser, it returns after one call of the callback. -/
def Delivered (kind : DataKind) (payload frame : List UInt8) : Prop :=
  ∀ (c : Caller) (fuel : Nat), ∃ s, c.call (fuel + 1) frame = some (.returned 0 s) ∧
    s.calls = [kind.call payload]

/-- The bytes of the header in front of a payload. -/
def hdrLgth (payload : List UInt8) : Nat := if payload.length < 126 then 2 else 4

/-- A payload that fits is sent in one frame if there is memory for it, and the parser delivers it
from the bytes of the frame; nothing is sent otherwise, and the code says why. -/
def RoundTrip (p : Platform) (kind : DataKind) (payload : List UInt8) (t : Transport) : Prop :=
  let r := webSocketSendData p payload payload.length kind.opcode t
  (payload.length < 5116 →
    (p.hasMemory (payload.length + hdrLgth payload) = true →
      ∃ frame, r = (webSocketErrOk, { t with sent := t.sent ++ [(frame, p.espconnSent frame)] }) ∧
        Delivered kind payload frame ∧ (ShortForm frame ↔ payload.length ≤ 125)) ∧
    (p.hasMemory (payload.length + hdrLgth payload) = false →
      r = (webSocketErrOutOfMemory, t))) ∧
  (5116 ≤ payload.length → r = (webSocketErrTooMuchData, t))

/-- What the parser reads from the header of a frame with data. -/
structure Reads (mem : Nat → UInt8) (kind : DataKind) (hdr payload : List UInt8) : Prop where
  kind_eq : opcode mem 0 = kind.opcode
  not_masked : isMasked mem 0 = false
  hdr_length : lgthOffset mem 0 = hdr.length
  payload_length : size mem 0 = payload.length
  short : shortSize mem 0 < 126 ↔ payload.length < 126

set_option maxRecDepth 2000 in
/-- The second byte of a short frame without a mask. -/
theorem second_byte_unmasked : ∀ n, n < 126 → UInt8.ofNat n &&& 0x7F = UInt8.ofNat n ∧
    (UInt8.ofNat n &&& 0x80 != 0) = false := by
  decide

theorem opcode_first (kind : DataKind) : (0x80 ||| kind.opcode) &&& 0x0F = kind.opcode := by
  cases kind <;> rfl

theorem reads_short (kind : DataKind) (payload : List UInt8) (h : payload.length < 126) :
    Reads (start ([0x80 ||| kind.opcode, UInt8.ofNat payload.length] ++ payload)).mem kind
      [0x80 ||| kind.opcode, UInt8.ofNat payload.length] payload := by
  obtain ⟨hsize, hmask⟩ := second_byte_unmasked payload.length h
  have hvalue : (UInt8.ofNat payload.length).toNat = payload.length := by
    rw [UInt8.toNat_ofNat']
    omega
  have hshort : shortSize
      (start ([0x80 ||| kind.opcode, UInt8.ofNat payload.length] ++ payload)).mem 0 =
      UInt8.ofNat payload.length := hsize
  have hlt : UInt8.ofNat payload.length < 126 := by
    rw [UInt8.lt_iff_toNat_lt, hvalue]
    exact h
  have h126 : UInt8.ofNat payload.length ≠ 126 := by
    intro he
    rw [he] at hlt
    exact absurd hlt (by decide)
  have h127 : UInt8.ofNat payload.length ≠ 127 := by
    intro he
    rw [he] at hlt
    exact absurd hlt (by decide)
  refine ⟨opcode_first kind, hmask, ?_, ?_, ?_⟩
  · rw [lgthOffset, hshort, if_neg h126, if_neg h127]
    rfl
  · rw [size, hshort, if_neg h126, if_neg h127, hvalue]
  · rw [hshort]
    exact iff_of_true hlt h

theorem reads_long (kind : DataKind) (payload : List UInt8) (h : 126 ≤ payload.length)
    (hfits : payload.length < 65536) :
    Reads (start ([0x80 ||| kind.opcode, 126, UInt8.ofNat (payload.length >>> 8),
        UInt8.ofNat payload.length] ++ payload)).mem kind
      [0x80 ||| kind.opcode, 126, UInt8.ofNat (payload.length >>> 8), UInt8.ofNat payload.length]
      payload := by
  have hshort : shortSize (start ([0x80 ||| kind.opcode, 126,
      UInt8.ofNat (payload.length >>> 8), UInt8.ofNat payload.length] ++ payload)).mem 0 = 126 := by
    have hbits : (126 : UInt8) &&& 0x7F = 126 := by decide
    exact hbits
  have hmask : ((126 : UInt8) &&& 0x80 != 0) = false := by decide
  refine ⟨opcode_first kind, hmask, ?_, ?_, ?_⟩
  · rw [lgthOffset, if_pos hshort]
    rfl
  · have hlow : (UInt8.ofNat payload.length).toNat < 2 ^ 8 := UInt8.toNat_lt _
    have hbytes : (UInt8.ofNat payload.length).toNat |||
        (UInt8.ofNat (payload.length >>> 8)).toNat <<< 8 = payload.length := by
      rw [Nat.or_comm, ← Nat.shiftLeft_add_eq_or_of_lt hlow, Nat.shiftLeft_eq,
        UInt8.toNat_ofNat', UInt8.toNat_ofNat', Nat.shiftRight_eq_div_pow]
      omega
    rw [size, if_pos hshort]
    exact congrArg Nat.cast hbytes
  · rw [hshort]
    exact iff_of_false (by decide) (by omega)

section Frame

variable {kind : DataKind} {hdr payload : List UInt8}

theorem Reads.offset_eq (h : Reads (start (hdr ++ payload)).mem kind hdr payload) :
    offset (start (hdr ++ payload)).mem 0 = hdr.length := by
  simp only [offset, h.not_masked, h.hdr_length, Bool.false_eq_true, if_false, Nat.add_zero]

theorem Reads.not_ends (h : Reads (start (hdr ++ payload)).mem kind hdr payload) :
    ¬ Ends (start (hdr ++ payload)).mem 0 := by
  rw [Ends, isInvalid, h.kind_eq]
  cases kind <;> decide

theorem Reads.fits (h : Reads (start (hdr ++ payload)).mem kind hdr payload)
    (hlen : 2 ≤ hdr.length) :
    Fits (hdr ++ payload).length (start (hdr ++ payload)).mem 0 := by
  have ho := h.offset_eq
  have hs := h.payload_length
  have hl : (hdr ++ payload).length = hdr.length + payload.length := List.length_append
  exact ⟨by omega, by omega, fun _ => by omega, by omega, by omega⟩

/-- Without a mask the payload is what stands behind the header. -/
theorem Reads.data_eq (h : Reads (start (hdr ++ payload)).mem kind hdr payload)
    {mem : Nat → UInt8} (hu : Unmasks 0 (start (hdr ++ payload)).mem mem) :
    ((List.range (size (start (hdr ++ payload)).mem 0).toNat).map fun i =>
      mem (0 + offset (start (hdr ++ payload)).mem 0 + i)) = payload := by
  have hn : (size (start (hdr ++ payload)).mem 0).toNat = payload.length := by
    rw [h.payload_length, Int.toNat_natCast]
  apply List.ext_getElem
  · rw [List.length_map, List.length_range, hn]
  · intro i hi hi'
    have hmem : (start (hdr ++ payload)).mem (hdr.length + i) = payload[i] := by
      change (hdr ++ payload).getD (hdr.length + i) 0 = _
      rw [List.getD_append_right _ _ _ _ (Nat.le_add_right _ _), Nat.add_sub_cancel_left,
        List.getD_eq_getElem _ _ hi']
    have hsame := hu.payload i (by omega)
    simp only [h.not_masked, Bool.false_eq_true, if_false, h.offset_eq, Nat.zero_add] at hsame
    rw [List.getElem_map, List.getElem_range, h.offset_eq, Nat.zero_add, hsame, hmem]

theorem received_opcode (kind : DataKind) (payload : List UInt8) :
    received kind.opcode payload payload.length = [kind.call payload] := by
  cases kind <;> rfl

/-- The frame ends where the data ends, so that the parser is not called again. -/
theorem Reads.delivered (h : Reads (start (hdr ++ payload)).mem kind hdr payload)
    (hlen : 2 ≤ hdr.length) (hsmall : hdr.length + payload.length < 2 ^ 32) :
    Delivered kind payload (hdr ++ payload) := by
  intro c fuel
  have hle := c.dataLen_le (hdr ++ payload)
  rw [List.length_append] at hle
  obtain ⟨mem, hu, hframe⟩ := parseFrame_fits (c.dataLen (hdr ++ payload)) h.not_ends (h.fits hlen)
  obtain ⟨t, hcalls, -, hdeliver⟩ :=
    deliver_fits (c.dataLen (hdr ++ payload)) mem (h.fits hlen)
  have hsum : ¬ ((size (start (hdr ++ payload)).mem 0 + offset (start (hdr ++ payload)).mem 0) %
      2 ^ 32).toNat < c.dataLen (hdr ++ payload) := by
    rw [h.payload_length, h.offset_eq]
    omega
  rw [if_neg hsum] at hdeliver
  rw [h.data_eq hu, h.kind_eq, h.payload_length, received_opcode] at hcalls
  refine ⟨t, ?_, hcalls⟩
  rw [c.call_eq, webSocketParse, hframe, hdeliver]

end Frame

theorem hdrBytes_reads (kind : DataKind) (payload : List UInt8) (h : payload.length < 5116) :
    ∃ hdr, hdrBytes payload.length kind.opcode = some hdr ∧ hdr.length = hdrLgth payload ∧
      Reads (start (hdr ++ payload)).mem kind hdr payload := by
  by_cases hshort : payload.length < 126
  · refine ⟨_, if_pos hshort, ?_, reads_short kind payload hshort⟩
    rw [hdrLgth, if_pos hshort]
    rfl
  · refine ⟨_, (if_neg hshort).trans (if_pos h), ?_,
      reads_long kind payload (by omega) (by omega)⟩
    rw [hdrLgth, if_neg hshort]
    rfl

/-- What is sent in one frame is what the parser delivers. -/
theorem frame_roundTrip (p : Platform) (kind : DataKind) (payload : List UInt8)
    (t : Transport) : RoundTrip p kind payload t := by
  constructor
  · intro h
    obtain ⟨hdr, hhdr, hlen, hreads⟩ := hdrBytes_reads kind payload h
    have hlgth : 2 ≤ hdrLgth payload ∧ hdrLgth payload ≤ 4 := by
      unfold hdrLgth
      split
      · omega
      · omega
    constructor
    · intro hmem
      refine ⟨hdr ++ payload, ?_, hreads.delivered (by omega) (by omega), ?_⟩
      · simp only [webSocketSendData, hhdr, hlen, hmem, if_true, List.take_length]
      · rw [ShortForm, hreads.short]
        omega
    · intro hmem
      simp only [webSocketSendData, hhdr, hlen, hmem, Bool.false_eq_true, if_false]
  · intro h
    have hnone : hdrBytes payload.length kind.opcode = none := by
      have h126 : ¬ payload.length < 126 := by omega
      have h5116 : ¬ payload.length < sslBufferSize - 4 := by
        rw [sslBufferSize]
        omega
      exact (if_neg h126).trans (if_neg h5116)
    simp only [webSocketSendData, hnone]

end NodeMcu.Socket.FrameRoundTrip
