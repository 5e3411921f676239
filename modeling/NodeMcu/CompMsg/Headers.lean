import NodeMcu.CompMsg.Codes

namespace NodeMcu.CompMsg.Headers

/-- The entries of a header sequence: `COMP_DISP_U16_DST` to `COMP_DISP_U16_TOTAL_CRC`. -/
inductive SeqEntry
  | u16Dst
  | u16Src
  | u16TotalLgth
  | u8VectorGuid
  | u16SrcId
  | hdrReserve
  | u8VectorHdrFiller
  | u16CmdKey
  | u0CmdLgth
  | u8CmdLgth
  | u16CmdLgth
  | u0Crc
  | u8Crc
  | u16Crc
  | u0TotalCrc
  | u8TotalCrc
  | u16TotalCrc
  deriving DecidableEq, Repr

/-- `headerPart_t`: one line of the heads file. The sequence is the part of the array in front
of its terminating zero. -/
structure HeaderPart where
  hdrFromPart : Nat
  hdrToPart : Nat
  hdrTotalLgth : Nat
  hdrU16CmdKey : Nat
  hdrEncryption : Char
  hdrHandleType : Char
  hdrFlags : Nat
  fieldSequence : List SeqEntry
  deriving DecidableEq, Repr

/-- The part of `msgHeaderInfos_t` that is read from the heads file and then stays as it is. -/
structure MsgHeaderInfos where
  headerSequence : List SeqEntry
  headerLgth : Nat
  headerParts : List HeaderPart
  deriving DecidableEq, Repr

/-- The loop that both the receiver and `handleReceivedHeader` run over a field sequence. -/
def HeaderPart.u8TotalCrc (hdr : HeaderPart) : Bool :=
  hdr.fieldSequence.any (· == .u8TotalCrc)

end NodeMcu.CompMsg.Headers
