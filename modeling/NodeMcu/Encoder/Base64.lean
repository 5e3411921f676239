import NodeMcu.Lib.Sextets
import NodeMcu.Lib.Text

namespace NodeMcu.Encoder.Base64

open NodeMcu.Lib.Sextets NodeMcu.Lib.Text

def base64Invalid : UInt8 := 0xFF
def base64Padding : UInt8 := 0x3D

def b64 : List UInt8 :=
  bytesOf "ABCDEFGHIJKLMNOPQRSTUVWXYZabcdefghijklmnopqrstuvwxyz0123456789+/"

/-- The copy of `b64` with its terminating zero. -/
def bytes64 (i : Nat) : UInt8 := b64.getD i 0

/-- The table that the decoder fills before it reads the message. -/
def unbytes64 : UInt8 → UInt8 :=
  (List.range b64.length).foldl
    (fun table i => Function.update table (bytes64 i) (UInt8.ofNat i)) fun _ => base64Invalid

def isBase64 (c : UInt8) : Bool := unbytes64 c != base64Invalid

/-- One pass of the encoder's loop. The second and third byte are missing at the end. -/
def encodeChunk (msg : UInt8) (msg1 msg2 : Option UInt8) : List UInt8 :=
  let a := msg.toNat
  let b := (msg1.getD 0).toNat
  let c := (msg2.getD 0).toNat
  [bytes64 (a >>> 2),
    bytes64 ((a &&& 3) <<< 4 ||| b >>> 4),
    if msg1.isSome then bytes64 ((b &&& 15) <<< 2 ||| c >>> 6) else base64Padding,
    if msg2.isSome then bytes64 (c &&& 63) else base64Padding]

def encodeLoop : List UInt8 → List UInt8
  | [] => []
  | [a] => encodeChunk a none none
  | [a, b] => encodeChunk a (some b) none
  | a :: b :: c :: rest => encodeChunk a (some b) (some c) ++ encodeLoop rest

/-- The number of padding characters that the decoder goes by. -/
def padOf (msg : List UInt8) : Nat :=
  if msg.getD (msg.length - 1) 0 = base64Padding then
    if msg.getD (msg.length - 2) 0 ≠ base64Padding then 1 else 2
  else 0

def decodeBlock (a b c d : UInt8) : List UInt8 :=
  [a <<< 2 ||| b >>> 4, b <<< 4 ||| c >>> 2, c <<< 6 ||| d]

/-- The loop over the blocks: what it writes and where it leaves `p`. -/
def decodeBlocks : Nat → List UInt8 → List UInt8 × List UInt8
  | blocks + 1, a :: b :: c :: d :: p =>
    let r := decodeBlocks blocks p
    (decodeBlock (unbytes64 a) (unbytes64 b) (unbytes64 c) (unbytes64 d) ++ r.1, r.2)
  | _, p => ([], p)

/-- The bytes of the padding block. -/
def decodePadding (pad : Nat) : List UInt8 → List UInt8
  | a :: b :: c :: _ =>
    let a := unbytes64 a
    let b := unbytes64 b
    if pad = 0 then []
    else (a <<< 2 ||| b >>> 4) :: if pad = 1 then [b <<< 4 ||| unbytes64 c >>> 2] else []
  | _ => []

def decodeBytes (msg : List UInt8) : List UInt8 :=
  let pad := padOf msg
  let blocks := if pad = 0 then msg.length >>> 2 else (msg.length >>> 2) - 1
  let r := decodeBlocks blocks msg
  r.1 ++ decodePadding pad r.2

/-- Allocated memory, what is written from its start on, and the length that is given to the
caller. -/
structure Output where
  cap : Nat
  written : List UInt8
  len : Nat
  deriving DecidableEq

def Output.value (o : Output) : List UInt8 := o.written.take o.len

inductive Err
  | outOfMemory
  | invalidBase64String
  deriving DecidableEq

/-- `toBase64` of the message dispatcher. -/
def toBase64 (allocOk : Bool) (msg : List UInt8) : Except Err Output :=
  if msg.length = 0 then .error .outOfMemory
  else if allocOk then
    let out := encodeLoop msg
    .ok ⟨(msg.length + 2) / 3 * 4 + 1, out ++ [0], out.length⟩
  else .error .outOfMemory

/-- `fromBase64` of the message dispatcher. -/
def fromBase64 (allocOk : Bool) (encodedMsg : List UInt8) : Except Err Output :=
  if encodedMsg.length = 0 then .error .outOfMemory
  else if encodedMsg.length &&& 3 ≠ 0 then .error .invalidBase64String
  else if (encodedMsg.take (encodedMsg.length - padOf encodedMsg)).all isBase64 then
    if allocOk then
      let q := decodeBytes encodedMsg
      .ok ⟨1 + 3 * encodedMsg.length / 4, q, q.length⟩
    else .error .outOfMemory
  else .error .invalidBase64String

/-- What a conversion of the Lua module comes to: memory, a null pointer or a Lua error. -/
inductive Conversion
  | bytes (out : Output)
  | null
  | raised (text : String)
  deriving DecidableEq

/-- `luaM_malloc` raises an error itself where there is no memory. -/
def luaMalloc (allocOk : Bool) (next : Conversion) : Conversion :=
  if allocOk then next else .raised "not enough memory"

/-- `toBase64` of the Lua module. -/
def luaToBase64 (allocOk : Bool) (msg : List UInt8) : Conversion :=
  if msg.length = 0 then .null
  else
    luaMalloc allocOk <|
      let out := encodeLoop msg
      .bytes ⟨(msg.length + 2) / 3 * 4, out, out.length⟩

/-- `fromBase64` of the Lua module. -/
def luaFromBase64 (allocOk : Bool) (encMsg : List UInt8) : Conversion :=
  if encMsg.length = 0 then .null
  else if encMsg.length &&& 3 ≠ 0 then .raised "Invalid base64 string"
  else if (encMsg.take (encMsg.length - padOf encMsg)).all isBase64 then
    luaMalloc allocOk <|
      let q := decodeBytes encMsg
      .bytes ⟨1 + 3 * encMsg.length / 4, q, q.length⟩
  else .raised "Invalid base64 string"

end NodeMcu.Encoder.Base64
