import NodeMcu.CompMsg.Headers
import NodeMcu.CompMsg.View
import NodeMcu.Lib.Cbc

namespace NodeMcu.CompMsg.Crypto

open NodeMcu.Lib.Memory NodeMcu.Lib.Cbc
open NodeMcu.CompMsg.Codes NodeMcu.CompMsg.View NodeMcu.CompMsg.Headers

/-- What the SDK provides: whether `os_zalloc` finds so many bytes, and the AES functions, where
preparing a key may fail and else gives the map of a block. -/
structure Aes where
  zalloc : Nat → Bool
  encryptInit : List UInt8 → Option (Block 16 → Block 16)
  decryptInit : List UInt8 → Option (Block 16 → Block 16)

/-- The two keys that `compMsgModuleData` holds. -/
structure Keys where
  cryptKey : Mem
  cryptIvKey : Mem

/-- The first 16 bytes of a key, as `do_aes` copies them. -/
def ivOf (iv : Mem) : Block 16 := fun i => iv (i : Nat)

/-- The length of the output of `encryptMsg` and `decryptMsg`: rounded up to whole blocks. -/
def cryptLgth (mlen : Nat) : Nat := (mlen + 15) % 4294967296 / 16 * 16

/-- The output is the part of the blocks that the allocated buffer of `cryptLgth mlen` bytes
holds. -/
def encryptMsg (aes : Aes) (msg : Mem) (start mlen : Nat) (key iv : Mem) :
    Except CompMsgErr (List UInt8) :=
  if aes.zalloc (cryptLgth mlen) then
    match aes.encryptInit (read key 0 16) with
    | none => .error .cryptoInitFailed
    | some enc => .ok <|
        (bytesOf (encrypt xorBlock enc (ivOf iv) (blocksOf 16 msg start mlen))).take
          (cryptLgth mlen)
  else .error .cryptoInitFailed

def decryptMsg (aes : Aes) (msg : Mem) (start mlen : Nat) (key iv : Mem) :
    Except CompMsgErr (List UInt8) :=
  if aes.zalloc (cryptLgth mlen) then
    match aes.decryptInit (read key 0 16) with
    | none => .error .cryptoInitFailed
    | some dec => .ok <|
        (bytesOf (decrypt xorBlock dec (ivOf iv) (blocksOf 16 msg start mlen))).take
          (cryptLgth mlen)
  else .error .cryptoInitFailed

/-- How many bytes behind the header `handleReceivedPart` decrypts. -/
def decryptLgth (infos : MsgHeaderInfos) (hdr : HeaderPart) (totalLgth : Nat) : Nat :=
  let mlen := sizeSub totalLgth infos.headerLgth
  if hasFlag hdr.hdrFlags dispTotalCrc then
    (if hdr.u8TotalCrc then sizeSub mlen 1 else sizeSub mlen 2)
  else mlen

/-- The decryption in `handleReceivedPart`: the receive buffer afterwards. -/
def decryptPart (aes : Aes) (keys : Keys) (infos : MsgHeaderInfos) (hdr : HeaderPart)
    (totalLgth : Nat) (buf : Mem) : Except CompMsgErr Mem :=
  match decryptMsg aes buf infos.headerLgth (decryptLgth infos hdr totalLgth)
      keys.cryptKey keys.cryptIvKey with
  | .error e => .error e
  | .ok bytes => .ok (write buf infos.headerLgth bytes)

/-- The SDK with a key: there is memory for a message, and what is encrypted can be decrypted
again. -/
def Aes.Inverse (aes : Aes) (key : Mem) : Prop :=
  (∀ n, n ≤ 65536 → aes.zalloc n = true) ∧
    ∃ enc dec, aes.encryptInit (read key 0 16) = some enc ∧
      aes.decryptInit (read key 0 16) = some dec ∧ ∀ b, dec (enc b) = b

theorem cryptLgth_eq (mlen : Nat) (h : mlen < 65536) : cryptLgth mlen = 16 * numBlocks 16 mlen := by
  unfold cryptLgth numBlocks
  omega

theorem cryptLgth_le (mlen : Nat) (h : mlen < 65536) : cryptLgth mlen ≤ 65536 := by
  unfold cryptLgth
  omega

theorem take_bytesOf (bs : List (Block 16)) (mlen : Nat) (h : mlen < 65536)
    (hbs : bs.length = numBlocks 16 mlen) : (bytesOf bs).take (cryptLgth mlen) = bytesOf bs := by
  apply List.take_of_length_le
  rw [bytesOf_length, hbs, cryptLgth_eq mlen h]

theorem encryptMsg_ok (aes : Aes) (msg : Mem) (start mlen : Nat) (key iv : Mem)
    (enc : Block 16 → Block 16) (hz : ∀ n, n ≤ 65536 → aes.zalloc n = true)
    (he : aes.encryptInit (read key 0 16) = some enc) (h : mlen < 65536) :
    encryptMsg aes msg start mlen key iv =
      .ok (bytesOf (encrypt xorBlock enc (ivOf iv) (blocksOf 16 msg start mlen))) := by
  rw [encryptMsg, if_pos (hz _ (cryptLgth_le mlen h)), he]
  exact congrArg Except.ok (take_bytesOf _ mlen h (by simp))

theorem decryptMsg_ok (aes : Aes) (msg : Mem) (start mlen : Nat) (key iv : Mem)
    (dec : Block 16 → Block 16) (hz : ∀ n, n ≤ 65536 → aes.zalloc n = true)
    (hd : aes.decryptInit (read key 0 16) = some dec) (h : mlen < 65536) :
    decryptMsg aes msg start mlen key iv =
      .ok (bytesOf (decrypt xorBlock dec (ivOf iv) (blocksOf 16 msg start mlen))) := by
  rw [decryptMsg, if_pos (hz _ (cryptLgth_le mlen h)), hd]
  exact congrArg Except.ok (take_bytesOf _ mlen h (by simp))

end NodeMcu.CompMsg.Crypto
