import Mathlib.Data.Fintype.Basic
import Mathlib.Logic.Equiv.Basic
import NodeMcu.Lib.Cbc

namespace NodeMcu.Crypto.Mech

open NodeMcu.Lib.Cbc NodeMcu.Lib.Memory

/-! ## AES in blocks -/

inductive Op
  | encrypt
  | decrypt
deriving DecidableEq

/-- An operation on data of its own memory, with an IV. -/
structure CryptoOp where
  key : List UInt8
  iv : Mem
  ivlen : Nat
  data : Mem
  datalen : Nat
  op : Op

/-- For each operation the SDK prepares a key, which may fail, and then maps blocks. -/
abbrev AesFuncs := Op → List UInt8 → Option (Block 16 → Block 16)

/-- The loop over the blocks, with the offsets of the two pointers. -/
def doAesLoop (crypt : Block 16 → Block 16) (co : CryptoOp) (withCbc : Bool) (iv : Block 16)
    (left src dst : Nat) (out : Mem) : Mem :=
  if left = 0 then out
  else
    let n := if 16 < left then 16 else left
    let block : Block 16 := fun i => if i < n then co.data (src + i : Nat) else 0
    let block :=
      if withCbc = true ∧ co.op = .encrypt then
        xorBlock block (if src = 0 then iv else fun i => out ((dst : Int) - 16 + i))
      else block
    let out := write out dst (List.ofFn (crypt block))
    let out :=
      if withCbc = true ∧ co.op = .decrypt then
        let xor : Block 16 := if src = 0 then iv else fun i => co.data ((src : Int) - 16 + i)
        write out dst (List.ofFn fun i : Fin 16 => out ((dst : Int) + i) ^^^ xor i)
      else out
    doAesLoop crypt co withCbc iv (left - n) (src + n) (dst + n) out
termination_by left
decreasing_by split <;> omega

/-- The output after the operation, or `none` where the key is not taken. -/
def doAes (funcs : AesFuncs) (co : CryptoOp) (withCbc : Bool) (out : Mem) : Option Mem :=
  (funcs co.op co.key).map fun crypt =>
    let iv : Block 16 :=
      if withCbc = true ∧ co.ivlen ≠ 0 then
        fun i => if i < (if co.ivlen < 16 then co.ivlen else 16) then co.iv i else 0
      else fun _ => 0
    doAesLoop crypt co withCbc iv co.datalen 0 0 out

def doAesEcb (funcs : AesFuncs) (co : CryptoOp) (out : Mem) : Option Mem := doAes funcs co false out

def doAesCbc (funcs : AesFuncs) (co : CryptoOp) (out : Mem) : Option Mem := doAes funcs co true out

/-! ## The modes as they are defined -/

/-- The IV filled up with zeros, or its first 16 bytes. -/
def ivBlock (iv : Mem) (ivlen : Nat) : Block 16 := fun i => if i < ivlen then iv i else 0

/-- ECB or CBC over a list of blocks. -/
def textbook (op : Op) (withCbc : Bool) (crypt : Block 16 → Block 16) (iv : Block 16)
    (bs : List (Block 16)) : List (Block 16) :=
  match withCbc, op with
  | false, _ => bs.map crypt
  | true, .encrypt => encrypt xorBlock crypt iv bs
  | true, .decrypt => decrypt xorBlock crypt iv bs

/-- The next block of the output, behind some blocks. -/
def nextBlock (op : Op) (withCbc : Bool) (crypt : Block 16 → Block 16) (iv : Block 16)
    (bs : List (Block 16)) (b : Block 16) : Block 16 :=
  match withCbc, op with
  | false, _ => crypt b
  | true, .encrypt => crypt (xorBlock b ((encrypt xorBlock crypt iv bs).getLastD iv))
  | true, .decrypt => xorBlock (crypt b) (bs.getLastD iv)

section Textbook

variable (op : Op) (withCbc : Bool) (crypt : Block 16 → Block 16) (iv : Block 16)

theorem textbook_concat (bs : List (Block 16)) (b : Block 16) :
    textbook op withCbc crypt iv (bs ++ [b]) =
      textbook op withCbc crypt iv bs ++ [nextBlock op withCbc crypt iv bs b] := by
  cases withCbc with
  | false => exact List.map_append
  | true =>
    cases op with
    | encrypt => exact encrypt_concat xorBlock crypt iv bs b
    | decrypt => exact decrypt_concat xorBlock crypt iv bs b

theorem textbook_length (bs : List (Block 16)) :
    (textbook op withCbc crypt iv bs).length = bs.length := by
  cases withCbc with
  | false => exact List.length_map crypt
  | true =>
    cases op with
    | encrypt => exact encrypt_length xorBlock crypt iv bs
    | decrypt => exact decrypt_length xorBlock crypt iv bs

theorem textbook_inverse (enc dec : Block 16 → Block 16) (hinv : ∀ b, dec (enc b) = b)
    (bs : List (Block 16)) :
    textbook .decrypt withCbc dec iv (textbook .encrypt withCbc enc iv bs) = bs := by
  cases withCbc with
  | false =>
    change (bs.map enc).map dec = bs
    rw [List.map_map]
    exact List.map_id'' hinv bs
  | true => exact decrypt_encrypt xorBlock enc dec hinv xorBlock_cancel iv bs

end Textbook

/-! ## The loop -/

section Loop

variable (crypt : Block 16 → Block 16) (co : CryptoOp) (withCbc : Bool) (iv : Block 16)

/-- The first blocks of the data. -/
def firstBlocks (j : Nat) : List (Block 16) := (blocksOf 16 co.data 0 co.datalen).take j

/-- The memory of the output when so many blocks are done. -/
def outAfter (out : Mem) (j : Nat) : Mem :=
  write out 0 (bytesOf (textbook co.op withCbc crypt iv (firstBlocks co j)))

variable {crypt co withCbc iv} {out : Mem} {j : Nat}

theorem firstBlocks_length (hj : j ≤ numBlocks 16 co.datalen) : (firstBlocks co j).length = j := by
  rw [firstBlocks, List.length_take, blocksOf_length, Nat.min_eq_left hj]

theorem firstBlocks_succ (hj : j < numBlocks 16 co.datalen) :
    firstBlocks co (j + 1) = firstBlocks co j ++ [blockAt 16 co.data 0 co.datalen j] := by
  have hlt : j < (blocksOf 16 co.data 0 co.datalen).length := by
    rw [blocksOf_length]
    exact hj
  rw [firstBlocks, firstBlocks, List.take_succ_eq_append_getElem hlt, blocksOf_getElem]

theorem outAfter_succ (hj : j < numBlocks 16 co.datalen) :
    outAfter crypt co withCbc iv out (j + 1) =
      write (outAfter crypt co withCbc iv out j) (16 * j : Nat)
        (List.ofFn (nextBlock co.op withCbc crypt iv (firstBlocks co j)
          (blockAt 16 co.data 0 co.datalen j))) := by
  have hlen : ((16 * j : Nat) : Int) =
      0 + (bytesOf (textbook co.op withCbc crypt iv (firstBlocks co j))).length := by
    rw [bytesOf_length, textbook_length, firstBlocks_length (Nat.le_of_lt hj), Int.zero_add]
  rw [outAfter, outAfter, hlen, write_append, firstBlocks_succ hj, textbook_concat, bytesOf,
    List.flatMap_append, List.flatMap_singleton]
  rfl

/-- The block in front of the pointer is the last one that was written. -/
theorem outAfter_last (hj : j + 1 ≤ numBlocks 16 co.datalen) :
    (fun i : Fin 16 => outAfter crypt co withCbc iv out (j + 1)
        (((16 * (j + 1) : Nat) : Int) - 16 + i)) =
      (textbook co.op withCbc crypt iv (firstBlocks co (j + 1))).getLastD iv := by
  have hlen : (textbook co.op withCbc crypt iv (firstBlocks co (j + 1))).length = j + 1 := by
    rw [textbook_length, firstBlocks_length hj]
  rw [List.getLastD_eq_getLast?, List.getLast?_eq_getElem?, hlen, Nat.add_sub_cancel,
    List.getElem?_eq_getElem (by omega), Option.getD_some]
  funext i
  rw [← bytesOf_getD _ j (by omega) i]
  have hat : ((16 * (j + 1) : Nat) : Int) - 16 + i = 0 + ((16 * j + i : Nat) : Int) := by
    push_cast
    ring
  rw [outAfter, hat, write_at _ _ _ _ (by rw [bytesOf_length, hlen]; omega)]

/-- The block of the data in front of the pointer is the last one that was read. -/
theorem firstBlocks_last (hj : j + 1 < numBlocks 16 co.datalen) :
    (fun i : Fin 16 => co.data (((16 * (j + 1) : Nat) : Int) - 16 + i)) =
      (firstBlocks co (j + 1)).getLastD iv := by
  rw [firstBlocks_succ (Nat.lt_of_succ_lt hj), List.getLastD_concat]
  funext i
  rw [numBlocks] at hj
  rw [blockAt, if_pos (by omega)]
  congr 1
  push_cast
  ring

theorem ofFn_xor_written (m : Mem) (at_ : Nat) (b xor : Block 16) :
    write (write m at_ (List.ofFn b)) at_
        (List.ofFn fun i : Fin 16 => write m at_ (List.ofFn b) ((at_ : Int) + i) ^^^ xor i) =
      write m at_ (List.ofFn (xorBlock b xor)) := by
  rw [write_write _ _ _ _ (by rw [List.length_ofFn, List.length_ofFn])]
  congr 2
  funext i
  rw [write_at _ _ _ _ (by rw [List.length_ofFn]; exact i.isLt), xorBlock, List.getD,
    List.getElem?_ofFn, dif_pos i.isLt, Option.getD_some]

theorem doAesLoop_zero (src dst : Nat) (out : Mem) :
    doAesLoop crypt co withCbc iv 0 src dst out = out := by
  rw [doAesLoop, if_pos rfl]

/-- What encryption mixes in is the last block of the output, or the IV for the first. -/
theorem written_prev (hop : co.op = .encrypt) (hj : j ≤ numBlocks 16 co.datalen) :
    (if 16 * j = 0 then iv else fun i : Fin 16 =>
        outAfter crypt co true iv out j (((16 * j : Nat) : Int) - 16 + i)) =
      (encrypt xorBlock crypt iv (firstBlocks co j)).getLastD iv := by
  cases j with
  | zero => rfl
  | succ j =>
    rw [if_neg (by omega), outAfter_last hj, hop]
    rfl

/-- What decryption mixes in is the last block of the data, or the IV for the first. -/
theorem read_prev (hj : j < numBlocks 16 co.datalen) :
    (if 16 * j = 0 then iv else fun i : Fin 16 =>
        co.data (((16 * j : Nat) : Int) - 16 + i)) = (firstBlocks co j).getLastD iv := by
  cases j with
  | zero => rfl
  | succ j => rw [if_neg (by omega), firstBlocks_last hj]

/-- One pass writes the next block. -/
theorem doAesLoop_step (hj : j < numBlocks 16 co.datalen) :
    doAesLoop crypt co withCbc iv (co.datalen - 16 * j) (16 * j) (16 * j)
        (outAfter crypt co withCbc iv out j) =
      doAesLoop crypt co withCbc iv (co.datalen - 16 * j - min 16 (co.datalen - 16 * j))
        (16 * j + min 16 (co.datalen - 16 * j)) (16 * j + min 16 (co.datalen - 16 * j))
        (outAfter crypt co withCbc iv out (j + 1)) := by
  have hleft : co.datalen - 16 * j ≠ 0 := by
    rw [numBlocks] at hj
    omega
  have hmin : (if 16 < co.datalen - 16 * j then 16 else co.datalen - 16 * j) =
      min 16 (co.datalen - 16 * j) := by
    split <;> omega
  have hblock : (fun i : Fin 16 => if i < min 16 (co.datalen - 16 * j) then
      co.data (16 * j + i : Nat) else 0) = blockAt 16 co.data 0 co.datalen j := by
    funext i
    rw [blockAt, Int.zero_add]
    by_cases hi : 16 * j + i < co.datalen
    · rw [if_pos hi, if_pos (by omega)]
    · rw [if_neg hi, if_neg (by omega)]
  rw [doAesLoop, if_neg hleft, outAfter_succ hj]
  simp only [hmin, hblock]
  cases withCbc with
  | false =>
    simp only [Bool.false_eq_true, false_and, if_false]
    rfl
  | true =>
    cases hop : co.op with
    | encrypt =>
      have hne : ¬(true = true ∧ Op.encrypt = Op.decrypt) := fun h => Op.noConfusion h.2
      rw [if_neg hne, if_pos ⟨rfl, rfl⟩, written_prev hop (Nat.le_of_lt hj)]
      rfl
    | decrypt =>
      have hne : ¬(true = true ∧ Op.decrypt = Op.encrypt) := fun h => Op.noConfusion h.2
      rw [if_neg hne, if_pos ⟨rfl, rfl⟩, read_prev hj, ofFn_xor_written]
      rfl

/-- From any block on, the loop writes what the mode says. -/
theorem doAesLoop_from (k : Nat) (hjk : j + k = numBlocks 16 co.datalen) :
    doAesLoop crypt co withCbc iv (co.datalen - 16 * j) (16 * j) (16 * j)
        (outAfter crypt co withCbc iv out j) =
      write out 0
        (bytesOf (textbook co.op withCbc crypt iv (blocksOf 16 co.data 0 co.datalen))) := by
  induction k generalizing j with
  | zero =>
    have hleft : co.datalen - 16 * j = 0 := by
      rw [numBlocks] at hjk
      omega
    rw [hleft, doAesLoop_zero, outAfter, firstBlocks, List.take_of_length_le]
    rw [blocksOf_length]
    omega
  | succ k ih =>
    rw [doAesLoop_step (by omega)]
    have hnext := ih (j := j + 1) (by omega)
    by_cases hlast : co.datalen - 16 * j ≤ 16
    · -- a short block is the last one, so it does not matter where the pointers stand
      have hdone : co.datalen - 16 * (j + 1) = 0 := by omega
      rw [hdone, doAesLoop_zero] at hnext
      rw [Nat.min_eq_right hlast, Nat.sub_self, doAesLoop_zero, hnext]
    · rw [Nat.min_eq_left (by omega), show 16 * j + 16 = 16 * (j + 1) by omega,
        show co.datalen - 16 * j - 16 = co.datalen - 16 * (j + 1) by omega]
      exact hnext

end Loop

/-! ## The operations -/

theorem outAfter_zero (crypt : Block 16 → Block 16) (co : CryptoOp) (withCbc : Bool)
    (iv : Block 16) (out : Mem) : outAfter crypt co withCbc iv out 0 = out := by
  have hnone : textbook co.op withCbc crypt iv (firstBlocks co 0) = [] := by
    rw [← List.length_eq_zero_iff, textbook_length]
    rfl
  rw [outAfter, hnone]
  exact write_read out 0 0

/-- The IV that the code copies for CBC is the one that is filled up or cut. -/
theorem iv_copied (co : CryptoOp) :
    (if true = true ∧ co.ivlen ≠ 0 then
        fun i : Fin 16 =>
          if (i : Nat) < (if co.ivlen < 16 then co.ivlen else 16) then co.iv i else 0
      else fun _ => 0) = ivBlock co.iv co.ivlen := by
  funext i
  have hi := i.isLt
  have hmin : ((i : Nat) < if co.ivlen < 16 then co.ivlen else 16) ↔ (i : Nat) < co.ivlen := by
    split <;> omega
  by_cases hnone : co.ivlen = 0
  · rw [if_neg fun h => h.2 hnone, ivBlock, if_neg (by omega)]
  · rw [if_pos ⟨rfl, hnone⟩, ivBlock]
    simp only [hmin]

/-- With a key that is taken, the mode is applied to the blocks of the data. -/
theorem doAes_eq {funcs : AesFuncs} {co : CryptoOp} {crypt : Block 16 → Block 16}
    (hinit : funcs co.op co.key = some crypt) (withCbc : Bool) (out : Mem) :
    doAes funcs co withCbc out = some (write out 0 (bytesOf (textbook co.op withCbc crypt
      (ivBlock co.iv co.ivlen) (blocksOf 16 co.data 0 co.datalen)))) := by
  have hloop : ∀ iv, doAesLoop crypt co withCbc iv co.datalen 0 0 out =
      write out 0 (bytesOf (textbook co.op withCbc crypt iv
        (blocksOf 16 co.data 0 co.datalen))) := by
    intro iv
    have h := @doAesLoop_from crypt co withCbc iv out 0
      (numBlocks 16 co.datalen) (Nat.zero_add _)
    rw [outAfter_zero] at h
    exact h
  rw [doAes, hinit, Option.map_some, hloop]
  cases withCbc with
  | false => rfl
  | true => rw [iv_copied]

/-- With the same key and IV, encryption is the mode on the data filled up with zeros, writes as
many whole blocks as those have, and is undone by decryption. -/
theorem aes_modes (funcs : AesFuncs) (key : List UInt8) (enc dec : Block 16 → Block 16)
    (henc : funcs .encrypt key = some enc) (hdec : funcs .decrypt key = some dec)
    (hinv : ∀ b, dec (enc b) = b) (withCbc : Bool) (iv : Mem) (ivlen : Nat) (data : Mem)
    (datalen : Nat) (out : Mem) :
    ∃ cipher : List (Block 16),
      cipher = textbook .encrypt withCbc enc (ivBlock iv ivlen) (blocksOf 16 data 0 datalen) ∧
      doAes funcs ⟨key, iv, ivlen, data, datalen, .encrypt⟩ withCbc out =
        some (write out 0 (bytesOf cipher)) ∧
      (bytesOf cipher).length = (datalen + 15) / 16 * 16 ∧
      ∀ plain : Mem, doAes funcs ⟨key, iv, ivlen, write out 0 (bytesOf cipher),
          (datalen + 15) / 16 * 16, .decrypt⟩ withCbc plain =
        some (write plain 0 (bytesOf (blocksOf 16 data 0 datalen))) := by
  refine ⟨_, rfl, doAes_eq henc withCbc out, ?_, fun plain => ?_⟩
  · rw [bytesOf_length, textbook_length, blocksOf_length, numBlocks, Nat.mul_comm]
  · have hlen : (datalen + 15) / 16 * 16 = 16 *
        (textbook .encrypt withCbc enc (ivBlock iv ivlen) (blocksOf 16 data 0 datalen)).length := by
      rw [textbook_length, blocksOf_length, numBlocks, Nat.mul_comm]
    rw [doAes_eq hdec]
    simp only [hlen]
    rw [blocksOf_write _ _ _ (by decide), textbook_inverse _ _ enc dec hinv]

/-- A key, a block and what AES makes of it. -/
def knownKey : List UInt8 := (List.range 16).map UInt8.ofNat

def knownPlain : Block 16 := fun i => UInt8.ofNat (17 * i)

def knownCipher : Block 16 := fun i =>
  [0x69, 0xC4, 0xE0, 0xD8, 0x6A, 0x7B, 0x04, 0x30, 0xD8, 0xCD, 0xB7, 0x80, 0x70, 0xB4, 0xC5,
    0x5A].get i

/-- Functions that map the known block as AES does under the known key, and take no other key. -/
def knownFuncs : AesFuncs := fun _ key =>
  if key = knownKey then some (Equiv.swap knownPlain knownCipher) else none

theorem aes_modes_known :
    ∃ cipher : List (Block 16),
      cipher = textbook .encrypt true (Equiv.swap knownPlain knownCipher) (ivBlock (fun _ => 0) 0)
        (blocksOf 16 (fun i => UInt8.ofNat (17 * i.toNat)) 0 16) ∧
      doAes knownFuncs ⟨knownKey, fun _ => 0, 0, fun i => UInt8.ofNat (17 * i.toNat), 16,
          .encrypt⟩ true (fun _ => 0) =
        some (write (fun _ => 0) 0 (bytesOf cipher)) ∧
      (bytesOf cipher).length = (16 + 15) / 16 * 16 ∧
      ∀ plain : Mem, doAes knownFuncs ⟨knownKey, fun _ => 0, 0,
          write (fun _ => 0) 0 (bytesOf cipher), (16 + 15) / 16 * 16, .decrypt⟩ true plain =
        some (write plain 0 (bytesOf (blocksOf 16 (fun i => UInt8.ofNat (17 * i.toNat)) 0 16))) :=
  aes_modes knownFuncs knownKey _ _ (if_pos rfl) (if_pos rfl)
    (fun b => Equiv.swap_apply_self knownPlain knownCipher b) true _ 0 _ 16 _

end NodeMcu.Crypto.Mech
