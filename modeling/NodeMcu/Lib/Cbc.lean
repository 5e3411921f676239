import Mathlib.Data.List.GetD
import NodeMcu.Lib.Memory

namespace NodeMcu.Lib.Cbc

open NodeMcu.Lib.Memory

section Chaining

variable {β : Type} (xor : β → β → β)

/-- Cipher block chaining: each block is mixed with the cipher block in front of it. -/
def encrypt (enc : β → β) (iv : β) : List β → List β
  | [] => []
  | b :: bs => enc (xor b iv) :: encrypt enc (enc (xor b iv)) bs

def decrypt (dec : β → β) (iv : β) : List β → List β
  | [] => []
  | c :: cs => xor (dec c) iv :: decrypt dec c cs

@[simp] theorem encrypt_length (enc : β → β) (iv : β) (bs : List β) :
    (encrypt xor enc iv bs).length = bs.length := by
  induction bs generalizing iv with
  | nil => rfl
  | cons b bs ih => simp [encrypt, ih]

@[simp] theorem decrypt_length (dec : β → β) (iv : β) (cs : List β) :
    (decrypt xor dec iv cs).length = cs.length := by
  induction cs generalizing iv with
  | nil => rfl
  | cons c cs ih => simp [decrypt, ih]

theorem decrypt_encrypt (enc dec : β → β) (hdec : ∀ b, dec (enc b) = b)
    (hxor : ∀ a b, xor (xor a b) b = a) (iv : β) (bs : List β) :
    decrypt xor dec iv (encrypt xor enc iv bs) = bs := by
  induction bs generalizing iv with
  | nil => rfl
  | cons b bs ih => rw [encrypt, decrypt, hdec, hxor, ih]

theorem encrypt_concat (enc : β → β) (iv : β) (bs : List β) (b : β) :
    encrypt xor enc iv (bs ++ [b]) =
      encrypt xor enc iv bs ++ [enc (xor b ((encrypt xor enc iv bs).getLastD iv))] := by
  induction bs generalizing iv with
  | nil => rfl
  | cons a bs ih =>
    simp only [List.cons_append, encrypt, ih, List.getLastD_cons]

theorem decrypt_concat (dec : β → β) (iv : β) (cs : List β) (c : β) :
    decrypt xor dec iv (cs ++ [c]) = decrypt xor dec iv cs ++ [xor (dec c) (cs.getLastD iv)] := by
  induction cs generalizing iv with
  | nil => rfl
  | cons a cs ih =>
    simp only [List.cons_append, decrypt, ih, List.getLastD_cons]

end Chaining

section Blocks

variable {w : Nat}

abbrev Block (w : Nat) := Fin w → UInt8

def xorBlock (a b : Block w) : Block w := fun i => a i ^^^ b i

theorem xorBlock_cancel (a b : Block w) : xorBlock (xorBlock a b) b = a := by
  funext i
  rw [xorBlock, xorBlock, UInt8.xor_assoc, UInt8.xor_self, UInt8.xor_zero]

/-- Block number `j` of the `lgth` bytes behind `start`, filled up with zeros. -/
def blockAt (w : Nat) (m : Mem) (start : Int) (lgth j : Nat) : Block w :=
  fun i => if w * j + i < lgth then m (start + (w * j + i : Nat)) else 0

def numBlocks (w lgth : Nat) : Nat := (lgth + (w - 1)) / w

def blocksOf (w : Nat) (m : Mem) (start : Int) (lgth : Nat) : List (Block w) :=
  (List.range (numBlocks w lgth)).map (blockAt w m start lgth)

def bytesOf (bs : List (Block w)) : List UInt8 := bs.flatMap List.ofFn

@[simp] theorem blocksOf_length (m : Mem) (start : Int) (lgth : Nat) :
    (blocksOf w m start lgth).length = numBlocks w lgth := by
  simp [blocksOf]

@[simp] theorem bytesOf_length (bs : List (Block w)) : (bytesOf bs).length = w * bs.length := by
  induction bs with
  | nil => simp [bytesOf]
  | cons b bs ih =>
    rw [bytesOf] at ih ⊢
    rw [List.flatMap_cons, List.length_append, ih, List.length_ofFn, List.length_cons]
    ring

theorem numBlocks_mul (k : Nat) (hw : 0 < w) : numBlocks w (w * k) = k := by
  rw [numBlocks, Nat.mul_add_div hw, Nat.div_eq_of_lt (by omega), Nat.add_zero]

theorem bytesOf_getD (bs : List (Block w)) (j : Nat) (hj : j < bs.length) (i : Fin w) :
    (bytesOf bs).getD (w * j + i) 0 = bs[j] i := by
  induction bs generalizing j with
  | nil => simp at hj
  | cons b bs ih =>
    have hcons : bytesOf (b :: bs) = List.ofFn b ++ bytesOf bs := by
      rw [bytesOf, List.flatMap_cons, bytesOf]
    rw [hcons]
    cases j with
    | zero =>
      rw [List.getD_append _ _ _ _ (by simp)]
      simp [List.getD]
    | succ j =>
      have hsub : w * (j + 1) + (i : Nat) - w = w * j + i := by
        rw [Nat.mul_succ]
        omega
      rw [List.getD_append_right _ _ _ _ (by rw [List.length_ofFn, Nat.mul_succ]; omega),
        List.length_ofFn, hsub]
      exact ih j (by simpa using hj)

theorem blocksOf_congr (m m' : Mem) (start : Int) (lgth : Nat)
    (h : ∀ i : Nat, i < lgth → m (start + i) = m' (start + i)) :
    blocksOf w m start lgth = blocksOf w m' start lgth := by
  apply List.map_congr_left
  intro j _
  funext i
  simp only [blockAt]
  split
  case isTrue hi => exact h _ hi
  case isFalse => rfl

theorem blocksOf_getElem (m : Mem) (start : Int) (lgth j : Nat)
    (hj : j < (blocksOf w m start lgth).length) :
    (blocksOf w m start lgth)[j] = blockAt w m start lgth j := by
  simp [blocksOf]

/-- Blocks written to memory are found there again. -/
theorem blocksOf_write (m : Mem) (start : Int) (bs : List (Block w)) (hw : 0 < w) :
    blocksOf w (write m start (bytesOf bs)) start (w * bs.length) = bs := by
  apply List.ext_getElem
  · rw [blocksOf_length, numBlocks_mul _ hw]
  · intro j hj hj'
    funext i
    have hlt : w * j + (i : Nat) < w * bs.length := by
      have h1 := Nat.mul_le_mul_left w hj'
      rw [Nat.mul_succ] at h1
      omega
    rw [blocksOf_getElem, blockAt, if_pos hlt, write_at _ _ _ _ (by rwa [bytesOf_length]),
      bytesOf_getD bs j hj' i]

/-- Whole blocks read from memory are the bytes found there. -/
theorem bytesOf_blocksOf (m : Mem) (start : Int) (k n : Nat) (hw : 0 < w) (hn : n < w * k) :
    (bytesOf (blocksOf w m start (w * k))).getD n 0 = m (start + n) := by
  have hj : n / w < (blocksOf w m start (w * k)).length := by
    rw [blocksOf_length, numBlocks_mul _ hw]
    exact Nat.div_lt_of_lt_mul hn
  have h := bytesOf_getD _ _ hj ⟨n % w, Nat.mod_lt n hw⟩
  have hdm : w * (n / w) + n % w = n := Nat.div_add_mod n w
  simp only [hdm] at h
  rw [h, blocksOf_getElem, blockAt]
  simp only [hdm, hn, if_true]

end Blocks

end NodeMcu.Lib.Cbc
