import NodeMcu.Crypto.Sha2
import NodeMcu.Lib.Absorb

namespace NodeMcu.Crypto.Standard

open NodeMcu.Lib.Memory NodeMcu.Lib.Endian NodeMcu.Lib.Absorb NodeMcu.Crypto.Sha2

variable {w : Nat} {κ : Type} (p : Sha w κ)

/-! ## What the functions compute -/

/-- The words of the schedule, from the words of a block on. -/
def schedule (m : Nat → BitVec w) (t : Nat) : BitVec w :=
  if t < 16 then m t
  else
    p.smallSigma1 (schedule m (t - 2)) + schedule m (t - 7) + p.smallSigma0 (schedule m (t - 15)) +
      schedule m (t - 16)

/-- A word of a block, which is big-endian. -/
def blockWord (block : List UInt8) (t : Nat) : BitVec w :=
  BitVec.ofNat w (ofBigEndian (wordAt p block t))

def rounds (r : Regs w) (m : Nat → BitVec w) (ts : List Nat) : Regs w :=
  ts.foldl (fun r t => round p r (p.k.getD t 0) (schedule p m t)) r

def compress (state : Regs w) (block : List UInt8) : Regs w :=
  state.add (rounds p state (blockWord p block) (List.range p.k.length))

/-- The message with a bit behind it, zeros and its length in bits. -/
def pad (message : List UInt8) : List UInt8 :=
  message ++ 0x80 ::
    List.replicate ((30 * p.wordLength - 1 - message.length % (16 * p.wordLength)) %
      (16 * p.wordLength)) 0 ++
    bigEndian (2 * p.wordLength) (8 * message.length)

def digest (initialHashValue : Regs w) (words : Nat) (message : List UInt8) : List UInt8 :=
  ((absorb (compress p) (16 * p.wordLength) initialHashValue (pad p message)).words.take
    words).flatMap fun x => bigEndian p.wordLength x.toNat

/-! ## What the functions have in common -/

/-- The lengths, the conversion of words, and the count of bits, which stands for a number. -/
structure Lawful (value : κ → Nat) : Prop where
  pos : 0 < p.wordLength
  width : w = 8 * p.wordLength
  block : p.blockLength = 16 * p.wordLength
  short : p.shortBlockLength = 14 * p.wordLength
  clear : p.shortBlockLength ≤ p.clearLength
  clear_le : p.clearLength ≤ p.blockLength
  rounds : 16 ≤ p.k.length
  reverse (x : BitVec w) : Reversed p.wordLength x (p.reverse x)
  zero : value p.zero = 0
  add (c : κ) (n : Nat) (h : n ≤ 8 * p.blockLength) :
    value (p.add c n) = (value c + n) % 256 ^ (2 * p.wordLength)
  low (c : κ) : (p.low c >>> 3).toNat % p.blockLength = value c / 8 % p.blockLength
  limit : 8 * p.blockLength ∣ 256 ^ (2 * p.wordLength)
  lengthBytes (c : κ) : p.lengthBytes c = bigEndian (2 * p.wordLength) (value c)

variable {p} {value : κ → Nat} {state : Regs w} {buffer data : List UInt8} {m : Nat → BitVec w}

/-! ### A block -/

theorem Lawful.block_pos (hp : Lawful p value) : 0 < p.blockLength := by
  have := hp.pos
  rw [hp.block]
  omega

theorem schedule_lt {t : Nat} (h : t < 16) : schedule p m t = m t := by
  rw [schedule, if_pos h]

theorem schedule_ge {t : Nat} (h : 16 ≤ t) :
    schedule p m t = p.smallSigma1 (schedule p m (t - 2)) + schedule p m (t - 7) +
      p.smallSigma0 (schedule p m (t - 15)) + schedule p m (t - 16) := by
  rw [schedule, if_neg (Nat.not_lt.mpr h)]

theorem rounds_append (r : Regs w) (ts us : List Nat) :
    rounds p r m (ts ++ us) = rounds p (rounds p r m ts) m us := List.foldl_append

theorem Lawful.length_wordAt (hp : Lawful p value) {j : Nat} (hj : j < 16)
    (hdata : p.blockLength ≤ data.length) : (wordAt p data j).length = p.wordLength := by
  have hle : (j + 1) * p.wordLength ≤ 16 * p.wordLength := Nat.mul_le_mul_right _ hj
  rw [hp.block] at hdata
  rw [wordAt, List.length_take, List.length_drop]
  rw [Nat.succ_mul] at hle
  omega

/-- A word that is read and reversed is the big-endian one. -/
theorem Lawful.word_eq (hp : Lawful p value) {j : Nat} (hj : j < 16)
    (hdata : p.blockLength ≤ data.length) :
    p.reverse (hostWord (wordAt p data j)) = blockWord p data j :=
  (hp.reverse _).word hp.width (hp.length_wordAt hj hdata)

theorem getD_set {l : List (BitVec w)} {i j : Nat} {x : BitVec w} (hi : i < l.length) :
    (l.set i x).getD j 0 = if i = j then x else l.getD j 0 := by
  rw [List.getD_eq_getElem?_getD, List.getElem?_set, List.getD_eq_getElem?_getD]
  split_ifs <;> rfl

/-- After the first steps the words of the block stand in the buffer. -/
theorem first_loop (hp : Lawful p value) (state : Regs w) (hdata : p.blockLength ≤ data.length)
    {ring : List (BitVec w)} (hring : ring.length = 16) {n : Nat} (hn : n ≤ 16) :
    ∃ ring', (List.range n).foldl (firstStep p data) (state, ring) =
        (rounds p state (blockWord p data) (List.range n), ring') ∧ ring'.length = 16 ∧
      ∀ t, t < n → ring'.getD t 0 = schedule p (blockWord p data) t := by
  induction n with
  | zero => exact ⟨ring, rfl, hring, by simp⟩
  | succ n ih =>
    obtain ⟨ring', hloop, hlen, hwords⟩ := ih (by omega)
    have hword : p.reverse (hostWord (wordAt p data n)) = schedule p (blockWord p data) n := by
      rw [hp.word_eq hn hdata, schedule_lt hn]
    refine ⟨ring'.set n (schedule p (blockWord p data) n), ?_, by rw [List.length_set, hlen],
      fun t ht => ?_⟩
    · rw [List.range_succ, List.foldl_append, hloop, rounds_append, List.foldl_cons,
        List.foldl_nil, firstStep, hword]
      rfl
    · rw [getD_set (by omega)]
      split_ifs with heq
      · rw [heq]
      · exact hwords t (by omega)

/-- In the further steps the buffer is a ring with the last words of the schedule. -/
theorem next_loop (r : Regs w) {ring : List (BitVec w)} (hring : ring.length = 16)
    (hwords : ∀ t, t < 16 → ring.getD t 0 = schedule p m t) (n : Nat) :
    ∃ ring', (List.range' 16 n).foldl (nextStep p) (r, ring) =
        (rounds p r m (List.range' 16 n), ring') ∧ ring'.length = 16 ∧
      ∀ t, n ≤ t → t < 16 + n → ring'.getD (t % 16) 0 = schedule p m t := by
  induction n with
  | zero =>
    refine ⟨ring, rfl, hring, fun t _ ht => ?_⟩
    rw [Nat.mod_eq_of_lt ht]
    exact hwords t ht
  | succ n ih =>
    obtain ⟨ring', hloop, hlen, hwords'⟩ := ih
    have hmask (j : Nat) : j &&& 0x0f = j % 16 := Nat.and_two_pow_sub_one_eq_mod j 4
    have hat {i : Nat} (t : Nat) (hlow : n ≤ t) (hhigh : t < 16 + n) (hi : i % 16 = t % 16) :
        ring'.getD (i &&& 0x0f) 0 = schedule p m t := by
      rw [hmask, hi]
      exact hwords' t hlow hhigh
    have hword : ring'.getD ((16 + n) &&& 0x0f) 0 +
        (p.smallSigma1 (ring'.getD ((16 + n + 14) &&& 0x0f) 0) +
          ring'.getD ((16 + n + 9) &&& 0x0f) 0 +
            p.smallSigma0 (ring'.getD ((16 + n + 1) &&& 0x0f) 0)) = schedule p m (16 + n) := by
      rw [hat (16 + n - 16) (by omega) (by omega) (by omega),
        hat (16 + n - 2) (by omega) (by omega) (by omega),
        hat (16 + n - 7) (by omega) (by omega) (by omega),
        hat (16 + n - 15) (by omega) (by omega) (by omega),
        @schedule_ge _ _ p m (16 + n) (by omega), BitVec.add_comm]
    refine ⟨ring'.set ((16 + n) % 16) (schedule p m (16 + n)), ?_, by rw [List.length_set, hlen],
      fun t hlow hhigh => ?_⟩
    · rw [List.range'_concat, List.foldl_append, hloop, rounds_append, Nat.one_mul,
        List.foldl_cons, List.foldl_nil, nextStep]
      dsimp only
      rw [hword, hmask]
      rfl
    · rw [getD_set (by omega)]
      split_ifs with heq
      · have hsame : t = 16 + n := by omega
        rw [hsame]
      · exact hwords' t (by omega) (by omega)

theorem blockWord_take (hp : Lawful p value) {t : Nat} (ht : t < 16) :
    blockWord p (data.take p.blockLength) t = blockWord p data t := by
  have hle : (t + 1) * p.wordLength ≤ 16 * p.wordLength := Nat.mul_le_mul_right _ ht
  rw [Nat.succ_mul] at hle
  rw [blockWord, blockWord, wordAt, wordAt, List.drop_take, List.take_take, hp.block,
    Nat.min_eq_left (by omega)]

theorem schedule_congr {m' : Nat → BitVec w} (h : ∀ t, t < 16 → m t = m' t) (t : Nat) :
    schedule p m t = schedule p m' t := by
  induction t using Nat.strong_induction_on with
  | _ t ih =>
    obtain hlt | hge := Nat.lt_or_ge t 16
    · rw [schedule_lt hlt, schedule_lt hlt, h t hlt]
    · rw [schedule_ge hge, schedule_ge hge, ih _ (by omega), ih _ (by omega), ih _ (by omega),
        ih _ (by omega)]

theorem compress_take (hp : Lawful p value) :
    compress p state (data.take p.blockLength) = compress p state data := by
  have hsame (t : Nat) : schedule p (blockWord p (data.take p.blockLength)) t =
      schedule p (blockWord p data) t := schedule_congr (fun _ ht => blockWord_take hp ht) t
  rw [compress, compress, rounds, rounds]
  simp only [hsame]

/-- A block that is taken in, whatever stands in the buffer. -/
theorem transform_eq (hp : Lawful p value) (state : Regs w) (buffer : List UInt8)
    (hdata : p.blockLength ≤ data.length) :
    (transform p state buffer data).1 = compress p state (data.take p.blockLength) ∧
      (transform p state buffer data).2.length = p.blockLength := by
  have hstart : ((List.range 16).map fun j => (hostWord (wordAt p buffer j) : BitVec w)).length =
      16 := by simp
  obtain ⟨ring, hfirst, hlen, hwords⟩ :=
    first_loop hp state hdata hstart (Nat.le_refl 16)
  obtain ⟨ring', hnext, hlen', -⟩ :=
    next_loop (rounds p state (blockWord p data) (List.range 16)) hlen hwords (p.k.length - 16)
  have hrange : List.range p.k.length = List.range 16 ++ List.range' 16 (p.k.length - 16) := by
    have hsplit : p.k.length = 16 + (p.k.length - 16) := by have := hp.rounds; omega
    rw [List.range_eq_range', List.range_eq_range', hsplit, Nat.add_sub_cancel_left]
    exact (@List.range'_append_1 0 16 _).symm
  rw [compress_take hp, transform]
  dsimp only
  rw [hfirst, hnext, compress, hrange, rounds_append]
  refine ⟨rfl, ?_⟩
  have hbytes (l : List (BitVec w)) :
      (l.flatMap (hostBytes p.wordLength)).length = l.length * p.wordLength := by
    induction l with
    | nil => simp
    | cons x l ih =>
      rw [List.flatMap_cons, List.length_append, ih, hostBytes, List.length_reverse,
        bigEndian_length, List.length_cons, Nat.succ_mul, Nat.add_comm]
  rw [hbytes, hlen', hp.block]

end NodeMcu.Crypto.Standard
