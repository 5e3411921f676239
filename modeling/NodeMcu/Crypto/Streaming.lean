import NodeMcu.Crypto.Standard

namespace NodeMcu.Crypto.Streaming

open NodeMcu.Lib.Memory NodeMcu.Lib.Endian NodeMcu.Lib.Absorb NodeMcu.Crypto.Sha2
open NodeMcu.Crypto.Standard

variable {w : Nat} {κ : Type} {p : Sha w κ} {value : κ → Nat}
variable {state h0 : Regs w} {buffer buffer' message chunk data : List UInt8}

/-! ## Messages that come in pieces -/

theorem length_copy {i : Nat} (h : i + chunk.length ≤ buffer.length) :
    (copy buffer i chunk).length = buffer.length := by
  rw [copy, List.length_append, List.length_append, List.length_take, List.length_drop]
  omega

theorem take_copy {i : Nat} (chunk : List UInt8) (h : i ≤ buffer.length) :
    (copy buffer i chunk).take (i + chunk.length) = buffer.take i ++ chunk := by
  rw [copy]
  exact List.take_left' (by rw [List.length_append, List.length_take, Nat.min_eq_left h])

/-- The whole blocks of the message have been taken in, the rest of it stands in the buffer. -/
structure Stream (p : Sha w κ) (h0 state : Regs w) (buffer message : List UInt8) : Prop where
  state : state = absorb (compress p) p.blockLength h0 message
  length : buffer.length = p.blockLength
  tail : buffer.take (message.length % p.blockLength) = rest p.blockLength message

/-- The buffer gets what does not fill it. -/
theorem Stream.fill (h : Stream p h0 state buffer message) (hp : Lawful p value)
    (hlen : message.length % p.blockLength + chunk.length < p.blockLength)
    (hbuffer : buffer'.length = p.blockLength)
    (htake : buffer'.take (message.length % p.blockLength + chunk.length) =
      buffer.take (message.length % p.blockLength) ++ chunk) :
    Stream p h0 state buffer' (message ++ chunk) where
  state := by
    have hlt : (rest p.blockLength message ++ chunk).length < p.blockLength := by
      rw [List.length_append, length_rest]
      exact hlen
    rw [absorb_append hp.block_pos, absorb_of_lt hlt]
    exact h.state
  length := hbuffer
  tail := by
    have hlt : (rest p.blockLength message ++ chunk).length < p.blockLength := by
      rw [List.length_append, length_rest]
      exact hlen
    rw [List.length_append, ← Nat.mod_add_mod, Nat.mod_eq_of_lt hlen, htake, h.tail,
      rest_append hp.block_pos, rest_of_lt hlt]

theorem Stream.copy (h : Stream p h0 state buffer message) (hp : Lawful p value)
    (chunk : List UInt8)
    (hlen : message.length % p.blockLength + chunk.length < p.blockLength) :
    Stream p h0 state (Sha2.copy buffer (message.length % p.blockLength) chunk)
      (message ++ chunk) :=
  h.fill hp hlen ((length_copy (by rw [h.length]; omega)).trans h.length)
    (take_copy _ (by rw [h.length]; omega))

/-- A block is taken in that starts with the rest of the message. -/
theorem Stream.block (h : Stream p h0 state buffer message) (hp : Lawful p value)
    (hlen : message.length % p.blockLength + chunk.length = p.blockLength)
    (hdata : data.take p.blockLength = rest p.blockLength message ++ chunk)
    (buffer' : List UInt8) :
    Stream p h0 (transform p state buffer' data).1 (transform p state buffer' data).2
      (message ++ chunk) := by
  have hfull : (rest p.blockLength message ++ chunk).length = p.blockLength := by
    rw [List.length_append, length_rest]
    exact hlen
  have hsize : p.blockLength ≤ data.length := by
    have hle := List.length_take_le' p.blockLength data
    rw [hdata, hfull] at hle
    exact hle
  obtain ⟨hstate, hbuffer⟩ := transform_eq hp state buffer' hsize
  have hpos := hp.block_pos
  refine ⟨?_, hbuffer, ?_⟩
  · rw [hstate, hdata, absorb_append hpos, absorb_block hpos hfull, ← h.state]
  · rw [List.length_append, ← Nat.mod_add_mod, hlen, Nat.mod_self, List.take_zero,
      rest_append hpos, rest_block hpos hfull]

/-- A block that is filled up in the buffer. -/
theorem Stream.full (h : Stream p h0 state buffer message) (hp : Lawful p value)
    (chunk : List UInt8)
    (hlen : message.length % p.blockLength + chunk.length = p.blockLength) :
    Stream p h0
      (transform p state (Sha2.copy buffer (message.length % p.blockLength) chunk)
        (Sha2.copy buffer (message.length % p.blockLength) chunk)).1
      (transform p state (Sha2.copy buffer (message.length % p.blockLength) chunk)
        (Sha2.copy buffer (message.length % p.blockLength) chunk)).2 (message ++ chunk) := by
  refine h.block hp hlen ?_ _
  have hle : message.length % p.blockLength ≤ buffer.length := by
    rw [h.length]
    omega
  have htake := take_copy chunk hle
  rw [hlen, h.tail] at htake
  exact htake

/-! ### Updates -/

/-- The bits are counted too. -/
structure Absorbed (p : Sha w κ) (value : κ → Nat) (h0 : Regs w) (ctx : Ctx w κ)
    (message : List UInt8) : Prop where
  stream : Stream p h0 ctx.state ctx.buffer message
  bitcount : value ctx.bitcount = 8 * message.length % 256 ^ (2 * p.wordLength)

theorem count_add (hp : Lawful p value) {c : κ}
    (hc : value c = 8 * message.length % 256 ^ (2 * p.wordLength))
    (chunk : List UInt8) (hchunk : chunk.length ≤ p.blockLength) :
    value (p.add c (chunk.length <<< 3)) =
      8 * (message ++ chunk).length % 256 ^ (2 * p.wordLength) := by
  have hshift : chunk.length <<< 3 = 8 * chunk.length := by
    rw [Nat.shiftLeft_eq, Nat.mul_comm]
  rw [hshift, hp.add c _ (Nat.mul_le_mul_left 8 hchunk), hc, Nat.mod_add_mod, List.length_append,
    Nat.mul_add]

variable {ctx : Ctx w κ}

theorem Absorbed.usedspace_eq (h : Absorbed p value h0 ctx message) (hp : Lawful p value) :
    usedspace p ctx = message.length % p.blockLength := by
  rw [usedspace, hp.low, h.bitcount, ← Nat.mod_mul_right_div_self,
    Nat.mod_mod_of_dvd _ hp.limit, Nat.mul_mod_mul_left, Nat.mul_div_cancel_left _ (by decide)]

/-- The loop takes in whole blocks and leaves less than one. -/
theorem updateBlocks_spec (hp : Lawful p value) (n : Nat)
    (h : Absorbed p value h0 ctx message) (hzero : message.length % p.blockLength = 0)
    (hn : data.length ≤ n) :
    ∃ before, data = before ++ (updateBlocks p n ctx data).2 ∧
      (updateBlocks p n ctx data).2.length < p.blockLength ∧
      (message ++ before).length % p.blockLength = 0 ∧
      Absorbed p value h0 (updateBlocks p n ctx data).1 (message ++ before) := by
  have hpos := hp.block_pos
  induction n generalizing ctx message data with
  | zero =>
    have hlt : data.length < p.blockLength := by omega
    exact ⟨[], rfl, hlt, by simpa using hzero, by rw [List.append_nil]; exact h⟩
  | succ n ih =>
    rw [updateBlocks]
    split_ifs with hblock
    · have hlen : (data.take p.blockLength).length = p.blockLength := by
        rw [List.length_take, Nat.min_eq_left hblock]
      have hrest : rest p.blockLength message = [] := by
        rw [← List.length_eq_zero_iff, length_rest, hzero]
      have hsum : message.length % p.blockLength + (data.take p.blockLength).length =
          p.blockLength := by rw [hzero, hlen, Nat.zero_add]
      have hstream := h.stream.block hp hsum (by rw [hrest, List.nil_append]) ctx.buffer
      have hcount := count_add hp h.bitcount (data.take p.blockLength) (Nat.le_of_eq hlen)
      rw [hlen] at hcount
      have hnext : Absorbed p value h0 ⟨_, _, _⟩ _ := ⟨hstream, hcount⟩
      have hmul : (message ++ data.take p.blockLength).length % p.blockLength = 0 := by
        rw [List.length_append, hlen, Nat.add_mod_right, hzero]
      have hn' : (data.drop p.blockLength).length ≤ n := by
        rw [List.length_drop]
        omega
      obtain ⟨before, hdata, hlt, hmod, habsorbed⟩ :=
        ih hnext hmul hn'
      rw [List.append_assoc] at hmod habsorbed
      refine ⟨data.take p.blockLength ++ before, ?_, hlt, hmod, habsorbed⟩
      rw [List.append_assoc, ← hdata, List.take_append_drop]
    · exact ⟨[], rfl, Nat.not_le.mp hblock, by simpa using hzero, by simpa using h⟩

theorem Absorbed.updateRest (h : Absorbed p value h0 ctx message) (hp : Lawful p value)
    (hzero : message.length % p.blockLength = 0) (data : List UInt8) :
    Absorbed p value h0 (updateRest p ctx data) (message ++ data) := by
  obtain ⟨before, hdata, hlt, hmod, habsorbed⟩ :=
    updateBlocks_spec hp data.length h hzero (Nat.le_refl _)
  rw [Sha2.updateRest]
  generalize hafter : updateBlocks p data.length ctx data = after at hdata hlt habsorbed
  obtain ⟨ctx', left⟩ := after
  dsimp only at hdata hlt habsorbed ⊢
  rw [hdata, ← List.append_assoc]
  split_ifs with hleft
  · have hstream := habsorbed.stream.copy hp left (by rw [hmod]; omega)
    rw [hmod] at hstream
    exact ⟨hstream, count_add hp habsorbed.bitcount _ (Nat.le_of_lt hlt)⟩
  · rw [List.length_eq_zero_iff.mp (Nat.eq_zero_of_not_pos hleft), List.append_nil]
    exact habsorbed

/-- A piece of the message. -/
theorem Absorbed.update (h : Absorbed p value h0 ctx message) (hp : Lawful p value)
    (data : List UInt8) : Absorbed p value h0 (update p ctx data) (message ++ data) := by
  have hmod := Nat.mod_lt message.length hp.block_pos
  rw [Sha2.update, h.usedspace_eq hp]
  dsimp only
  split_ifs with hempty hused hfree
  · rw [List.length_eq_zero_iff.mp hempty, List.append_nil]
    exact h
  · have hlen : (data.take (p.blockLength - message.length % p.blockLength)).length =
        p.blockLength - message.length % p.blockLength := by
      rw [List.length_take, Nat.min_eq_left hfree]
    have hfull := h.stream.full hp
      (data.take (p.blockLength - message.length % p.blockLength)) (by omega)
    have hcount := count_add hp h.bitcount
      (data.take (p.blockLength - message.length % p.blockLength)) (by omega)
    rw [hlen] at hcount
    have hnext : Absorbed p value h0 ⟨_, _, _⟩ _ := ⟨hfull, hcount⟩
    have hzero : (message ++
        data.take (p.blockLength - message.length % p.blockLength)).length %
          p.blockLength = 0 := by
      rw [List.length_append, ← Nat.mod_add_mod, hlen, Nat.add_sub_cancel' (by omega),
        Nat.mod_self]
    have hrest := hnext.updateRest hp hzero
      (data.drop (p.blockLength - message.length % p.blockLength))
    rw [List.append_assoc, List.take_append_drop] at hrest
    exact hrest
  · exact ⟨h.stream.copy hp _ (by omega), count_add hp h.bitcount _ (by omega)⟩
  · exact h.updateRest hp (by omega) data

theorem absorbed_init (hp : Lawful p value) : Absorbed p value h0 (init p h0) [] where
  stream := by
    refine ⟨(absorb_of_lt hp.block_pos).symm, List.length_replicate, ?_⟩
    rw [rest_of_lt hp.block_pos]
    exact List.take_zero
  bitcount := hp.zero

theorem absorbed_pieces (hp : Lawful p value) (pieces : List (List UInt8)) :
    Absorbed p value h0 (pieces.foldl (update p) (init p h0)) pieces.flatten := by
  induction pieces using List.reverseRecOn with
  | nil => exact absorbed_init hp
  | append_singleton pieces data ih =>
    rw [List.foldl_append, List.flatten_append, List.flatten_singleton]
    exact ih.update hp data

/-! ### The end of the message -/

/-- How many zeros there are between the bit and the length. -/
def zeros (p : Sha w κ) (message : List UInt8) : Nat :=
  (30 * p.wordLength - 1 - message.length % (16 * p.wordLength)) % (16 * p.wordLength)

def padded (p : Sha w κ) (message : List UInt8) : List UInt8 :=
  message ++ 0x80 :: List.replicate (zeros p message) 0

theorem zeros_one {r : Nat} (hr : message.length % (16 * p.wordLength) = r)
    (hle : r + 1 ≤ 14 * p.wordLength) : zeros p message = 14 * p.wordLength - (r + 1) := by
  have hsum : 30 * p.wordLength - 1 - r = 14 * p.wordLength - (r + 1) + 16 * p.wordLength := by
    omega
  rw [zeros, hr, hsum, Nat.add_mod_right, Nat.mod_eq_of_lt (by omega)]

theorem zeros_two {r : Nat} (hr : message.length % (16 * p.wordLength) = r)
    (hlt : r < 16 * p.wordLength) (hgt : 14 * p.wordLength < r + 1) :
    zeros p message = 16 * p.wordLength - (r + 1) + 14 * p.wordLength := by
  rw [zeros, hr, Nat.mod_eq_of_lt (by omega)]
  omega

theorem mod_padded (hp : Lawful p value) :
    (padded p message).length % p.blockLength = p.shortBlockLength := by
  have hpos := hp.pos
  have hlt : message.length % (16 * p.wordLength) < 16 * p.wordLength :=
    Nat.mod_lt _ (by omega)
  rw [padded, List.length_append, List.length_cons, List.length_replicate, hp.block, hp.short,
    ← Nat.mod_add_mod]
  obtain hle | hgt := Nat.lt_or_ge (14 * p.wordLength) (message.length % (16 * p.wordLength) + 1)
  · have hsum : message.length % (16 * p.wordLength) +
        (16 * p.wordLength - (message.length % (16 * p.wordLength) + 1) + 14 * p.wordLength + 1) =
          14 * p.wordLength + 16 * p.wordLength := by omega
    rw [zeros_two rfl hlt hle, hsum, Nat.add_mod_right, Nat.mod_eq_of_lt (by omega)]
  · have hsum : message.length % (16 * p.wordLength) +
        (14 * p.wordLength - (message.length % (16 * p.wordLength) + 1) + 1) =
          14 * p.wordLength := by omega
    rw [zeros_one rfl hgt, hsum, Nat.mod_eq_of_lt (by omega)]

/-- The buffer is cleared, at least as far as the length. -/
theorem Stream.clear (h : Stream p h0 state buffer message) (hp : Lawful p value)
    (hzero : message.length % p.blockLength = 0) :
    Stream p h0 state (Sha2.copy buffer 0 (List.replicate p.clearLength 0))
      (message ++ List.replicate p.shortBlockLength 0) := by
  have hpos := hp.pos
  have hblock := hp.block
  have hshort := hp.short
  have hclear := hp.clear
  have hle : 0 + (List.replicate p.clearLength (0 : UInt8)).length ≤ buffer.length := by
    rw [Nat.zero_add, List.length_replicate, h.length]
    exact hp.clear_le
  refine h.fill hp ?_ ((length_copy hle).trans h.length) ?_
  · rw [hzero, List.length_replicate]
    omega
  · rw [hzero, List.take_zero, List.nil_append, Nat.zero_add, List.length_replicate, Sha2.copy,
      List.take_zero, List.nil_append,
      List.take_append_of_le_length (by rwa [List.length_replicate]), List.take_replicate,
      Nat.min_eq_left hclear]

theorem padded_two {r : Nat} (hr : message.length % (16 * p.wordLength) = r)
    (hlt : r < 16 * p.wordLength) (hgt : 14 * p.wordLength < r + 1) :
    padded p message = message ++ [0x80] ++ List.replicate (16 * p.wordLength - (r + 1)) 0 ++
      List.replicate (14 * p.wordLength) 0 := by
  rw [padded, zeros_two hr hlt hgt, List.replicate_add]
  simp

/-- In front of the last block all but the length has been taken in or stands in the buffer. -/
theorem Absorbed.beginLast (h : Absorbed p value h0 ctx message) (hp : Lawful p value) :
    Stream p h0 (beginLast p ctx).1 (beginLast p ctx).2 (padded p message) := by
  have hpos := hp.pos
  have hlt := Nat.mod_lt message.length hp.block_pos
  have hblock := hp.block
  have hshort := hp.short
  have hr : message.length % (16 * p.wordLength) = message.length % p.blockLength := by
    rw [hblock]
  have hbit (hfit : message.length % p.blockLength + 1 < p.blockLength) :
      (message ++ [0x80]).length % p.blockLength = message.length % p.blockLength + 1 := by
    rw [List.length_append, ← Nat.mod_add_mod]
    exact Nat.mod_eq_of_lt hfit
  rw [Sha2.beginLast, h.usedspace_eq hp]
  dsimp only
  split_ifs with hused hone hfill
  · -- the bit and the length fit into the block
    have hfit : message.length % p.blockLength + 1 < p.blockLength := by omega
    have hstream := h.stream.copy hp [0x80] hfit
    have hnext := hstream.copy hp
      (List.replicate (p.shortBlockLength - (message.length % p.blockLength + 1)) 0)
      (by rw [hbit hfit, List.length_replicate]; omega)
    rw [hbit hfit, List.append_assoc] at hnext
    rw [padded, zeros_one hr (by omega), ← hshort]
    exact hnext
  · -- the bit fits, the length does not
    have hstream := h.stream.copy hp [0x80] hfill
    have hnext := hstream.full hp
      (List.replicate (p.blockLength - (message.length % p.blockLength + 1)) 0)
      (by rw [hbit hfill, List.length_replicate]; omega)
    rw [hbit hfill] at hnext
    have hzero : (message ++ [0x80] ++ List.replicate (p.blockLength -
        (message.length % p.blockLength + 1)) 0).length % p.blockLength = 0 := by
      rw [List.length_append, ← Nat.mod_add_mod, hbit hfill, List.length_replicate,
        Nat.add_sub_cancel' (Nat.le_of_lt hfill), Nat.mod_self]
    have hend := hnext.clear hp hzero
    rw [padded_two hr (by omega) (by omega), ← hshort, ← hblock]
    exact hend
  · -- the bit ends the block
    have hlast : message.length % p.blockLength + 1 = p.blockLength := by omega
    have hnext := h.stream.full hp [0x80] hlast
    have hzero : (message ++ [0x80]).length % p.blockLength = 0 := by
      rw [List.length_append, ← Nat.mod_add_mod]
      exact (congrArg (· % p.blockLength) hlast).trans (Nat.mod_self _)
    have hend := hnext.clear hp hzero
    rw [padded_two hr (by omega) (by omega), ← hshort, ← hblock, hlast, Nat.sub_self,
      List.replicate_zero, List.append_nil]
    exact hend
  · -- the block is empty
    have hnone : message.length % p.blockLength = 0 := by omega
    have hlen : (copy ctx.buffer 0 (List.replicate p.shortBlockLength 0)).length =
        p.blockLength := by
      rw [length_copy (by rw [List.length_replicate, h.stream.length]; omega), h.stream.length]
    have hzeros := zeros_one (hr.trans hnone) (by omega)
    refine h.stream.fill hp ?_ ((length_copy ?_).trans hlen) ?_
    · rw [hnone, List.length_cons, List.length_replicate, hzeros]
      omega
    · rw [hlen, List.length_singleton]
      omega
    · have hsucc : p.shortBlockLength = zeros p message + 1 := by
        rw [hzeros]
        omega
      simp [hnone, hsucc, copy, List.replicate_succ]

theorem Absorbed.last (h : Absorbed p value h0 ctx message) (hp : Lawful p value) :
    last p ctx = absorb (compress p) (16 * p.wordLength) h0 (pad p message) := by
  have hblock := hp.block
  have hshort := hp.short
  have hmod : (padded p message).length % p.blockLength = p.shortBlockLength := mod_padded hp
  have hsum : (padded p message).length % p.blockLength + (p.lengthBytes ctx.bitcount).length =
      p.blockLength := by
    rw [hmod, hp.lengthBytes, bigEndian_length]
    omega
  have hstate := ((h.beginLast hp).full hp _ hsum).state
  have hlength : p.lengthBytes ctx.bitcount =
      bigEndian (2 * p.wordLength) (8 * message.length) := by
    rw [hp.lengthBytes, h.bitcount, bigEndian_mod]
  rw [hmod] at hstate
  rw [Sha2.last, hstate, hlength, hblock]
  rfl

/-- The digest of a message that comes in pieces is that of the whole. -/
theorem final_pieces (hp : Lawful p value) (h0 : Regs w) (words : Nat)
    (pieces : List (List UInt8)) :
    (final p words (pieces.foldl (update p) (init p h0))).1 =
      digest p h0 words pieces.flatten := by
  have hreverse (x : BitVec w) : hostBytes p.wordLength (p.reverse x) =
      bigEndian p.wordLength x.toNat := by
    rw [hostBytes, (hp.reverse x).bytes hp.width, List.reverse_reverse]
  rw [final, digest, (absorbed_pieces hp pieces).last hp]
  simp only [hreverse]

/-! ## The functions -/

theorem reversed_reverse32 (x : BitVec 32) : Reversed 4 x (reverse32 x) := by
  intro i hi
  have hbytes : Grouped 8 (0xff00ff00 : BitVec 32) 0x00ff00ff := by decide
  rw [reverse32, getLsbD_swap hbytes (by decide) _ hi,
    @getLsbD_halves 32 16 _ rfl x (by split_ifs <;> omega)]
  congr 1
  split_ifs <;> omega

theorem reversed_reverse64 (x : BitVec 64) : Reversed 8 x (reverse64 x) := by
  intro i hi
  have hbytes : Grouped 8 (0xff00ff00ff00ff00 : BitVec 64) 0x00ff00ff00ff00ff := by decide
  have hpairs : Grouped 16 (0xffff0000ffff0000 : BitVec 64) 0x0000ffff0000ffff := by decide
  rw [reverse64, getLsbD_swap hpairs (by decide) _ hi,
    getLsbD_swap hbytes (by decide) _ (by split_ifs <;> omega),
    @getLsbD_halves 64 32 _ rfl x (by split_ifs <;> omega)]
  congr 1
  split_ifs <;> omega

theorem lawful_sha256 : Lawful sha256 BitVec.toNat where
  pos := by decide
  width := rfl
  block := rfl
  short := rfl
  clear := by decide
  clear_le := by decide
  rounds := by decide
  reverse := reversed_reverse32
  zero := rfl
  add c n _ := by
    have hpow : 256 ^ (2 * sha256.wordLength) = 2 ^ 64 := by decide
    rw [hpow]
    exact (BitVec.toNat_add ..).trans (by rw [BitVec.toNat_ofNat, Nat.add_mod_mod])
  low c := by
    rw [BitVec.toNat_ushiftRight, Nat.shiftRight_eq_div_pow]
    rfl
  limit := by decide
  lengthBytes c := by
    refine ((congrArg List.reverse ((reversed_reverse64 c).bytes rfl))).trans ?_
    rw [List.reverse_reverse]
    rfl

/-- The number of bits. -/
def bits (c : Bitcount) : Nat := c.1.toNat + 2 ^ 64 * c.2.toNat

theorem bits_addInc128 (c : Bitcount) {n : Nat} (hn : n < 2 ^ 64) :
    bits (addInc128 c n) = (bits c + n) % 2 ^ 128 := by
  obtain ⟨low, high⟩ := c
  have hlow := low.isLt
  have hhigh := high.isLt
  have hsum : (low + BitVec.ofNat 64 n).toNat = (low.toNat + n) % 2 ^ 64 := by
    rw [BitVec.toNat_add, BitVec.toNat_ofNat, Nat.add_mod_mod]
  rw [bits, bits, addInc128]
  dsimp only
  have hcarry : low + BitVec.ofNat 64 n < BitVec.ofNat 64 n ↔ (low.toNat + n) % 2 ^ 64 < n := by
    rw [BitVec.lt_def, hsum, BitVec.toNat_ofNat, Nat.mod_eq_of_lt hn]
  have hhigh' : (high + 1).toNat = (high.toNat + 1) % 2 ^ 64 := BitVec.toNat_add ..
  split_ifs with h
  · rw [hsum, hhigh']
    have := hcarry.mp h
    omega
  · rw [hsum]
    have := mt hcarry.mpr h
    omega

theorem lawful_sha512 : Lawful sha512 bits where
  pos := by decide
  width := rfl
  block := rfl
  short := rfl
  clear := by decide
  clear_le := by decide
  rounds := by decide
  reverse := reversed_reverse64
  zero := rfl
  add c n hn := by
    have hpow : 256 ^ (2 * sha512.wordLength) = 2 ^ 128 := by decide
    have hblock : sha512.blockLength = 128 := rfl
    rw [hblock] at hn
    rw [hpow]
    exact bits_addInc128 c (by omega)
  low c := by
    have hblock : sha512.blockLength = 128 := rfl
    have hlow : sha512.low c = c.1 := rfl
    rw [hblock, hlow, BitVec.toNat_ushiftRight, Nat.shiftRight_eq_div_pow, bits]
    omega
  limit := by decide
  lengthBytes c := by
    have hbytes (x : BitVec 64) : hostBytes 8 (reverse64 x) = bigEndian 8 x.toNat := by
      rw [hostBytes, (reversed_reverse64 x).bytes rfl, List.reverse_reverse]
    have hlow := c.1.isLt
    have hdiv : bits c / 256 ^ 8 = c.2.toNat := by
      rw [bits]
      omega
    have hmod : bits c % 256 ^ 8 = c.1.toNat := by
      rw [bits]
      omega
    have hsplit := bigEndian_add 8 8 (bits c)
    rw [hdiv, ← bigEndian_mod 8 (bits c), hmod] at hsplit
    refine .trans ?_ hsplit.symm
    exact congrArg₂ (· ++ ·) (hbytes c.2) (hbytes c.1)

/-- The digests of a message in pieces of any lengths: the words of the hash value of its blocks,
padded with a bit, zeros and the length. -/
theorem sha2_pieces (pieces : List (List UInt8)) :
    (sha256Final (pieces.foldl sha256Update sha256Init)).1 =
        digest sha256 sha256InitialHashValue 8 pieces.flatten ∧
      (sha384Final (pieces.foldl sha384Update sha384Init)).1 =
        digest sha512 sha384InitialHashValue 6 pieces.flatten ∧
      (sha512Final (pieces.foldl sha512Update sha512Init)).1 =
        digest sha512 sha512InitialHashValue 8 pieces.flatten :=
  ⟨final_pieces lawful_sha256 _ _ pieces, final_pieces lawful_sha512 _ _ pieces,
    final_pieces lawful_sha512 _ _ pieces⟩

example : (sha256Final (sha256Update sha256Init [0x61, 0x62, 0x63])).1.take 4 =
    [0xba, 0x78, 0x16, 0xbf] := by
  decide +kernel

end NodeMcu.Crypto.Streaming
