import NodeMcu.Lib.Crc
import NodeMcu.OneWire.Devices

namespace NodeMcu.OneWire.Crc

open NodeMcu.Lib.Crc NodeMcu.OneWire.Devices

/-! ## The checks as they are computed -/

/-- One turn of the inner loop: the remainder and what is left of the byte. -/
def crc8Bit (crc inbyte : UInt8) : UInt8 × UInt8 :=
  let mix := (crc ^^^ inbyte) &&& 0x01
  (if mix ≠ 0 then crc >>> 1 ^^^ 0x8C else crc >>> 1, inbyte >>> 1)

def crc8Byte (crc inbyte : UInt8) : UInt8 := ((fun s => crc8Bit s.1 s.2)^[8] (crc, inbyte)).1

/-- The slow but small algorithm. -/
def onewireCrc8 (addr : List UInt8) : UInt8 := addr.foldl crc8Byte 0

def dscrcTable : List UInt8 := [
      0, 94,188,226, 97, 63,221,131,194,156,126, 32,163,253, 31, 65,
    157,195, 33,127,252,162, 64, 30, 95,  1,227,189, 62, 96,130,220,
     35,125,159,193, 66, 28,254,160,225,191, 93,  3,128,222, 60, 98,
    190,224,  2, 92,223,129, 99, 61,124, 34,192,158, 29, 67,161,255,
     70, 24,250,164, 39,121,155,197,132,218, 56,102,229,187, 89,  7,
    219,133,103, 57,186,228,  6, 88, 25, 71,165,251,120, 38,196,154,
    101, 59,217,135,  4, 90,184,230,167,249, 27, 69,198,152,122, 36,
    248,166, 68, 26,153,199, 37,123, 58,100,134,216, 91,  5,231,185,
    140,210, 48,110,237,179, 81, 15, 78, 16,242,172, 47,113,147,205,
     17, 79,173,243,112, 46,204,146,211,141,111, 49,178,236, 14, 80,
    175,241, 19, 77,206,144,114, 44,109, 51,209,143, 12, 82,176,238,
     50,108,142,208, 83, 13,239,177,240,174, 76, 18,145,207, 45,115,
    202,148,118, 40,171,245, 23, 73,  8, 86,180,234,105, 55,213,139,
     87,  9,235,181, 54,104,138,212,149,203, 41,119,244,170, 72, 22,
    233,183, 85, 11,136,214, 52,106, 43,117,151,201, 74, 20,246,168,
    116, 42,200,150, 21, 75,169,247,182,232, 10, 84,215,137,107, 53]

/-- The fast algorithm of a build with `ONEWIRE_CRC8_TABLE`. -/
def onewireCrc8Table (addr : List UInt8) : UInt8 :=
  addr.foldl (fun crc b => dscrcTable.getD (crc ^^^ b).toNat 0) 0

def oddparity : List UInt16 := [0, 1, 1, 0, 1, 0, 0, 1, 1, 0, 0, 1, 0, 1, 1, 0]

def crc16Byte (crc : UInt16) (input : UInt8) : UInt16 :=
  let cdata := (input.toUInt16 ^^^ crc) &&& 0xff
  let crc := crc >>> 8
  let odd := oddparity.getD (cdata &&& 0x0F).toNat 0 ^^^ oddparity.getD (cdata >>> 4).toNat 0
  let crc := if odd ≠ 0 then crc ^^^ 0xC001 else crc
  let cdata := cdata <<< 6
  let crc := crc ^^^ cdata
  let cdata := cdata <<< 1
  crc ^^^ cdata

def onewireCrc16 (input : List UInt8) (crc : UInt16) : UInt16 := input.foldl crc16Byte crc

def onewireCheckCrc16 (input : List UInt8) (low high : UInt8) (crc : UInt16) : Bool :=
  let crc := ~~~onewireCrc16 input crc
  (crc &&& 0xFF == low.toUInt16) && (crc >>> 8 == high.toUInt16)

/-! ## The checks as remainders -/

/-- The bits of a message in the order in which they are sent. -/
def messageBits (bytes : List UInt8) : List Bool := bytes.flatMap bits8

def poly8 : BitVec 8 := 0x8C
def poly16 : BitVec 16 := 0xA001

theorem foldl_bytes {w : Nat} {α : Type} (p : BitVec w) (f : α → UInt8 → α) (view : α → BitVec w)
    (h : ∀ c b, view (f c b) = crc p (view c) (bits8 b)) (c : α) (bytes : List UInt8) :
    view (bytes.foldl f c) = crc p (view c) (messageBits bytes) := by
  induction bytes generalizing c with
  | nil => rfl
  | cons b bytes ih =>
    rw [List.foldl_cons, ih, h, ← crc_append]
    rfl

theorem word_bits8 {w : Nat} (b : UInt8) :
    (word (bits8 b) : BitVec w) = b.toBitVec.setWidth w := by
  refine BitVec.eq_of_getLsbD_eq fun i hi => ?_
  rw [getLsbD_word _ _ hi, BitVec.getLsbD_setWidth, decide_eq_true hi, Bool.true_and]
  by_cases h8 : i < 8
  · rw [List.getD_eq_getElem?_getD]
    simp [bits8, h8]
    rfl
  · rw [List.getD_eq_default _ _ (by simp [bits8]; omega), BitVec.getLsbD_of_ge _ _ (by omega)]

/-! ### Eight bits -/

theorem crc8Bit_fst (c b : UInt8) :
    (crc8Bit c b).1.toBitVec = step poly8 c.toBitVec (b.toNat.testBit 0) := by
  have hmix : (c ^^^ b) &&& 0x01 ≠ 0 ↔ (c.toBitVec.getLsbD 0 != b.toNat.testBit 0) = true := by
    have hmask := and_mask (c ^^^ b) 0 (by decide)
    rw [UInt8.toNat_xor, Nat.testBit_xor] at hmask
    rw [UInt8.and_comm, ← bne_iff_ne]
    exact Bool.eq_iff_iff.mp hmask
  rw [crc8Bit, step]
  by_cases h : (c ^^^ b) &&& 0x01 ≠ 0
  · rw [if_pos h, if_pos (hmix.mp h)]
    rfl
  · rw [if_neg h, if_neg (mt hmix.mpr h)]
    rfl

theorem crc8Bit_iterate (n : Nat) (c b : UInt8) :
    ((fun s => crc8Bit s.1 s.2)^[n] (c, b)).1.toBitVec =
        crc poly8 c.toBitVec ((List.range n).map b.toNat.testBit) ∧
      ((fun s => crc8Bit s.1 s.2)^[n] (c, b)).2.toNat = b.toNat >>> n := by
  induction n with
  | zero => exact ⟨rfl, rfl⟩
  | succ n ih =>
    obtain ⟨hcrc, hbyte⟩ := ih
    rw [Function.iterate_succ_apply', List.range_succ, List.map_append, crc_append, ← hcrc]
    constructor
    · rw [crc8Bit_fst, hbyte, Nat.testBit_shiftRight]
      rfl
    · rw [crc8Bit, UInt8.toNat_shiftRight, hbyte, Nat.shiftRight_add]
      rfl

theorem crc8Byte_eq (c b : UInt8) :
    (crc8Byte c b).toBitVec = crc poly8 c.toBitVec (bits8 b) :=
  (crc8Bit_iterate 8 c b).1

theorem onewireCrc8_eq (bytes : List UInt8) :
    (onewireCrc8 bytes).toBitVec = crc poly8 0 (messageBits bytes) :=
  foldl_bytes poly8 crc8Byte UInt8.toBitVec crc8Byte_eq 0 bytes

theorem bits8_length (b : UInt8) : (bits8 b).length = 8 := by simp [bits8]

/-- The table holds the remainders of the bytes. -/
theorem dscrcTable_eq (x : UInt8) : dscrcTable.getD x.toNat 0 = crc8Byte 0 x := by
  have hall : ∀ i : Fin 256, dscrcTable.getD i 0 = crc8Byte 0 (UInt8.ofNat i) := by
    decide +kernel
  have := hall ⟨x.toNat, x.toNat_lt⟩
  rwa [UInt8.ofNat_toNat] at this

theorem crc8Byte_xor (c b : UInt8) : crc8Byte c b = crc8Byte 0 (c ^^^ b) := by
  have hword (d a : UInt8) : (crc8Byte d a).toBitVec = shifts poly8 8 (d ^^^ a).toBitVec := by
    rw [crc8Byte_eq, crc_word poly8 _ (bits8_length a).le, bits8_length, word_bits8,
      BitVec.setWidth_eq, UInt8.toBitVec_xor]
  rw [← UInt8.toBitVec_inj, hword, hword, UInt8.zero_xor]

/-- The fast algorithm agrees with the slow one. -/
theorem onewireCrc8Table_eq (addr : List UInt8) : onewireCrc8Table addr = onewireCrc8 addr := by
  have hstep : (fun crc b => dscrcTable.getD (crc ^^^ b).toNat 0) = crc8Byte := by
    funext c b
    rw [dscrcTable_eq, ← crc8Byte_xor]
  rw [onewireCrc8Table, hstep]
  rfl

theorem messageBits_append (as bs : List UInt8) :
    messageBits (as ++ bs) = messageBits as ++ messageBits bs := List.flatMap_append

theorem onewireCrc8_append_eq_zero (data : List UInt8) (x : UInt8) :
    onewireCrc8 (data ++ [x]) = 0 ↔ onewireCrc8 data = x := by
  have hbits : messageBits [x] = bits8 x := by simp [messageBits]
  rw [← UInt8.toBitVec_inj, onewireCrc8_eq, messageBits_append, hbits, ← UInt8.toBitVec_inj,
    onewireCrc8_eq]
  refine (crc_append_eq_zero poly8 rfl 0 _ (bits8_length x)).trans ?_
  rw [word_bits8, BitVec.setWidth_eq]
  exact eq_comm

/-- Both algorithms agree, a message followed by its check passes it, and no change within eight
bits in a row does. -/
theorem crc8_detects (data : List UInt8) :
    onewireCrc8Table data = onewireCrc8 data ∧
      onewireCrc8 (data ++ [onewireCrc8 data]) = 0 ∧
      ∀ (received : List UInt8) (check : UInt8),
        Burst 8 (messageBits (data ++ [onewireCrc8 data])) (messageBits (received ++ [check])) →
          onewireCrc8 received ≠ check := by
  have hzero := (onewireCrc8_append_eq_zero data _).mpr rfl
  refine ⟨onewireCrc8Table_eq data, hzero, fun received check hburst hcheck => ?_⟩
  have hsame := (onewireCrc8_append_eq_zero received check).mpr hcheck
  refine crc_burst poly8 rfl 0 hburst ?_
  rw [← onewireCrc8_eq, ← onewireCrc8_eq, hzero, hsame]

/-! ### Sixteen bits -/

/-- The remainder of a byte as it is found from the parities of its halves. -/
def parityByte (cdata : UInt16) : UInt16 :=
  let odd := oddparity.getD (cdata &&& 0x0F).toNat 0 ^^^ oddparity.getD (cdata >>> 4).toNat 0
  (if odd ≠ 0 then (0xC001 : UInt16) else 0) ^^^ cdata <<< 6 ^^^ cdata <<< 6 <<< 1

theorem crc16Byte_split (c : UInt16) (b : UInt8) :
    crc16Byte c b = c >>> 8 ^^^ parityByte ((b.toUInt16 ^^^ c) &&& 0xff) := by
  simp only [crc16Byte, parityByte]
  split
  · simp only [UInt16.xor_assoc]
  · simp only [UInt16.xor_assoc, UInt16.zero_xor]

theorem parityByte_eq {x : UInt16} (h : x.toNat < 256) :
    (parityByte x).toBitVec = shifts poly16 8 x.toBitVec := by
  have hall : ∀ i : Fin 256,
      (parityByte (UInt16.ofNat i)).toBitVec = shifts poly16 8 (UInt16.ofNat i).toBitVec := by
    decide +kernel
  have := hall ⟨x.toNat, h⟩
  rwa [UInt16.ofNat_toNat] at this

theorem split_low (x : BitVec 16) : x = (x &&& ~~~0xff#16) ^^^ (x &&& 0xff#16) := by
  refine BitVec.eq_of_getLsbD_eq fun i hi => ?_
  simp only [BitVec.getLsbD_xor, BitVec.getLsbD_and, BitVec.getLsbD_not, decide_eq_true hi,
    Bool.true_and]
  cases x.getLsbD i <;> cases (0xff#16).getLsbD i <;> rfl

theorem getLsbD_ff (i : Nat) : (0xff#16).getLsbD i = decide (i < 8) := by
  rw [BitVec.getLsbD_ofNat, show 0xff = 2 ^ 8 - 1 by rfl, Nat.testBit_two_pow_sub_one]
  by_cases h : i < 8
  · simp [h]
    omega
  · simp [h]

theorem shifts_eight (x : BitVec 16) :
    shifts poly16 8 x = x >>> 8 ^^^ shifts poly16 8 (x &&& 0xff#16) := by
  have hlow : ∀ i < 8, (x &&& ~~~0xff#16).getLsbD i = false := by
    intro i hi
    rw [BitVec.getLsbD_and, BitVec.getLsbD_not, getLsbD_ff, decide_eq_true hi, Bool.not_true,
      Bool.and_false, Bool.and_false]
  have hhigh : (x &&& ~~~0xff#16) >>> 8 = x >>> 8 := by
    refine BitVec.eq_of_getLsbD_eq fun i hi => ?_
    simp only [BitVec.getLsbD_ushiftRight, BitVec.getLsbD_and, BitVec.getLsbD_not, getLsbD_ff]
    by_cases h : 8 + i < 16
    · simp [h]
    · rw [BitVec.getLsbD_of_ge x _ (by omega), Bool.false_and]
  conv => lhs; rw [split_low x]
  rw [shifts_xor, shifts_of_low_zero poly16 hlow, hhigh]

theorem crc16Byte_eq (c : UInt16) (b : UInt8) :
    (crc16Byte c b).toBitVec = crc poly16 c.toBitVec (bits8 b) := by
  have hbits := bits8_length b
  have hbyte : (b.toBitVec.setWidth 16) >>> 8 = 0#16 := by
    refine BitVec.eq_of_getLsbD_eq fun i hi => ?_
    rw [BitVec.getLsbD_ushiftRight, BitVec.getLsbD_setWidth, BitVec.getLsbD_zero,
      BitVec.getLsbD_of_ge _ _ (by omega), Bool.and_false]
  have hsmall : ((b.toUInt16 ^^^ c) &&& 0xff).toNat < 256 := by
    rw [UInt16.toNat_and]
    exact Nat.and_lt_two_pow _ (show 0xff < 2 ^ 8 by decide)
  rw [crc_word poly16 _ (by omega), hbits, word_bits8, shifts_eight,
    BitVec.ushiftRight_xor_distrib, hbyte, BitVec.xor_zero, crc16Byte_split, UInt16.toBitVec_xor,
    parityByte_eq hsmall, UInt16.xor_comm]
  rfl

theorem onewireCrc16_eq (bytes : List UInt8) (c : UInt16) :
    (onewireCrc16 bytes c).toBitVec = crc poly16 c.toBitVec (messageBits bytes) :=
  foldl_bytes poly16 crc16Byte UInt16.toBitVec crc16Byte_eq c bytes

theorem messageBits_pair (low high : UInt8) :
    messageBits [low, high] = bits8 low ++ bits8 high := by simp [messageBits]

theorem getLsbD_pair (low high : UInt8) (i : Nat) (hi : i < 16) :
    (word (messageBits [low, high]) : BitVec 16).getLsbD i =
      if i < 8 then low.toBitVec.getLsbD i else high.toBitVec.getLsbD (i - 8) := by
  rw [getLsbD_word _ _ hi, messageBits_pair, List.getD_eq_getElem?_getD]
  split
  · next h =>
    rw [List.getElem?_append_left (by rw [bits8_length]; exact h)]
    simp [bits8, h]
    rfl
  · next h =>
    rw [List.getElem?_append_right (by rw [bits8_length]; omega), bits8_length]
    simp [bits8, show i - 8 < 8 by omega]
    rfl

/-- The halves of a word are two bytes. -/
theorem halves_iff (x : BitVec 16) (low high : UInt8) :
    x &&& 0xff#16 = low.toBitVec.setWidth 16 ∧ x >>> 8 = high.toBitVec.setWidth 16 ↔
      word (messageBits [low, high]) = x := by
  constructor
  · rintro ⟨hlow, hhigh⟩
    refine BitVec.eq_of_getLsbD_eq fun i hi => ?_
    rw [getLsbD_pair low high i hi]
    split
    · next h =>
      have := congrArg (·.getLsbD i) hlow
      simp only [BitVec.getLsbD_and, getLsbD_ff, BitVec.getLsbD_setWidth, decide_eq_true h,
        decide_eq_true hi, Bool.and_true, Bool.true_and] at this
      exact this.symm
    · next h =>
      have := congrArg (·.getLsbD (i - 8)) hhigh
      simp only [BitVec.getLsbD_ushiftRight, BitVec.getLsbD_setWidth,
        decide_eq_true (show i - 8 < 16 by omega), Bool.true_and] at this
      rw [← this, show 8 + (i - 8) = i by omega]
  · rintro rfl
    constructor
    · refine BitVec.eq_of_getLsbD_eq fun i hi => ?_
      rw [BitVec.getLsbD_and, getLsbD_ff, getLsbD_pair low high i hi, BitVec.getLsbD_setWidth,
        decide_eq_true hi, Bool.true_and]
      by_cases h : i < 8
      · rw [if_pos h, decide_eq_true h, Bool.and_true]
      · rw [decide_eq_false h, Bool.and_false, BitVec.getLsbD_of_ge _ _ (by omega)]
    · refine BitVec.eq_of_getLsbD_eq fun i hi => ?_
      rw [BitVec.getLsbD_ushiftRight, BitVec.getLsbD_setWidth, decide_eq_true hi, Bool.true_and]
      by_cases h : 8 + i < 16
      · rw [getLsbD_pair low high _ h, if_neg (by omega), Nat.add_sub_cancel_left]
      · rw [BitVec.getLsbD_of_ge _ _ (by omega), BitVec.getLsbD_of_ge _ _ (by omega)]

theorem check_iff_word (input : List UInt8) (low high : UInt8) (c : UInt16) :
    onewireCheckCrc16 input low high c = true ↔
      word (messageBits [low, high]) = ~~~(onewireCrc16 input c).toBitVec := by
  rw [← halves_iff, onewireCheckCrc16, Bool.and_eq_true, beq_iff_eq, beq_iff_eq,
    ← UInt16.toBitVec_inj, ← UInt16.toBitVec_inj]
  rfl

/-- What is left of a message with its inverted check. -/
def residue : BitVec 16 := shifts poly16 16 (BitVec.allOnes 16)

theorem check_iff_residue (input : List UInt8) (low high : UInt8) (c : UInt16) :
    onewireCheckCrc16 input low high c = true ↔
      crc poly16 c.toBitVec (messageBits (input ++ [low, high])) = residue := by
  have hlength : (messageBits [low, high]).length = 16 := by
    rw [messageBits_pair, List.length_append, bits8_length, bits8_length]
  rw [check_iff_word, messageBits_append, crc_append, ← onewireCrc16_eq input c,
    crc_word poly16 _ hlength.le, hlength, residue, (shifts_injective poly16 rfl 16).eq_iff,
    ← BitVec.xor_allOnes]
  constructor
  · intro h
    rw [h, ← BitVec.xor_assoc, BitVec.xor_self, BitVec.zero_xor]
  · intro h
    rw [← h, ← BitVec.xor_assoc, BitVec.xor_self, BitVec.zero_xor]

/-- The two bytes of a remainder as they are sent: inverted, the low one first. -/
def sentCrc16 (crc : UInt16) : UInt8 × UInt8 := ((~~~crc).toUInt8, (~~~crc >>> 8).toUInt8)

theorem check_sent (input : List UInt8) (c : UInt16) :
    onewireCheckCrc16 input (sentCrc16 (onewireCrc16 input c)).1
      (sentCrc16 (onewireCrc16 input c)).2 c = true := by
  rw [check_iff_word, ← halves_iff]
  have hlow (x : BitVec 16) : x &&& 0xff#16 = (x.setWidth 8).setWidth 16 := by
    refine BitVec.eq_of_getLsbD_eq fun i hi => ?_
    simp only [BitVec.getLsbD_and, getLsbD_ff, BitVec.getLsbD_setWidth, decide_eq_true hi,
      Bool.true_and, Bool.and_comm]
  have hhigh (x : BitVec 16) : x >>> 8 = ((x >>> 8).setWidth 8).setWidth 16 := by
    refine BitVec.eq_of_getLsbD_eq fun i hi => ?_
    simp only [BitVec.getLsbD_ushiftRight, BitVec.getLsbD_setWidth, decide_eq_true hi,
      Bool.true_and]
    by_cases h : i < 8
    · rw [decide_eq_true h, Bool.true_and]
    · rw [BitVec.getLsbD_of_ge x _ (by omega), Bool.and_false]
  exact ⟨hlow _, hhigh _⟩

/-- A message followed by its inverted check passes it, and no change within sixteen bits in a
row does. -/
theorem crc16_detects (input : List UInt8) (c : UInt16) :
    let sent := sentCrc16 (onewireCrc16 input c)
    onewireCheckCrc16 input sent.1 sent.2 c = true ∧
      ∀ (received : List UInt8) (low high : UInt8),
        Burst 16 (messageBits (input ++ [sent.1, sent.2]))
          (messageBits (received ++ [low, high])) →
        onewireCheckCrc16 received low high c = false := by
  refine ⟨check_sent input c, fun received low high hburst => ?_⟩
  rw [← Bool.not_eq_true]
  intro hcheck
  refine crc_burst poly16 rfl c.toBitVec hburst ?_
  rw [(check_iff_residue ..).mp hcheck, (check_iff_residue ..).mp (check_sent input c)]

end NodeMcu.OneWire.Crc
