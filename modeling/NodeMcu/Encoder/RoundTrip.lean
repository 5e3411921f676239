import NodeMcu.Encoder.Base64
import NodeMcu.Lib.Packed
import NodeMcu.Lib.Table

namespace NodeMcu.Encoder.RoundTrip

open NodeMcu.Lib.Packed NodeMcu.Lib.Sextets NodeMcu.Lib.Table NodeMcu.Encoder.Base64

def sextet (c : UInt8) : Nat := (unbytes64 c).toNat

/-- Alphabet characters and at most two padding characters behind them. -/
def Accepted (s : List UInt8) : Prop :=
  0 < s.length ∧ 4 ∣ s.length ∧ ∃ body k, k ≤ 2 ∧
    s = body ++ List.replicate k base64Padding ∧ ∀ c ∈ body, c ∈ b64

/-- The bits of the last character before the padding that no byte takes are zero: two for each
padding character. -/
def UnusedZero (s : List UInt8) : Prop :=
  ∀ c, (s.filter fun x => x ≠ base64Padding).getLast? = some c →
    sextet c % 4 ^ s.count base64Padding = 0

/-- Accepted strings by their blocks. -/
inductive Blocks : List UInt8 → Prop
  | full (a b c d : UInt8) (ha : isBase64 a = true) (hb : isBase64 b = true)
      (hc : isBase64 c = true) (hd : isBase64 d = true) : Blocks [a, b, c, d]
  | one (a b c : UInt8) (ha : isBase64 a = true) (hb : isBase64 b = true)
      (hc : isBase64 c = true) : Blocks [a, b, c, base64Padding]
  | two (a b : UInt8) (ha : isBase64 a = true) (hb : isBase64 b = true) :
      Blocks [a, b, base64Padding, base64Padding]
  | more (a b c d : UInt8) (s : List UInt8) (ha : isBase64 a = true) (hb : isBase64 b = true)
      (hc : isBase64 c = true) (hd : isBase64 d = true) (hs : Blocks s) :
      Blocks (a :: b :: c :: d :: s)

section characters

theorem map_bytes64 : (List.range b64.length).map bytes64 = b64 := by decide +kernel

theorem nodup_bytes64 : ((List.range b64.length).map bytes64).Nodup := by decide +kernel

theorem mem_b64 (c : UInt8) : c ∈ b64 ↔ ∃ i < 64, bytes64 i = c := by
  have hlen : b64.length = 64 := rfl
  rw [← map_bytes64, List.mem_map, hlen]
  simp only [List.mem_range]

theorem unbytes64_bytes64 (i : Nat) (h : i < 64) : unbytes64 (bytes64 i) = UInt8.ofNat i :=
  filled_entry bytes64 UInt8.ofNat _ i _ nodup_bytes64 (List.mem_range.mpr h)

theorem unbytes64_other (c : UInt8) (h : c ∉ b64) : unbytes64 c = base64Invalid := by
  rw [← map_bytes64] at h
  exact filled_other bytes64 UInt8.ofNat _ c _ h

theorem sextet_bytes64 (i : Nat) (h : i < 64) : sextet (bytes64 i) = i := by
  rw [sextet, unbytes64_bytes64 i h, UInt8.toNat_ofNat']
  exact Nat.mod_eq_of_lt (Nat.lt_trans h (by decide))

theorem isBase64_bytes64 (i : Nat) (h : i < 64) : isBase64 (bytes64 i) = true := by
  have hne : UInt8.ofNat i ≠ base64Invalid := by
    intro he
    have hnat := congrArg UInt8.toNat he
    rw [UInt8.toNat_ofNat', Nat.mod_eq_of_lt (Nat.lt_trans h (by decide))] at hnat
    have : base64Invalid.toNat = 255 := rfl
    omega
  rw [isBase64, unbytes64_bytes64 i h]
  exact bne_iff_ne.mpr hne

theorem isBase64_iff (c : UInt8) : isBase64 c = true ↔ c ∈ b64 := by
  constructor
  · intro h
    by_contra hc
    rw [isBase64, unbytes64_other c hc] at h
    exact bne_iff_ne.mp h rfl
  · intro hc
    obtain ⟨i, hi, rfl⟩ := (mem_b64 c).mp hc
    exact isBase64_bytes64 i hi

theorem isBase64_padding : isBase64 base64Padding = false := by
  rw [← Bool.not_eq_true, isBase64_iff]
  decide

theorem sextet_lt (c : UInt8) (h : isBase64 c = true) : sextet c < 64 := by
  obtain ⟨i, hi, rfl⟩ := (mem_b64 c).mp ((isBase64_iff c).mp h)
  rwa [sextet_bytes64 i hi]

theorem bytes64_sextet (c : UInt8) (h : isBase64 c = true) : bytes64 (sextet c) = c := by
  obtain ⟨i, hi, rfl⟩ := (mem_b64 c).mp ((isBase64_iff c).mp h)
  rw [sextet_bytes64 i hi]

theorem bytes64_eq_iff (i : Nat) (c : UInt8) (h : i < 64) (hc : isBase64 c = true) :
    bytes64 i = c ↔ i = sextet c := by
  constructor
  · rintro rfl
    exact (sextet_bytes64 i h).symm
  · rintro rfl
    exact bytes64_sextet c hc

theorem ne_padding (c : UInt8) (h : isBase64 c = true) : c ≠ base64Padding := by
  rintro rfl
  rw [isBase64_padding] at h
  cases h

end characters

section bits

theorem shiftRight_first (a : Nat) : a >>> 2 = first a := Nat.shiftRight_eq_div_pow a 2

theorem or_second (a b : Nat) (hb : b < 256) : (a &&& 3) <<< 4 ||| b >>> 4 = second a b := by
  have hlow : b >>> 4 < 2 ^ 4 := by
    rw [Nat.shiftRight_eq_div_pow]
    omega
  rw [or_shiftLeft _ _ 4 hlow, Nat.and_two_pow_sub_one_eq_mod a 2, Nat.shiftRight_eq_div_pow]
  rfl

theorem or_third (b c : Nat) (hc : c < 256) : (b &&& 15) <<< 2 ||| c >>> 6 = third b c := by
  have hlow : c >>> 6 < 2 ^ 2 := by
    rw [Nat.shiftRight_eq_div_pow]
    omega
  rw [or_shiftLeft _ _ 2 hlow, Nat.and_two_pow_sub_one_eq_mod b 4, Nat.shiftRight_eq_div_pow]
  rfl

theorem and_fourth (c : Nat) : c &&& 63 = fourth c := Nat.and_two_pow_sub_one_eq_mod c 6

theorem or_byte1 (a b : UInt8) (ha : a.toNat < 64) (hb : b.toNat < 64) :
    (a <<< 2 ||| b >>> 4).toNat = byte1 a.toNat b.toNat := by
  have hlow : b.toNat >>> 4 < 2 ^ 2 := by
    rw [Nat.shiftRight_eq_div_pow]
    omega
  have hhigh : a.toNat <<< 2 % 2 ^ 8 = a.toNat <<< 2 := by
    rw [Nat.shiftLeft_eq]
    omega
  rw [UInt8.toNat_or, UInt8.toNat_shiftLeft, UInt8.toNat_shiftRight]
  change a.toNat <<< 2 % 2 ^ 8 ||| b.toNat >>> 4 = _
  rw [hhigh, or_shiftLeft _ _ 2 hlow, Nat.shiftRight_eq_div_pow]
  rfl

theorem or_byte2 (b c : UInt8) (hc : c.toNat < 64) :
    (b <<< 4 ||| c >>> 2).toNat = byte2 b.toNat c.toNat := by
  have hlow : c.toNat >>> 2 < 2 ^ 4 := by
    rw [Nat.shiftRight_eq_div_pow]
    omega
  have hhigh : b.toNat <<< 4 % 2 ^ 8 = (b.toNat % 16) <<< 4 := by
    rw [Nat.shiftLeft_eq, Nat.shiftLeft_eq]
    omega
  rw [UInt8.toNat_or, UInt8.toNat_shiftLeft, UInt8.toNat_shiftRight]
  change b.toNat <<< 4 % 2 ^ 8 ||| c.toNat >>> 2 = _
  rw [hhigh, or_shiftLeft _ _ 4 hlow, Nat.shiftRight_eq_div_pow]
  rfl

theorem or_byte3 (c d : UInt8) (hd : d.toNat < 64) :
    (c <<< 6 ||| d).toNat = byte3 c.toNat d.toNat := by
  have hhigh : c.toNat <<< 6 % 2 ^ 8 = (c.toNat % 4) <<< 6 := by
    rw [Nat.shiftLeft_eq, Nat.shiftLeft_eq]
    omega
  rw [UInt8.toNat_or, UInt8.toNat_shiftLeft]
  change c.toNat <<< 6 % 2 ^ 8 ||| d.toNat = _
  rw [hhigh, or_shiftLeft _ _ 6 hd]
  rfl

end bits

section chunks

theorem encodeChunk_three (a b c : UInt8) :
    encodeChunk a (some b) (some c) = [bytes64 (first a.toNat), bytes64 (second a.toNat b.toNat),
      bytes64 (third b.toNat c.toNat), bytes64 (fourth c.toNat)] := by
  simp only [encodeChunk, Option.getD_some, Option.isSome_some, if_true]
  rw [shiftRight_first, or_second _ _ b.toNat_lt, or_third _ _ c.toNat_lt, and_fourth]

theorem encodeChunk_two (a b : UInt8) :
    encodeChunk a (some b) none = [bytes64 (first a.toNat), bytes64 (second a.toNat b.toNat),
      bytes64 (third b.toNat 0), base64Padding] := by
  simp only [encodeChunk, Option.getD_some, Option.isSome_some, if_true, Option.getD_none,
    Option.isSome_none, Bool.false_eq_true, if_false]
  rw [shiftRight_first, or_second _ _ b.toNat_lt, UInt8.toNat_zero, or_third _ _ (by decide)]

theorem encodeChunk_one (a : UInt8) :
    encodeChunk a none none = [bytes64 (first a.toNat), bytes64 (second a.toNat 0),
      base64Padding, base64Padding] := by
  simp only [encodeChunk, Option.getD_none, Option.isSome_none, Bool.false_eq_true, if_false]
  rw [shiftRight_first, UInt8.toNat_zero, or_second _ _ (by decide)]

theorem decodeBlock_eq (a b c d : UInt8) (ha : isBase64 a = true) (hb : isBase64 b = true)
    (hc : isBase64 c = true) (hd : isBase64 d = true) :
    decodeBlock (unbytes64 a) (unbytes64 b) (unbytes64 c) (unbytes64 d) =
      [UInt8.ofNat (byte1 (sextet a) (sextet b)), UInt8.ofNat (byte2 (sextet b) (sextet c)),
        UInt8.ofNat (byte3 (sextet c) (sextet d))] := by
  have h1 := or_byte1 _ _ (sextet_lt a ha) (sextet_lt b hb)
  have h2 := or_byte2 (unbytes64 b) _ (sextet_lt c hc)
  have h3 := or_byte3 (unbytes64 c) _ (sextet_lt d hd)
  rw [decodeBlock]
  rw [← UInt8.ofNat_toNat (x := unbytes64 a <<< 2 ||| unbytes64 b >>> 4), h1,
    ← UInt8.ofNat_toNat (x := unbytes64 b <<< 4 ||| unbytes64 c >>> 2), h2,
    ← UInt8.ofNat_toNat (x := unbytes64 c <<< 6 ||| unbytes64 d), h3]
  rfl

end chunks

section blocks

/-- What the decoder checks. -/
def Valid (s : List UInt8) : Prop :=
  0 < s.length ∧ s.length &&& 3 = 0 ∧ (s.take (s.length - padOf s)).all isBase64 = true

theorem and_three (n : Nat) : n &&& 3 = n % 4 := Nat.and_two_pow_sub_one_eq_mod n 2

theorem padOf_le (s : List UInt8) : padOf s ≤ 2 := by
  unfold padOf
  split
  · split <;> omega
  · omega

theorem blocks_length (s : List UInt8) (h : Blocks s) : 4 ≤ s.length := by
  cases h with
  | full | one | two => exact Nat.le_refl _
  | more => simp

theorem padOf_more (a b c d : UInt8) (s : List UInt8) (h : 4 ≤ s.length) :
    padOf (a :: b :: c :: d :: s) = padOf s := by
  have h1 : (a :: b :: c :: d :: s).length - 1 = s.length - 1 + 4 := by simp; omega
  have h2 : (a :: b :: c :: d :: s).length - 2 = s.length - 2 + 4 := by simp; omega
  simp only [padOf, h1, h2, List.getD_cons_succ]

theorem valid_more (a b c d : UInt8) (s : List UInt8) (h : 4 ≤ s.length) :
    Valid (a :: b :: c :: d :: s) ↔ isBase64 a = true ∧ isBase64 b = true ∧ isBase64 c = true ∧
      isBase64 d = true ∧ Valid s := by
  have hpad := padOf_le s
  have hlen : s.length + 1 + 1 + 1 + 1 - padOf s = s.length - padOf s + 1 + 1 + 1 + 1 := by
    omega
  have hmod : (s.length + 1 + 1 + 1 + 1) % 4 = s.length % 4 := by omega
  simp only [Valid, padOf_more a b c d s h, List.length_cons, hlen, List.take_succ_cons,
    List.all_cons, Bool.and_eq_true, and_three, hmod]
  constructor
  · rintro ⟨-, h0, ha, hb, hc, hd, hs⟩
    exact ⟨ha, hb, hc, hd, by omega, h0, hs⟩
  · rintro ⟨ha, hb, hc, hd, -, h0, hs⟩
    exact ⟨by omega, h0, ha, hb, hc, hd, hs⟩

theorem padOf_four (a b c d : UInt8) :
    padOf [a, b, c, d] = if d = base64Padding then (if c ≠ base64Padding then 1 else 2) else 0 :=
  rfl

theorem blocks_of_valid (s : List UInt8) (h : Valid s) : Blocks s := by
  match s, h with
  | a :: b :: c :: d :: x :: s, h =>
    have hlen : 4 ≤ (x :: s).length := by
      have hmod := h.2.1
      rw [and_three] at hmod
      simp only [List.length_cons] at hmod ⊢
      omega
    obtain ⟨ha, hb, hc, hd, hs⟩ := (valid_more a b c d (x :: s) hlen).mp h
    exact .more a b c d _ ha hb hc hd (blocks_of_valid _ hs)
  | [a, b, c, d], ⟨_, _, h⟩ =>
    rw [padOf_four] at h
    split at h
    · next hd =>
      subst hd
      split at h
      · simp at h
        exact .one a b c h.1 h.2.1 h.2.2
      · next hc =>
        rw [not_not] at hc
        subst hc
        simp at h
        exact .two a b h.1 h.2
    · simp at h
      exact .full a b c d h.1 h.2.1 h.2.2.1 h.2.2.2
  | [_, _, _], h | [_, _], h | [_], h =>
    have hmod := h.2.1
    simp at hmod
  | [], h => exact absurd h.1 (Nat.lt_irrefl 0)

theorem valid_of_blocks (s : List UInt8) (h : Blocks s) : Valid s := by
  induction h with
  | full a b c d ha hb hc hd =>
    refine ⟨by simp, by simp, ?_⟩
    rw [padOf_four, if_neg (ne_padding d hd)]
    simp [ha, hb, hc, hd]
  | one a b c ha hb hc =>
    refine ⟨by simp, by simp, ?_⟩
    rw [padOf_four, if_pos rfl, if_pos (ne_padding c hc)]
    simp [ha, hb, hc]
  | two a b ha hb =>
    refine ⟨by simp, by simp, ?_⟩
    rw [padOf_four, if_pos rfl, if_neg (not_not.mpr rfl)]
    simp [ha, hb]
  | more a b c d s ha hb hc hd hs ih =>
    exact (valid_more a b c d s (blocks_length s hs)).mpr ⟨ha, hb, hc, hd, ih⟩

theorem accepted_of_blocks (s : List UInt8) (h : Blocks s) : Accepted s := by
  simp only [Accepted, ← isBase64_iff]
  induction h with
  | full a b c d ha hb hc hd =>
    refine ⟨by simp, by simp, [a, b, c, d], 0, by decide, rfl, ?_⟩
    simp [ha, hb, hc, hd]
  | one a b c ha hb hc =>
    refine ⟨by simp, by simp, [a, b, c], 1, by decide, rfl, ?_⟩
    simp [ha, hb, hc]
  | two a b ha hb =>
    refine ⟨by simp, by simp, [a, b], 2, by decide, rfl, ?_⟩
    simp [ha, hb]
  | more a b c d s ha hb hc hd hs ih =>
    obtain ⟨-, hdvd, body, k, hk, rfl, hbody⟩ := ih
    refine ⟨by simp, ?_, a :: b :: c :: d :: body, k, hk, rfl, ?_⟩
    · simp only [List.length_cons]
      omega
    · simpa [ha, hb, hc, hd] using hbody

theorem blocks_of_accepted (s : List UInt8) (h : Accepted s) : Blocks s := by
  simp only [Accepted, ← isBase64_iff] at h
  obtain ⟨hpos, hdvd, body, k, hk, rfl, hbody⟩ := h
  induction hn : body.length using Nat.strong_induction_on generalizing body with
  | _ n ih =>
    rw [List.length_append, List.length_replicate] at hpos hdvd
    match body, hbody with
    | [], _ | [_], _ =>
      simp at hpos hdvd
      omega
    | [a, b], hbody =>
      obtain rfl : k = 2 := by simp at hdvd; omega
      simp at hbody
      exact .two a b hbody.1 hbody.2
    | [a, b, c], hbody =>
      obtain rfl : k = 1 := by simp at hdvd; omega
      simp at hbody
      exact .one a b c hbody.1 hbody.2.1 hbody.2.2
    | [a, b, c, d], hbody =>
      obtain rfl : k = 0 := by simp at hdvd; omega
      simp at hbody
      exact .full a b c d hbody.1 hbody.2.1 hbody.2.2.1 hbody.2.2.2
    | a :: b :: c :: d :: x :: body, hbody =>
      have hc4 := fun y (hy : y ∈ [a, b, c, d]) =>
        hbody y (List.mem_append_left (x :: body) hy)
      simp at hc4
      refine .more a b c d _ hc4.1 hc4.2.1 hc4.2.2.1 hc4.2.2.2 ?_
      apply ih (x :: body).length
      · rw [← hn]
        simp
      · intro y hy
        exact hbody y (List.mem_append_right [a, b, c, d] hy)
      · simp
      · simp only [List.length_append, List.length_cons, List.length_replicate] at hdvd ⊢
        omega
      · rfl

end blocks

section decoding

theorem decodeBytes_full (a b c d : UInt8) (hd : isBase64 d = true) :
    decodeBytes [a, b, c, d] =
      decodeBlock (unbytes64 a) (unbytes64 b) (unbytes64 c) (unbytes64 d) := by
  have hpad : padOf [a, b, c, d] = 0 := by rw [padOf_four, if_neg (ne_padding d hd)]
  simp [decodeBytes, hpad, decodeBlocks, decodePadding]

theorem decodeBytes_one (a b c : UInt8) (ha : isBase64 a = true) (hb : isBase64 b = true)
    (hc : isBase64 c = true) :
    decodeBytes [a, b, c, base64Padding] = [UInt8.ofNat (byte1 (sextet a) (sextet b)),
      UInt8.ofNat (byte2 (sextet b) (sextet c))] := by
  have hpad : padOf [a, b, c, base64Padding] = 1 := by
    rw [padOf_four, if_pos rfl, if_pos (ne_padding c hc)]
  have h1 := or_byte1 _ _ (sextet_lt a ha) (sextet_lt b hb)
  have h2 := or_byte2 (unbytes64 b) _ (sextet_lt c hc)
  have hbytes : decodeBytes [a, b, c, base64Padding] =
      [unbytes64 a <<< 2 ||| unbytes64 b >>> 4, unbytes64 b <<< 4 ||| unbytes64 c >>> 2] := by
    simp [decodeBytes, hpad, decodeBlocks, decodePadding]
  rw [hbytes, ← UInt8.ofNat_toNat (x := unbytes64 a <<< 2 ||| unbytes64 b >>> 4), h1,
    ← UInt8.ofNat_toNat (x := unbytes64 b <<< 4 ||| unbytes64 c >>> 2), h2]
  rfl

theorem decodeBytes_two (a b : UInt8) (ha : isBase64 a = true) (hb : isBase64 b = true) :
    decodeBytes [a, b, base64Padding, base64Padding] =
      [UInt8.ofNat (byte1 (sextet a) (sextet b))] := by
  have hpad : padOf [a, b, base64Padding, base64Padding] = 2 := by
    rw [padOf_four, if_pos rfl, if_neg (not_not.mpr rfl)]
  have h1 := or_byte1 _ _ (sextet_lt a ha) (sextet_lt b hb)
  have hbytes : decodeBytes [a, b, base64Padding, base64Padding] =
      [unbytes64 a <<< 2 ||| unbytes64 b >>> 4] := by
    simp [decodeBytes, hpad, decodeBlocks, decodePadding]
  rw [hbytes, ← UInt8.ofNat_toNat (x := unbytes64 a <<< 2 ||| unbytes64 b >>> 4), h1]
  rfl

theorem decodeBytes_more (a b c d : UInt8) (s : List UInt8) (h : 4 ≤ s.length) :
    decodeBytes (a :: b :: c :: d :: s) =
      decodeBlock (unbytes64 a) (unbytes64 b) (unbytes64 c) (unbytes64 d) ++ decodeBytes s := by
  have hlen : (a :: b :: c :: d :: s).length >>> 2 = s.length >>> 2 + 1 := by
    simp only [Nat.shiftRight_eq_div_pow, List.length_cons]
    omega
  have hpos : 0 < s.length >>> 2 := by
    rw [Nat.shiftRight_eq_div_pow]
    omega
  have hblocks : (if padOf s = 0 then s.length >>> 2 + 1 else s.length >>> 2 + 1 - 1) =
      (if padOf s = 0 then s.length >>> 2 else s.length >>> 2 - 1) + 1 := by
    split <;> omega
  simp only [decodeBytes, padOf_more a b c d s h, hlen, hblocks, decodeBlocks, List.append_assoc]

theorem toNat_ofNat_lt (n : Nat) (h : n < 256) : (UInt8.ofNat n).toNat = n := by
  rw [UInt8.toNat_ofNat']
  exact Nat.mod_eq_of_lt h

/-- The block of three bytes is decoded to them. -/
theorem decodeBlock_chunk (a b c : UInt8) :
    decodeBlock (unbytes64 (bytes64 (first a.toNat))) (unbytes64 (bytes64 (second a.toNat b.toNat)))
      (unbytes64 (bytes64 (third b.toNat c.toNat))) (unbytes64 (bytes64 (fourth c.toNat))) =
      [a, b, c] := by
  have h1 := first_lt a.toNat_lt
  have h2 := second_lt (a := a.toNat) b.toNat_lt
  have h3 := third_lt (b := b.toNat) c.toNat_lt
  have h4 := fourth_lt (c := c.toNat)
  rw [decodeBlock_eq _ _ _ _ (isBase64_bytes64 _ h1) (isBase64_bytes64 _ h2)
      (isBase64_bytes64 _ h3) (isBase64_bytes64 _ h4), sextet_bytes64 _ h1, sextet_bytes64 _ h2,
    sextet_bytes64 _ h3, sextet_bytes64 _ h4, byte1_digits b.toNat_lt,
    byte2_digits b.toNat_lt c.toNat_lt, byte3_digits c.toNat_lt, UInt8.ofNat_toNat,
    UInt8.ofNat_toNat, UInt8.ofNat_toNat]

/-- What the encoder makes is accepted, and decoded to what it was made of. -/
theorem decode_encode (msg : List UInt8) (h : msg ≠ []) :
    Blocks (encodeLoop msg) ∧ decodeBytes (encodeLoop msg) = msg := by
  induction msg using encodeLoop.induct with
  | case1 => exact absurd rfl h
  | case2 a =>
    have h1 := first_lt a.toNat_lt
    have h2 := second_lt (a := a.toNat) (b := 0) (by decide)
    have c1 := isBase64_bytes64 _ h1
    have c2 := isBase64_bytes64 _ h2
    rw [encodeLoop, encodeChunk_one]
    refine ⟨.two _ _ c1 c2, ?_⟩
    rw [decodeBytes_two _ _ c1 c2, sextet_bytes64 _ h1, sextet_bytes64 _ h2,
      byte1_digits (by decide), UInt8.ofNat_toNat]
  | case3 a b =>
    have h1 := first_lt a.toNat_lt
    have h2 := second_lt (a := a.toNat) b.toNat_lt
    have h3 := third_lt (b := b.toNat) (c := 0) (by decide)
    have c1 := isBase64_bytes64 _ h1
    have c2 := isBase64_bytes64 _ h2
    have c3 := isBase64_bytes64 _ h3
    rw [encodeLoop, encodeChunk_two]
    refine ⟨.one _ _ _ c1 c2 c3, ?_⟩
    rw [decodeBytes_one _ _ _ c1 c2 c3, sextet_bytes64 _ h1, sextet_bytes64 _ h2,
      sextet_bytes64 _ h3, byte1_digits b.toNat_lt, byte2_digits b.toNat_lt (by decide),
      UInt8.ofNat_toNat, UInt8.ofNat_toNat]
  | case4 a b c rest ih =>
    have c1 := isBase64_bytes64 _ (first_lt a.toNat_lt)
    have c2 := isBase64_bytes64 _ (second_lt (a := a.toNat) b.toNat_lt)
    have c3 := isBase64_bytes64 _ (third_lt (b := b.toNat) c.toNat_lt)
    have c4 := isBase64_bytes64 _ (fourth_lt (c := c.toNat))
    rw [encodeLoop, encodeChunk_three]
    by_cases hrest : rest = []
    · subst hrest
      refine ⟨.full _ _ _ _ c1 c2 c3 c4, ?_⟩
      rw [encodeLoop, List.append_nil, decodeBytes_full _ _ _ _ c4, decodeBlock_chunk]
    · obtain ⟨hblocks, hdecode⟩ := ih hrest
      refine ⟨.more _ _ _ _ _ c1 c2 c3 c4 hblocks, ?_⟩
      rw [List.cons_append, List.cons_append, List.cons_append, List.cons_append,
        List.nil_append, decodeBytes_more _ _ _ _ _ (blocks_length _ hblocks), decodeBlock_chunk,
        hdecode]
      rfl

/-- The block of three decoded bytes is the one they were decoded from. -/
theorem encodeChunk_block (a b c d : UInt8) (ha : isBase64 a = true) (hb : isBase64 b = true)
    (hc : isBase64 c = true) (hd : isBase64 d = true) (rest : List UInt8) :
    encodeLoop (decodeBlock (unbytes64 a) (unbytes64 b) (unbytes64 c) (unbytes64 d) ++ rest) =
      a :: b :: c :: d :: encodeLoop rest := by
  have h1 := sextet_lt a ha
  have h2 := sextet_lt b hb
  have h3 := sextet_lt c hc
  have h4 := sextet_lt d hd
  rw [decodeBlock_eq a b c d ha hb hc hd, List.cons_append, List.cons_append, List.cons_append,
    List.nil_append, encodeLoop, encodeChunk_three, toNat_ofNat_lt _ (byte1_lt h1 h2),
    toNat_ofNat_lt _ (byte2_lt h3), toNat_ofNat_lt _ (byte3_lt h4), first_bytes h2,
    second_bytes h2 h3, third_bytes h3 h4, fourth_bytes h4, bytes64_sextet a ha,
    bytes64_sextet b hb, bytes64_sextet c hc, bytes64_sextet d hd]
  rfl

theorem filter_ne_nil (s : List UInt8) (h : Blocks s) :
    s.filter (fun x => x ≠ base64Padding) ≠ [] := by
  cases h with
  | full a b c d ha | one a b c ha | two a b ha | more a b c d s ha =>
    simp [ne_padding a ha]

theorem unusedZero_more (a b c d : UInt8) (s : List UInt8) (ha : isBase64 a = true)
    (hb : isBase64 b = true) (hc : isBase64 c = true) (hd : isBase64 d = true) (hs : Blocks s) :
    UnusedZero (a :: b :: c :: d :: s) ↔ UnusedZero s := by
  have hne := filter_ne_nil s hs
  have hlast : ((a :: b :: c :: d :: s).filter fun x => x ≠ base64Padding).getLast? =
      (s.filter fun x => x ≠ base64Padding).getLast? := by
    obtain ⟨x, xs, hx⟩ := List.exists_cons_of_ne_nil hne
    simp only [List.filter_cons, decide_eq_true (ne_padding a ha), decide_eq_true (ne_padding b hb),
      decide_eq_true (ne_padding c hc), decide_eq_true (ne_padding d hd), if_true, hx,
      List.getLast?_cons_cons]
  have hcount : (a :: b :: c :: d :: s).count base64Padding = s.count base64Padding := by
    rw [List.count_cons_of_ne (ne_padding a ha), List.count_cons_of_ne (ne_padding b hb),
      List.count_cons_of_ne (ne_padding c hc), List.count_cons_of_ne (ne_padding d hd)]
  rw [UnusedZero, UnusedZero, hlast, hcount]

/-- An accepted string is the encoding of its bytes if it has no bits that the bytes lack. -/
theorem encode_decode_iff (s : List UInt8) (h : Blocks s) :
    encodeLoop (decodeBytes s) = s ↔ UnusedZero s := by
  induction h with
  | full a b c d ha hb hc hd =>
    have heq := encodeChunk_block a b c d ha hb hc hd []
    rw [List.append_nil] at heq
    rw [decodeBytes_full a b c d hd, heq]
    simp [encodeLoop, UnusedZero, ne_padding a ha, ne_padding b hb, ne_padding c hc,
      ne_padding d hd, Nat.mod_one]
  | one a b c ha hb hc =>
    have h2 := sextet_lt b hb
    have h3 := sextet_lt c hc
    rw [decodeBytes_one a b c ha hb hc, encodeLoop, encodeChunk_two,
      toNat_ofNat_lt _ (byte1_lt (sextet_lt a ha) h2), toNat_ofNat_lt _ (byte2_lt h3),
      first_bytes h2, second_bytes h2 h3, bytes64_sextet a ha, bytes64_sextet b hb]
    have hthird := bytes64_eq_iff (third (byte2 (sextet b) (sextet c)) 0) c
      (third_lt (by decide)) hc
    rw [third_alone h3] at hthird
    simp [UnusedZero, ne_padding a ha, ne_padding b hb, ne_padding c hc, hthird]
  | two a b ha hb =>
    have h1 := sextet_lt a ha
    have h2 := sextet_lt b hb
    rw [decodeBytes_two a b ha hb, encodeLoop, encodeChunk_one,
      toNat_ofNat_lt _ (byte1_lt h1 h2), first_bytes h2, bytes64_sextet a ha]
    have hsecond :=
      bytes64_eq_iff (second (byte1 (sextet a) (sextet b)) 0) b (second_lt (by decide)) hb
    rw [second_alone h2] at hsecond
    simp [UnusedZero, ne_padding a ha, ne_padding b hb, hsecond]
  | more a b c d s ha hb hc hd hs ih =>
    rw [decodeBytes_more a b c d s (blocks_length s hs), encodeChunk_block a b c d ha hb hc hd,
      unusedZero_more a b c d s ha hb hc hd hs, ← ih]
    simp

end decoding

section lengths

theorem encodeLoop_length (msg : List UInt8) :
    (encodeLoop msg).length = (msg.length + 2) / 3 * 4 := by
  induction msg using encodeLoop.induct with
  | case1 | case2 | case3 => simp [encodeLoop, encodeChunk]
  | case4 a b c rest ih =>
    rw [encodeLoop, List.length_append, ih]
    simp only [encodeChunk, List.length_cons, List.length_nil]
    omega

theorem decodeBytes_length (s : List UInt8) (h : Blocks s) :
    (decodeBytes s).length ≤ 3 * s.length / 4 := by
  induction h with
  | full a b c d ha hb hc hd =>
    rw [decodeBytes_full a b c d hd]
    simp [decodeBlock]
  | one a b c ha hb hc =>
    rw [decodeBytes_one a b c ha hb hc]
    simp
  | two a b ha hb =>
    rw [decodeBytes_two a b ha hb]
    simp
  | more a b c d s ha hb hc hd hs ih =>
    rw [decodeBytes_more a b c d s (blocks_length s hs), List.length_append]
    simp only [decodeBlock, List.length_cons, List.length_nil]
    omega

end lengths

section codecs

/-- What an encoder and a decoder are for. Each gives its output or nothing. -/
structure Codec (encode decode : List UInt8 → Option Output) : Prop where
  roundTrip : ∀ msg, msg ≠ [] →
    ∃ e d, encode msg = some e ∧ decode e.value = some d ∧ d.value = msg
  accepts : ∀ s, (∃ d, decode s = some d) ↔ Accepted s
  canonical : ∀ s d, decode s = some d →
    ((∃ e, encode d.value = some e ∧ e.value = s) ↔ UnusedZero s)
  encodeInside : ∀ msg e, encode msg = some e → e.written.length ≤ e.cap
  decodeInside : ∀ s d, decode s = some d → d.written.length ≤ d.cap

/-- The output of a conversion of the Lua module. -/
def output : Conversion → Option Output
  | .bytes out => some out
  | .null | .raised _ => none

/-- Both copies give the same bytes, or both refuse the input for the same reason. The null pointer
stands for an empty input only. -/
inductive Same : Except Err Output → Conversion → Prop
  | bytes (out luaOut : Output) (h : out.value = luaOut.value) : Same (.ok out) (.bytes luaOut)
  | null : Same (.error .outOfMemory) .null
  | memory : Same (.error .outOfMemory) (.raised "not enough memory")
  | invalid : Same (.error .invalidBase64String) (.raised "Invalid base64 string")

/-- A pair of functions around the two loops is a codec, if the memory is enough. -/
theorem codec_of (encode decode : List UInt8 → Option Output)
    (hnone : ∀ msg e, encode msg = some e → msg ≠ [])
    (henc : ∀ msg, msg ≠ [] → ∃ e, encode msg = some e ∧ e.value = encodeLoop msg ∧
      e.written.length ≤ e.cap)
    (hdec : ∀ s, Valid s → ∃ d, decode s = some d ∧ d.value = decodeBytes s ∧
      d.written = decodeBytes s ∧ d.cap = 1 + 3 * s.length / 4)
    (hinvalid : ∀ s d, decode s = some d → Valid s) : Codec encode decode := by
  refine ⟨?_, ?_, ?_, ?_, ?_⟩
  · intro msg hmsg
    obtain ⟨hblocks, hbytes⟩ := decode_encode msg hmsg
    obtain ⟨e, he, hvalue, -⟩ := henc msg hmsg
    obtain ⟨d, hd, hdvalue, -⟩ := hdec _ (valid_of_blocks _ hblocks)
    refine ⟨e, d, he, ?_, hdvalue.trans hbytes⟩
    rw [hvalue, hd]
  · intro s
    constructor
    · rintro ⟨d, hd⟩
      exact accepted_of_blocks s (blocks_of_valid s (hinvalid s d hd))
    · intro h
      obtain ⟨d, hd, -⟩ := hdec s (valid_of_blocks s (blocks_of_accepted s h))
      exact ⟨d, hd⟩
  · intro s d hd
    have hvalid := hinvalid s d hd
    obtain ⟨d', hd', hvalue, -⟩ := hdec s hvalid
    obtain rfl : d' = d := Option.some.inj (hd'.symm.trans hd)
    rw [← encode_decode_iff s (blocks_of_valid s hvalid), hvalue]
    constructor
    · rintro ⟨e, he, hs⟩
      obtain ⟨e', he', hvalue', -⟩ := henc _ (hnone _ e he)
      obtain rfl : e' = e := Option.some.inj (he'.symm.trans he)
      rw [← hvalue', hs]
    · intro heq
      have hne : decodeBytes s ≠ [] := by
        intro hnil
        rw [hnil, encodeLoop] at heq
        rw [← heq] at hvalid
        exact absurd hvalid.1 (Nat.lt_irrefl 0)
      obtain ⟨e, he, hvalue', -⟩ := henc _ hne
      exact ⟨e, he, hvalue'.trans heq⟩
  · intro msg e he
    obtain ⟨e', he', -, hcap⟩ := henc msg (hnone msg e he)
    obtain rfl : e' = e := Option.some.inj (he'.symm.trans he)
    exact hcap
  · intro s d hd
    have hvalid := hinvalid s d hd
    obtain ⟨d', hd', -, hwritten, hcap⟩ := hdec s hvalid
    obtain rfl : d' = d := Option.some.inj (hd'.symm.trans hd)
    have hlen := decodeBytes_length s (blocks_of_valid s hvalid)
    rw [hwritten, hcap]
    omega

theorem toBase64_ok (msg : List UInt8) (h : msg ≠ []) :
    toBase64 true msg =
      .ok ⟨(msg.length + 2) / 3 * 4 + 1, encodeLoop msg ++ [0], (encodeLoop msg).length⟩ := by
  rw [toBase64, if_neg (fun h0 => h (List.length_eq_zero_iff.mp h0)), if_pos rfl]

theorem luaToBase64_ok (msg : List UInt8) (h : msg ≠ []) :
    luaToBase64 true msg =
      .bytes ⟨(msg.length + 2) / 3 * 4, encodeLoop msg, (encodeLoop msg).length⟩ := by
  rw [luaToBase64, if_neg (fun h0 => h (List.length_eq_zero_iff.mp h0))]
  rfl

theorem fromBase64_ok (s : List UInt8) (h : Valid s) :
    fromBase64 true s =
      .ok ⟨1 + 3 * s.length / 4, decodeBytes s, (decodeBytes s).length⟩ := by
  have hpos := h.1
  rw [fromBase64, if_neg (by omega), if_neg (not_not.mpr h.2.1), if_pos h.2.2, if_pos rfl]

theorem luaFromBase64_ok (s : List UInt8) (h : Valid s) :
    luaFromBase64 true s =
      .bytes ⟨1 + 3 * s.length / 4, decodeBytes s, (decodeBytes s).length⟩ := by
  have hpos := h.1
  rw [luaFromBase64, if_neg (by omega), if_neg (not_not.mpr h.2.1), if_pos h.2.2]
  rfl

theorem valid_of_fromBase64 (s : List UInt8) (out : Output) (h : fromBase64 true s = .ok out) :
    Valid s := by
  unfold fromBase64 at h
  split at h
  · cases h
  · next hpos =>
    split at h
    · cases h
    · next hmod =>
      split at h
      · next hall => exact ⟨Nat.pos_of_ne_zero hpos, not_not.mp hmod, hall⟩
      · cases h

theorem valid_of_luaFromBase64 (s : List UInt8) (out : Output)
    (h : luaFromBase64 true s = .bytes out) : Valid s := by
  unfold luaFromBase64 at h
  split at h
  · cases h
  · next hpos =>
    split at h
    · cases h
    · next hmod =>
      split at h
      · next hall => exact ⟨Nat.pos_of_ne_zero hpos, not_not.mp hmod, hall⟩
      · cases h

theorem compMsg_codec :
    Codec (fun msg => (toBase64 true msg).toOption) fun s => (fromBase64 true s).toOption := by
  apply codec_of
  · rintro msg e he rfl
    cases he
  · intro msg hmsg
    rw [toBase64_ok msg hmsg]
    refine ⟨_, rfl, List.take_left, ?_⟩
    rw [List.length_append, encodeLoop_length]
    exact Nat.le_refl _
  · intro s hs
    rw [fromBase64_ok s hs]
    exact ⟨_, rfl, List.take_length, rfl, rfl⟩
  · intro s d hd
    cases hs : fromBase64 true s with
    | ok out => exact valid_of_fromBase64 s out hs
    | error e =>
      rw [hs] at hd
      cases hd

theorem lua_codec :
    Codec (fun msg => output (luaToBase64 true msg)) fun s => output (luaFromBase64 true s) := by
  apply codec_of
  · rintro msg e he rfl
    cases he
  · intro msg hmsg
    rw [luaToBase64_ok msg hmsg]
    refine ⟨_, rfl, List.take_length, ?_⟩
    rw [encodeLoop_length]
  · intro s hs
    rw [luaFromBase64_ok s hs]
    exact ⟨_, rfl, List.take_length, rfl, rfl⟩
  · intro s d hd
    cases hs : luaFromBase64 true s with
    | bytes out => exact valid_of_luaFromBase64 s out hs
    | null =>
      rw [hs] at hd
      cases hd
    | raised text =>
      rw [hs] at hd
      cases hd

theorem toBase64_same (allocOk : Bool) (msg : List UInt8) :
    Same (toBase64 allocOk msg) (luaToBase64 allocOk msg) := by
  unfold toBase64 luaToBase64 luaMalloc
  split
  · exact .null
  · split
    · apply Same.bytes
      rw [Output.value, Output.value, List.take_left, List.take_length]
    · exact .memory

theorem fromBase64_same (allocOk : Bool) (s : List UInt8) :
    Same (fromBase64 allocOk s) (luaFromBase64 allocOk s) := by
  unfold fromBase64 luaFromBase64 luaMalloc
  split
  · exact .null
  · split
    · exact .invalid
    · split
      · split
        · exact .bytes _ _ rfl
        · exact .memory
      · exact .invalid

/-- Both copies are codecs where there is memory, and they agree. -/
theorem base64_codecs :
    Codec (fun msg => (toBase64 true msg).toOption) (fun s => (fromBase64 true s).toOption) ∧
      Codec (fun msg => output (luaToBase64 true msg)) (fun s => output (luaFromBase64 true s)) ∧
      ∀ allocOk s, Same (toBase64 allocOk s) (luaToBase64 allocOk s) ∧
        Same (fromBase64 allocOk s) (luaFromBase64 allocOk s) :=
  ⟨compMsg_codec, lua_codec, fun allocOk s => ⟨toBase64_same allocOk s, fromBase64_same allocOk s⟩⟩

end codecs

end NodeMcu.Encoder.RoundTrip
