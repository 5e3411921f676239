import NodeMcu.Coap.Codec
import Mathlib.Tactic.SplitIfs

namespace NodeMcu.Coap.OutputSafety

open NodeMcu.Coap.Codec

/-! ## The length of an encoding -/

/-- The bytes that a number takes behind its nibble. -/
def extLength (v : Nat) : Nat := if v < 13 then 0 else if v < 269 then 1 else 2

/-- The step to the number of an option. -/
def optDelta (prev : UInt16) (o : Opt) : UInt32 := (o.num.toUInt16 - prev).toUInt32

def headerLength (prev : UInt16) (o : Opt) : Nat :=
  1 + extLength (optDelta prev o).toNat + extLength o.buf.bytes.length

def optionLength (prev : UInt16) (o : Opt) : Nat := headerLength prev o + o.buf.bytes.length

def optionsLength : UInt16 → List Opt → Nat
  | _, [] => 0
  | prev, o :: os => optionLength prev o + optionsLength o.num.toUInt16 os

/-- A payload has a marker in front. -/
def payloadLength (payload : List UInt8) : Nat :=
  if payload = [] then 0 else 1 + payload.length

def encodedLength (pkt : Packet) : Nat :=
  4 + pkt.hdr.tkl.toNat + optionsLength 0 pkt.opts + payloadLength pkt.payload.bytes

/-- The token is as long as the header says, and the lengths have an encoding. -/
structure Encodable (pkt : Packet) : Prop where
  short : pkt.hdr.tkl ≤ 8
  token : pkt.tok.bytes.length = pkt.hdr.tkl.toNat
  values : ∀ o ∈ pkt.opts, o.buf.bytes.length ≤ 65535 + 269

/-! ## What is to hold of the output -/

/-- A store is inside the first `n` bytes. -/
def Inside (n : Nat) (w : Nat × List UInt8) : Prop := w.2 = [] ∨ w.1 + w.2.length ≤ n

/-- All stores are inside the buffer, and an encoding of `total` bytes is in the buffer or does
not fit. -/
structure Safe (buflen : UInt32) (total : Nat) (r : Built) : Prop where
  inside : ∀ w ∈ r.writes, Inside buflen.toNat w
  short : buflen.toNat < total → r.rc = Err.bufferTooSmall.code ∧ r.buflen = buflen
  fits : total ≤ buflen.toNat → r.rc = 0 ∧ r.buflen.toNat = total

/-- The sum that a payload at `p` is checked with does not wrap below the size of the buffer. -/
def PayloadSeen (buflen p n : Nat) : Prop := p + 1 + n < 2 ^ 32 ∨ buflen < (p + 1 + n) % 2 ^ 32

/-- From `p` on every option starts with 5 bytes left and ends in the buffer. An option with less
than that left has no value, something is behind it, and the encoding does not fit. -/
def Placed (buflen : Nat) (payload : List UInt8) : Nat → UInt16 → List Opt → Prop
  | p, _, [] => payload = [] ∨ PayloadSeen buflen p payload.length
  | p, prev, o :: os =>
    if p + 5 ≤ buflen then
      p + optionLength prev o ≤ buflen ∧
        Placed buflen payload (p + optionLength prev o) o.num.toUInt16 os
    else
      o.buf.bytes = [] ∧ buflen < p + optionsLength prev (o :: os) + payloadLength payload ∧
        (os ≠ [] ∨ payload ≠ [] ∧ PayloadSeen buflen (p + 9) payload.length)

/-- The buffer holds the header and the token, and the options are placed behind them. In a buffer
that does not, something follows. -/
def Sound (buflen : Nat) (pkt : Packet) : Prop :=
  if buflen < 4 + pkt.hdr.tkl.toNat then
    pkt.opts ≠ [] ∨ pkt.payload.bytes ≠ [] ∧
      PayloadSeen buflen (if buflen < 4 then 18 else 13) pkt.payload.bytes.length
  else Placed buflen pkt.payload.bytes (4 + pkt.hdr.tkl.toNat) 0 pkt.opts

/-! ## The parts of a message -/

theorem optionNibble_toNat (value : UInt32) (junk : UInt8) (h : value.toNat ≤ 65535 + 269) :
    (optionNibble value junk).toNat =
      if value.toNat < 13 then value.toNat else if value.toNat < 269 then 13 else 14 := by
  have hlt : value < 13 ↔ value.toNat < 13 := UInt32.lt_iff_toNat_lt
  have hle : value ≤ 0xFF + 13 ↔ value.toNat ≤ 268 := UInt32.le_iff_toNat_le
  have hle' : value ≤ 0xFFFF + 269 := UInt32.le_iff_toNat_le.mpr h
  rw [optionNibble]
  by_cases h13 : value.toNat < 13
  · rw [if_pos (hlt.mpr h13), if_pos h13, UInt32.toNat_toUInt8]
    omega
  · rw [if_neg fun hv => h13 (hlt.mp hv), if_neg h13]
    by_cases h269 : value.toNat < 269
    · rw [if_pos (hle.mpr (by omega)), if_pos h269]
      rfl
    · rw [if_neg fun hv => h269 (by have := hle.mp hv; omega), if_pos hle', if_neg h269]
      rfl

/-- The bytes behind a nibble, whatever they are. -/
theorem extension_length (value : UInt32) (junk : UInt8) (h : value.toNat ≤ 65535 + 269)
    (x y y' : UInt8) :
    (if optionNibble value junk = 13 then [x]
      else if optionNibble value junk = 14 then [y, y'] else []).length =
        extLength value.toNat := by
  have hnibble := optionNibble_toNat value junk h
  rw [extLength]
  by_cases h13 : value.toNat < 13
  · rw [if_pos h13] at hnibble ⊢
    have hne : ∀ {k : UInt8}, 13 ≤ k.toNat → optionNibble value junk ≠ k := fun hk hv => by
      rw [hv] at hnibble
      omega
    rw [if_neg (hne (by decide)), if_neg (hne (by decide))]
    rfl
  · rw [if_neg h13] at hnibble ⊢
    by_cases h269 : value.toNat < 269
    · rw [if_pos h269] at hnibble ⊢
      rw [if_pos (UInt8.toNat_inj.mp hnibble)]
      rfl
    · rw [if_neg h269] at hnibble ⊢
      rw [UInt8.toNat_inj.mp (hnibble.trans (by rfl : 14 = (14 : UInt8).toNat)),
        if_neg (by decide), if_pos rfl]
      rfl

theorem optionHeaderBytes_length (junk : UInt8) (delta length : UInt32)
    (hdelta : delta.toNat ≤ 65535 + 269) (hlength : length.toNat ≤ 65535 + 269) :
    (optionHeaderBytes junk delta length).length =
      1 + extLength delta.toNat + extLength length.toNat := by
  rw [optionHeaderBytes, List.length_cons, List.length_append, extension_length delta 0 hdelta,
    extension_length length junk hlength]
  omega

theorem extLength_le (v : Nat) : extLength v ≤ 2 := by
  rw [extLength]
  split_ifs <;> decide

theorem optDelta_le (prev : UInt16) (o : Opt) : (optDelta prev o).toNat ≤ 65535 + 269 := by
  have h := (o.num.toUInt16 - prev).toNat_lt
  rw [optDelta, UInt16.toNat_toUInt32]
  omega

theorem headerLength_le (prev : UInt16) (o : Opt) : headerLength prev o ≤ 5 := by
  have hdelta := extLength_le (optDelta prev o).toNat
  have hlength := extLength_le o.buf.bytes.length
  rw [headerLength]
  omega

/-! ## The payload -/

theorem payloadLength_nil : payloadLength [] = 0 := rfl

theorem payloadLength_ne {payload : List UInt8} (h : payload ≠ []) :
    payloadLength payload = 1 + payload.length := if_neg h

theorem zero_lt_len {b : Buffer} : 0 < b.len ↔ b.bytes ≠ [] := by
  rw [UInt32.lt_iff_toNat_lt, Buffer.len_toNat, ← List.length_pos_iff]
  rfl

theorem buildPayload_nil (buflen : UInt32) {payload : Buffer} {s : Out} (hlt : s.p < 2 ^ 32)
    (hnil : payload.bytes = []) :
    ∃ n : UInt32, n.toNat = s.p ∧ buildPayload buflen payload s = ⟨0, n, s.writes⟩ := by
  have hzero : ¬0 < payload.len := fun h => zero_lt_len.mp h hnil
  refine ⟨UInt32.ofNat s.p - 4 + 4, ?_, ?_⟩
  · rw [UInt32.sub_add_cancel, UInt32.toNat_ofNat']
    exact Nat.mod_eq_of_lt hlt
  · rw [buildPayload]
    exact if_neg hzero

/-- The payload goes to `p`, unless the sum that it is checked with is larger than the buffer. -/
theorem buildPayload_cons (buflen : UInt32) {payload : Buffer} {s : Out} (hp : 4 ≤ s.p)
    (hlt : s.p < 2 ^ 32) (hne : payload.bytes ≠ []) :
    ∃ n : UInt32, n.toNat = (s.p + 1 + payload.bytes.length) % 2 ^ 32 ∧
      buildPayload buflen payload s =
        if buflen.toNat < (s.p + 1 + payload.bytes.length) % 2 ^ 32 then
          ⟨Err.bufferTooSmall.code, buflen, s.writes⟩
        else ⟨0, n, s.writes ++ [(s.p, [0xFF]), (s.p + 1, payload.bytes)]⟩ := by
  have hoff : (UInt32.ofNat s.p - 4).toNat = s.p - 4 := by
    have hto : (UInt32.ofNat s.p).toNat = s.p := by
      rw [UInt32.toNat_ofNat']
      exact Nat.mod_eq_of_lt hlt
    rw [UInt32.toNat_sub_of_le _ _ (UInt32.le_iff_toNat_le.mpr (by rw [hto]; exact hp)), hto]
    rfl
  have hsum : (4 + 1 + payload.len + (UInt32.ofNat s.p - 4)).toNat =
      (s.p + 1 + payload.bytes.length) % 2 ^ 32 := by
    rw [UInt32.toNat_add, UInt32.toNat_add, hoff, payload.len_toNat]
    change ((5 + payload.bytes.length) % 2 ^ 32 + (s.p - 4)) % 2 ^ 32 = _
    omega
  have hvalue : (UInt32.ofNat s.p - 4 + 5 + payload.len).toNat =
      (s.p + 1 + payload.bytes.length) % 2 ^ 32 := by
    rw [UInt32.toNat_add, UInt32.toNat_add, hoff, payload.len_toNat]
    change ((s.p - 4 + 5) % 2 ^ 32 + payload.bytes.length) % 2 ^ 32 = _
    omega
  have hat : 4 + (s.p - 4) = s.p := by omega
  have hat' : 5 + (s.p - 4) = s.p + 1 := by omega
  refine ⟨_, hvalue, ?_⟩
  rw [buildPayload, if_pos (zero_lt_len.mpr hne)]
  rw [hoff, hat, hat']
  exact if_congr (by rw [UInt32.lt_iff_toNat_lt, hsum]) rfl rfl

theorem inside_append {n : Nat} {ws vs : List (Nat × List UInt8)} :
    (∀ w ∈ ws ++ vs, Inside n w) ↔ (∀ w ∈ ws, Inside n w) ∧ ∀ w ∈ vs, Inside n w :=
  List.forall_mem_append

theorem inside_cons {n : Nat} {w : Nat × List UInt8} {ws : List (Nat × List UInt8)} :
    (∀ v ∈ w :: ws, Inside n v) ↔ Inside n w ∧ ∀ v ∈ ws, Inside n v :=
  List.forall_mem_cons

/-- A payload at a place in the buffer. -/
theorem safe_buildPayload {buflen : UInt32} {payload : Buffer} {s : Out} (hp : 4 ≤ s.p)
    (hle : s.p ≤ buflen.toNat) (hinside : ∀ w ∈ s.writes, Inside buflen.toNat w) :
    Safe buflen (s.p + payloadLength payload.bytes) (buildPayload buflen payload s) ↔
      payload.bytes = [] ∨ PayloadSeen buflen.toNat s.p payload.bytes.length := by
  have hlt := buflen.toNat_lt
  by_cases hnil : payload.bytes = []
  · obtain ⟨n, hn, heq⟩ := buildPayload_nil buflen (by omega : s.p < 2 ^ 32) hnil
    rw [heq, hnil, payloadLength_nil]
    refine iff_of_true ⟨hinside, fun h => ?_, fun _ => ⟨rfl, hn⟩⟩ (.inl rfl)
    omega
  · obtain ⟨n, hn, heq⟩ := buildPayload_cons buflen hp (by omega) hnil
    rw [heq, payloadLength_ne hnil, PayloadSeen]
    by_cases hcheck : buflen.toNat < (s.p + 1 + payload.bytes.length) % 2 ^ 32
    · rw [if_pos hcheck]
      refine iff_of_true ⟨hinside, fun _ => ⟨rfl, rfl⟩, fun h => ?_⟩ (.inr (.inr hcheck))
      have hmod := Nat.mod_le (s.p + 1 + payload.bytes.length) (2 ^ 32)
      omega
    · rw [if_neg hcheck]
      constructor
      · intro hsafe
        refine .inr (.inl ?_)
        by_contra hlarge
        have herr := (hsafe.short (by omega)).1
        cases herr
      · rintro (h | h | h)
        · exact absurd h hnil
        · rw [Nat.mod_eq_of_lt h] at hcheck hn
          refine ⟨inside_append.mpr ⟨hinside, inside_cons.mpr ⟨.inr ?_, inside_cons.mpr
            ⟨.inr ?_, fun w hw => absurd hw List.not_mem_nil⟩⟩⟩, fun h' => ?_, fun _ => ⟨rfl, ?_⟩⟩
          · rw [List.length_singleton]
            omega
          · change s.p + 1 + payload.bytes.length ≤ _
            omega
          · omega
          · rw [hn]
            omega
        · exact absurd h hcheck

/-- A payload behind a place outside. -/
theorem safe_buildPayload_outside {buflen : UInt32} {payload : Buffer} {s : Out} {total : Nat}
    (hp : 4 ≤ s.p) (hlt : s.p < 2 ^ 32) (hout : buflen.toNat < s.p)
    (hinside : ∀ w ∈ s.writes, Inside buflen.toNat w)
    (htotal : payload.bytes = [] → total ≠ s.p) :
    Safe buflen total (buildPayload buflen payload s) ↔ buflen.toNat < total ∧
      payload.bytes ≠ [] ∧ PayloadSeen buflen.toNat s.p payload.bytes.length := by
  by_cases hnil : payload.bytes = []
  · obtain ⟨n, hn, heq⟩ := buildPayload_nil buflen hlt hnil
    rw [heq]
    refine iff_of_false (fun h => ?_) fun h => h.2.1 hnil
    by_cases htot : buflen.toNat < total
    · cases (h.short htot).1
    · exact htotal hnil ((h.fits (by omega)).2.symm.trans hn)
  · obtain ⟨n, hn, heq⟩ := buildPayload_cons buflen hp hlt hnil
    rw [heq, PayloadSeen]
    by_cases hcheck : buflen.toNat < (s.p + 1 + payload.bytes.length) % 2 ^ 32
    · rw [if_pos hcheck]
      constructor
      · intro h
        refine ⟨?_, hnil, .inr hcheck⟩
        by_contra htot
        cases (h.fits (by omega)).1
      · rintro ⟨htot, -⟩
        exact ⟨hinside, fun _ => ⟨rfl, rfl⟩, fun h => absurd htot (by omega)⟩
    · rw [if_neg hcheck]
      refine iff_of_false (fun h => ?_) fun h => ?_
      · have hin := (inside_cons.mp (inside_append.mp h.inside).2).1
        obtain hin | hin := hin
        · cases hin
        · rw [List.length_singleton] at hin
          omega
      · obtain h | h := h.2.2
        · rw [Nat.mod_eq_of_lt h] at hcheck
          omega
        · exact hcheck h

/-! ## The options -/

section Options

variable {junk : UInt8} {buflen : UInt32} {payload : Buffer} {s : Out} {o : Opt} {os : List Opt}

/-- What is counted as left, where the place is in the buffer. -/
theorem left_toNat (hleft : s.left = buflen - UInt32.ofNat s.p) (hle : s.p ≤ buflen.toNat) :
    s.left.toNat = buflen.toNat - s.p := by
  have hlt := buflen.toNat_lt
  have hto : (UInt32.ofNat s.p).toNat = s.p := by
    rw [UInt32.toNat_ofNat']
    exact Nat.mod_eq_of_lt (by omega)
  rw [hleft, UInt32.toNat_sub_of_le _ _ (UInt32.le_iff_toNat_le.mpr (by rw [hto]; exact hle)), hto]

theorem sub_sub_eq (a b c : UInt32) : a - b - c = a - (b + c) := by
  rw [UInt32.sub_eq_add_neg a, UInt32.sub_eq_add_neg, UInt32.sub_eq_add_neg, UInt32.neg_add,
    UInt32.add_assoc, UInt32.sub_eq_add_neg]

theorem buildOption_left (junk : UInt8) (o : Opt) (hleft : s.left = buflen - UInt32.ofNat s.p) :
    (buildOption junk o s).left = buflen - UInt32.ofNat (buildOption junk o s).p := by
  rw [buildOption]
  dsimp only
  rw [hleft, sub_sub_eq, sub_sub_eq, Buffer.len, UInt32.ofNat_add, UInt32.ofNat_add,
    UInt32.add_assoc]

/-- An option that starts with 5 bytes left. -/
theorem buildOption_room (junk : UInt8) (hleft : s.left = buflen - UInt32.ofNat s.p)
    (hroom : s.p + 5 ≤ buflen.toNat) (hvalue : o.buf.bytes.length ≤ 65535 + 269) :
    (optionHeaderBytes junk (optDelta s.running o) o.buf.len).length = headerLength s.running o ∧
      (buildOption junk o s).p = s.p + optionLength s.running o ∧
      (buildOption junk o s).running = o.num.toUInt16 ∧
      (buildOption junk o s).writes = s.writes ++
        [(s.p, optionHeaderBytes junk (optDelta s.running o) o.buf.len),
          (s.p + headerLength s.running o, o.buf.bytes)] := by
  have hto := left_toNat hleft (by omega)
  have hfive : ¬s.left < 5 := fun h => by
    have h := UInt32.lt_iff_toNat_lt.mp h
    change s.left.toNat < 5 at h
    omega
  have hlen := o.buf.len_toNat
  have hbytes : (optionHeaderBytes junk (optDelta s.running o) o.buf.len).length =
      headerLength s.running o := by
    rw [optionHeaderBytes_length _ _ _ (optDelta_le s.running o) (by omega), hlen]
    rfl
  refine ⟨hbytes, ?_, rfl, ?_⟩
  · rw [buildOption, buildOptionHeader, if_neg hfive]
    change s.p + (optionHeaderBytes junk (optDelta s.running o) o.buf.len).length +
      o.buf.bytes.length = _
    rw [hbytes, optionLength, Nat.add_assoc]
  · rw [buildOption, buildOptionHeader, if_neg hfive]
    change s.writes ++ [(s.p, optionHeaderBytes junk (optDelta s.running o) o.buf.len),
      (s.p + (optionHeaderBytes junk (optDelta s.running o) o.buf.len).length, o.buf.bytes)] = _
    rw [hbytes]

/-- With less than 5 bytes left, the code of the error is taken for the length of the header. -/
theorem buildOption_short (junk : UInt8) (o : Opt)
    (hleft : s.left = buflen - UInt32.ofNat s.p) (hle : s.p ≤ buflen.toNat)
    (hshort : buflen.toNat < s.p + 5) :
    (buildOption junk o s).p = s.p + 9 + o.buf.bytes.length ∧
      (buildOption junk o s).writes = s.writes ++ [(s.p, []), (s.p + 9, o.buf.bytes)] := by
  have hto := left_toNat hleft hle
  have hfive : s.left < 5 := UInt32.lt_iff_toNat_lt.mpr (by change s.left.toNat < 5; omega)
  rw [buildOption, buildOptionHeader, if_pos hfive]
  exact ⟨rfl, rfl⟩

/-- What has been stored stays stored. -/
theorem buildPayload_writes (s : Out) :
    ∃ ws, (buildPayload buflen payload s).writes = s.writes ++ ws := by
  rw [buildPayload]
  split_ifs
  · exact ⟨[], (List.append_nil _).symm⟩
  · exact ⟨_, rfl⟩
  · exact ⟨[], (List.append_nil _).symm⟩

theorem buildOptions_writes (junk : UInt8) (buflen : UInt32) (payload : Buffer) (os : List Opt)
    (s : Out) :
    ∃ ws, (buildOptions junk buflen payload os s).writes = s.writes ++ ws := by
  induction os generalizing s with
  | nil => exact buildPayload_writes s
  | cons o os ih =>
    rw [buildOptions]
    split_ifs
    · exact ⟨[], (List.append_nil _).symm⟩
    · obtain ⟨ws, hws⟩ := ih (buildOption junk o s)
      rw [hws, buildOption, List.append_assoc]
      exact ⟨_, rfl⟩

/-- An unsafe store makes the output unsafe. -/
theorem not_safe {total : Nat} {w : Nat × List UInt8} (hw : w ∈ s.writes)
    (hout : ¬Inside buflen.toNat w) :
    ¬Safe buflen total (buildOptions junk buflen payload os s) := by
  obtain ⟨ws, hws⟩ := buildOptions_writes junk buflen payload os s
  intro h
  exact hout (h.inside w (by rw [hws]; exact List.mem_append_left _ hw))

/-- A place outside the buffer is noticed at the next option. -/
theorem buildOptions_outside (hne : os ≠ []) (hout : buflen.toNat < s.p) (hlt : s.p < 2 ^ 32) :
    buildOptions junk buflen payload os s = ⟨Err.bufferTooSmall.code, buflen, s.writes⟩ := by
  cases os with
  | nil => exact absurd rfl hne
  | cons o os =>
    rw [buildOptions, if_pos]
    rw [UInt32.lt_iff_toNat_lt, UInt32.toNat_ofNat', Nat.mod_eq_of_lt hlt]
    exact hout

/-- With less than 5 bytes left for an option, it is safe where it has no value and what is behind
it notices that the buffer is too small. -/
theorem safe_behind_short {o : Opt} (hleft : s.left = buflen - UInt32.ofNat s.p)
    (hle : s.p ≤ buflen.toNat) (hinside : ∀ w ∈ s.writes, Inside buflen.toNat w)
    (hbound : s.p + optionsLength s.running (o :: os) + 9 < 2 ^ 32)
    (hshort : buflen.toNat < s.p + 5) :
    Safe buflen (s.p + optionsLength s.running (o :: os) + payloadLength payload.bytes)
        (buildOptions junk buflen payload os (buildOption junk o s)) ↔
      o.buf.bytes = [] ∧
        buflen.toNat < s.p + optionsLength s.running (o :: os) + payloadLength payload.bytes ∧
        (os ≠ [] ∨ payload.bytes ≠ [] ∧
          PayloadSeen buflen.toNat (s.p + 9) payload.bytes.length) := by
  obtain ⟨hp', hwrites⟩ := buildOption_short junk o hleft hle hshort
  have hheader := headerLength_le s.running o
  have hoption : optionLength s.running o =
    headerLength s.running o + o.buf.bytes.length := rfl
  have hlength : optionsLength s.running (o :: os) =
    optionLength s.running o + optionsLength o.num.toUInt16 os := rfl
  by_cases hnil : o.buf.bytes = []
  · have hzero : o.buf.bytes.length = 0 := congrArg List.length hnil
    have hinside' : ∀ w ∈ (buildOption junk o s).writes, Inside buflen.toNat w := by
      rw [hwrites]
      exact inside_append.mpr ⟨hinside, inside_cons.mpr ⟨.inl rfl, inside_cons.mpr
        ⟨.inl hnil, fun w hw => absurd hw List.not_mem_nil⟩⟩⟩
    rw [hzero, Nat.add_zero] at hp'
    by_cases hos : os = []
    · subst hos
      rw [buildOptions, safe_buildPayload_outside (by omega) (by omega) (by omega) hinside'
        (fun h => by rw [h, payloadLength_nil, hlength, hp', optionsLength]; omega), hp']
      constructor
      · rintro ⟨h1, h2, h3⟩
        exact ⟨hnil, h1, .inr ⟨h2, h3⟩⟩
      · rintro ⟨-, h1, h2 | ⟨h2, h3⟩⟩
        · exact absurd rfl h2
        · exact ⟨h1, h2, h3⟩
    · rw [buildOptions_outside hos (by omega) (by omega)]
      constructor
      · intro h
        refine ⟨hnil, ?_, .inl hos⟩
        by_contra hlt
        cases (h.fits (by omega)).1
      · rintro ⟨-, hlt, -⟩
        exact ⟨hinside', fun _ => ⟨rfl, rfl⟩, fun h => absurd hlt (by omega)⟩
  · refine iff_of_false (not_safe (w := (s.p + 9, o.buf.bytes)) ?_ ?_) fun h => hnil h.1
    · rw [hwrites]
      exact List.mem_append_right _ (List.mem_cons_of_mem _ List.mem_cons_self)
    · rintro (h | h)
      · exact hnil h
      · change s.p + 9 + o.buf.bytes.length ≤ _ at h
        omega

/-- From a place in the buffer on, the output is safe exactly where the options are placed. The
induction is on the options. -/
theorem safe_buildOptions (hleft : s.left = buflen - UInt32.ofNat s.p) (hp : 4 ≤ s.p)
    (hle : s.p ≤ buflen.toNat) (hinside : ∀ w ∈ s.writes, Inside buflen.toNat w)
    (hvalues : ∀ o ∈ os, o.buf.bytes.length ≤ 65535 + 269)
    (hbound : s.p + optionsLength s.running os + 9 < 2 ^ 32) :
    Safe buflen (s.p + optionsLength s.running os + payloadLength payload.bytes)
        (buildOptions junk buflen payload os s) ↔
      Placed buflen.toNat payload.bytes s.p s.running os := by
  induction os generalizing s with
  | nil => exact safe_buildPayload hp hle hinside
  | cons o os ih =>
    obtain ⟨hvalue, hvalues⟩ := List.forall_mem_cons.mp hvalues
    have hin : ¬buflen < UInt32.ofNat s.p := by
      rw [UInt32.lt_iff_toNat_lt, UInt32.toNat_ofNat', Nat.mod_eq_of_lt (by omega)]
      omega
    have hheader := headerLength_le s.running o
    have hoption : optionLength s.running o =
      headerLength s.running o + o.buf.bytes.length := rfl
    have hlength : optionsLength s.running (o :: os) =
      optionLength s.running o + optionsLength o.num.toUInt16 os := rfl
    have hleft' := buildOption_left junk o hleft
    rw [buildOptions, if_neg hin, Placed]
    by_cases hroom : s.p + 5 ≤ buflen.toNat
    · obtain ⟨hbytes, hp', hrunning, hwrites⟩ := buildOption_room junk hleft hroom hvalue
      rw [if_pos hroom]
      by_cases hfit : s.p + optionLength s.running o ≤ buflen.toNat
      · have hinside' : ∀ w ∈ (buildOption junk o s).writes, Inside buflen.toNat w := by
          rw [hwrites]
          refine inside_append.mpr ⟨hinside, inside_cons.mpr ⟨.inr ?_, inside_cons.mpr ⟨.inr ?_,
            fun w hw => absurd hw List.not_mem_nil⟩⟩⟩
          · rw [hbytes]
            change s.p + headerLength s.running o ≤ _
            omega
          · change s.p + headerLength s.running o + o.buf.bytes.length ≤ _
            omega
        have h := ih hleft' (by omega) (by omega) hinside' hvalues (by rw [hp', hrunning]; omega)
        rw [hp', hrunning, Nat.add_assoc s.p, ← hlength] at h
        rw [h]
        exact (and_iff_right hfit).symm
      · refine iff_of_false (not_safe (w := (s.p + headerLength s.running o, o.buf.bytes)) ?_ ?_)
          fun h => hfit h.1
        · rw [hwrites]
          exact List.mem_append_right _ (List.mem_cons_of_mem _ List.mem_cons_self)
        · rintro (h | h)
          · change o.buf.bytes = [] at h
            have hzero := congrArg List.length h
            rw [List.length_nil] at hzero
            omega
          · change s.p + headerLength s.running o + o.buf.bytes.length ≤ _ at h
            omega
    · rw [if_neg hroom]
      exact safe_behind_short hleft hle hinside hbound (by omega)

end Options

/-! ## The whole message -/

theorem optionLength_le (prev : UInt16) (o : Opt) (h : o.buf.bytes.length ≤ 65535 + 269) :
    optionLength prev o ≤ 65809 := by
  have hheader := headerLength_le prev o
  rw [optionLength]
  omega

theorem optionsLength_le (prev : UInt16) (os : List Opt)
    (h : ∀ o ∈ os, o.buf.bytes.length ≤ 65535 + 269) :
    optionsLength prev os ≤ 65809 * os.length := by
  induction os generalizing prev with
  | nil => exact Nat.zero_le _
  | cons o os ih =>
    obtain ⟨ho, hos⟩ := List.forall_mem_cons.mp h
    have hone := optionLength_le prev o ho
    have hrest := ih o.num.toUInt16 hos
    rw [optionsLength, List.length_cons]
    omega

/-- Behind a buffer that does not hold the header and the token. -/
theorem safe_outside {junk : UInt8} {buflen : UInt32} {payload : Buffer} {s : Out}
    {os : List Opt} {total : Nat} (hp : 4 ≤ s.p) (hlt : s.p < 2 ^ 32) (hout : buflen.toNat < s.p)
    (hinside : ∀ w ∈ s.writes, Inside buflen.toNat w) (hlarge : buflen.toNat < total)
    (htotal : os = [] → payload.bytes = [] → total ≠ s.p) :
    Safe buflen total (buildOptions junk buflen payload os s) ↔
      os ≠ [] ∨ payload.bytes ≠ [] ∧ PayloadSeen buflen.toNat s.p payload.bytes.length := by
  by_cases hos : os = []
  · subst hos
    rw [buildOptions, safe_buildPayload_outside hp hlt hout hinside (htotal rfl)]
    constructor
    · rintro ⟨-, h⟩
      exact .inr h
    · rintro (h | h)
      · exact absurd rfl h
      · exact ⟨hlarge, h⟩
  · rw [buildOptions_outside hos hout hlt]
    exact iff_of_true ⟨hinside, fun _ => ⟨rfl, rfl⟩, fun h => absurd hlarge (by omega)⟩ (.inl hos)

theorem tokenEnd_toNat {hdr : Header} (h : hdr.tkl ≤ 8) :
    (4 + hdr.tkl.toUInt32).toNat = 4 + hdr.tkl.toNat := by
  have htkl : hdr.tkl.toNat ≤ 8 := UInt8.le_iff_toNat_le.mp h
  rw [UInt32.toNat_add, UInt8.toNat_toUInt32]
  change (4 + hdr.tkl.toNat) % 2 ^ 32 = _
  omega

/-- The state behind the header and the token. -/
def start (buflen : UInt32) (pkt : Packet) : Out :=
  ⟨4 + pkt.hdr.tkl.toNat, buflen - UInt32.ofNat (4 + pkt.hdr.tkl.toNat), 0,
    [(0, headerBytes pkt.hdr), (4, pkt.tok.bytes)]⟩

/-- A buffer that holds the header and the token. -/
theorem build_room (junk : UInt8) {buflen : UInt32} {pkt : Packet} (h : Encodable pkt)
    (hroom : 4 + pkt.hdr.tkl.toNat ≤ buflen.toNat) :
    build junk buflen pkt = buildOptions junk buflen pkt.payload pkt.opts (start buflen pkt) := by
  have hhead : ¬buflen < 4 := fun hlt => by
    have hlt : buflen.toNat < 4 := UInt32.lt_iff_toNat_lt.mp hlt
    omega
  have htok : ¬buflen < 4 + pkt.hdr.tkl.toUInt32 := fun hlt => by
    rw [UInt32.lt_iff_toNat_lt, tokenEnd_toNat h.short] at hlt
    omega
  have hmatch : ¬(0 < pkt.hdr.tkl ∧ pkt.hdr.tkl.toUInt32 ≠ pkt.tok.len) := fun hne => by
    refine hne.2 (UInt32.toNat_inj.mp ?_)
    rw [UInt8.toNat_toUInt32, Buffer.len_toNat, h.token]
  have hbytes : (if 0 < pkt.hdr.tkl then pkt.tok.bytes else []) = pkt.tok.bytes := by
    split_ifs with hpos
    · rfl
    · have hzero : pkt.hdr.tkl.toNat = 0 :=
        Nat.eq_zero_of_not_pos fun h => hpos (UInt8.lt_iff_toNat_lt.mpr h)
      exact (List.eq_nil_of_length_eq_zero (h.token.trans hzero)).symm
  rw [build, buildHeader, if_neg hhead, buildToken, if_neg htok, if_neg hmatch, hbytes,
    sub_sub_eq, ← UInt32.ofNat_add, start]

theorem build_safe_iff (junk : UInt8) (buflen : UInt32) (pkt : Packet) (h : Encodable pkt) :
    Safe buflen (encodedLength pkt) (build junk buflen pkt) ↔ Sound buflen.toNat pkt := by
  have hencodable := h
  obtain ⟨hshort, htoken, hvalues⟩ := h
  have htkl : pkt.hdr.tkl.toNat ≤ 8 := UInt8.le_iff_toNat_le.mp hshort
  have hhead : buflen < 4 ↔ buflen.toNat < 4 := UInt32.lt_iff_toNat_lt
  have htok : buflen < 4 + pkt.hdr.tkl.toUInt32 ↔ buflen.toNat < 4 + pkt.hdr.tkl.toNat := by
    rw [UInt32.lt_iff_toNat_lt, tokenEnd_toNat hshort]
  have hnil : pkt.opts = [] → pkt.payload.bytes = [] →
      encodedLength pkt = 4 + pkt.hdr.tkl.toNat := fun hopts hpayload => by
    rw [encodedLength, hopts, hpayload, payloadLength_nil]
    rfl
  have hlarge : 4 + pkt.hdr.tkl.toNat ≤ encodedLength pkt := by
    rw [encodedLength]
    omega
  have hheader : (headerBytes pkt.hdr).length = 4 := rfl
  rw [Sound]
  by_cases hsmall : buflen.toNat < 4 + pkt.hdr.tkl.toNat
  · rw [if_pos hsmall, build, buildToken, if_pos (htok.mpr hsmall), buildHeader]
    by_cases hfour : buflen.toNat < 4
    · rw [if_pos (hhead.mpr hfour), if_pos hfour]
      refine safe_outside (by decide : 4 ≤ 18) (by decide : 18 < 2 ^ 32) (by omega : _ < 18)
        (inside_cons.mpr ⟨.inl rfl, inside_cons.mpr ⟨.inl rfl, fun w hw =>
          absurd hw List.not_mem_nil⟩⟩) (by omega) fun h1 h2 => ?_
      rw [hnil h1 h2]
      change _ ≠ 18
      omega
    · rw [if_neg fun hlt => hfour (hhead.mp hlt), if_neg hfour]
      refine safe_outside (by decide : 4 ≤ 13) (by decide : 13 < 2 ^ 32) (by omega : _ < 13)
        (inside_cons.mpr ⟨.inr ?_, inside_cons.mpr ⟨.inl rfl, fun w hw =>
          absurd hw List.not_mem_nil⟩⟩) (by omega) fun h1 h2 => ?_
      · change 0 + 4 ≤ _
        omega
      · rw [hnil h1 h2]
        change _ ≠ 13
        omega
  · have hopts := optionsLength_le 0 pkt.opts hvalues
    have hcount : pkt.opts.length ≤ 16 := pkt.numopts
    rw [if_neg hsmall, build_room junk hencodable (by omega)]
    refine safe_buildOptions (s := start buflen pkt) rfl (Nat.le_add_right _ _)
      (Nat.le_of_not_lt hsmall) ?_ hvalues ?_
    · refine inside_cons.mpr ⟨.inr ?_, inside_cons.mpr ⟨.inr ?_, fun w hw =>
        absurd hw List.not_mem_nil⟩⟩
      · change 0 + 4 ≤ _
        omega
      · change 4 + pkt.tok.bytes.length ≤ _
        omega
    · change 4 + pkt.hdr.tkl.toNat + optionsLength 0 pkt.opts + 9 < _
      omega

/-- A request without a token for the path `ab`. -/
def pathRequest : Packet :=
  ⟨⟨1, 0, 0, 1, (0, 1)⟩, .empty, [⟨11, ⟨[0x61, 0x62], by decide⟩⟩], .empty, by decide⟩

theorem pathRequest_encodable : Encodable pathRequest := ⟨by decide, rfl, by decide⟩

theorem pathRequest_safe : Safe 9 (encodedLength pathRequest) (build 0 9 pathRequest) := by
  refine (build_safe_iff 0 9 pathRequest pathRequest_encodable).mpr ?_
  rw [Sound, if_neg (by decide)]
  exact ⟨by decide, .inl rfl⟩

/-- Where the 7 bytes just fit, the value is stored outside. -/
theorem pathRequest_not_safe :
    Encodable pathRequest ∧ ¬Safe 7 (encodedLength pathRequest) (build 0 7 pathRequest) := by
  refine ⟨pathRequest_encodable, fun h => ?_⟩
  obtain h | h := h.inside (13, [0x61, 0x62]) (by decide)
  · cases h
  · exact absurd h (by decide)

end NodeMcu.Coap.OutputSafety
