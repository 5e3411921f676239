import NodeMcu.Coap.Fidelity
import NodeMcu.Coap.OutputSafety

namespace NodeMcu.Coap.RoundTrip

open NodeMcu.Lib.Memory NodeMcu.Coap.Codec NodeMcu.Coap.Fidelity NodeMcu.Coap.OutputSafety

/-! ## What is built -/

def optionsBytes (junk : UInt8) : UInt16 → List Opt → List UInt8
  | _, [] => []
  | prev, o :: os =>
    optionHeaderBytes junk (optDelta prev o) o.buf.len ++ o.buf.bytes ++
      optionsBytes junk o.num.toUInt16 os

def payloadBytes (payload : List UInt8) : List UInt8 :=
  if payload = [] then [] else 0xFF :: payload

def encoded (junk : UInt8) (pkt : Packet) : List UInt8 :=
  headerBytes pkt.hdr ++ pkt.tok.bytes ++ optionsBytes junk 0 pkt.opts ++
    payloadBytes pkt.payload.bytes

/-- The bytes of the buffer that a message takes. -/
def message (m : Mem) (r : Built) : Buffer :=
  ⟨read (stored m r.writes) 0 r.buflen.toNat, by rw [read_length]; exact r.buflen.toNat_lt⟩

/-- Everything up to a place has been stored. -/
def Holds (m : Mem) (ws : List (Nat × List UInt8)) (bs : List UInt8) : Prop :=
  read (stored m ws) 0 bs.length = bs

theorem Holds.append {m : Mem} {ws : List (Nat × List UInt8)} {bs : List UInt8}
    (h : Holds m ws bs) (as : List UInt8) :
    Holds m (ws ++ [(bs.length, as)]) (bs ++ as) := by
  rw [Holds, stored, List.foldl_append, List.foldl_cons, List.foldl_nil, ← stored,
    List.length_append, read_add, read_write_before _ _ _ _ _ (by omega), h, Int.zero_add,
    read_write]

theorem optionsBytes_length (junk : UInt8) (prev : UInt16) (os : List Opt)
    (hvalues : ∀ o ∈ os, o.buf.bytes.length ≤ 65535 + 269) :
    (optionsBytes junk prev os).length = optionsLength prev os := by
  induction os generalizing prev with
  | nil => rfl
  | cons o os ih =>
    obtain ⟨ho, hos⟩ := List.forall_mem_cons.mp hvalues
    have hlen := o.buf.len_toNat
    rw [optionsBytes, optionsLength, optionLength, headerLength, List.length_append,
      List.length_append, ih _ hos, optionHeaderBytes_length _ _ _ (optDelta_le prev o) (by omega),
      hlen]

theorem payloadBytes_length (payload : List UInt8) :
    (payloadBytes payload).length = payloadLength payload := by
  rw [payloadBytes, payloadLength]
  split_ifs
  · rfl
  · rw [List.length_cons, Nat.add_comm]

/-- From a place on with room for every header, the rest of the message is stored in order, and
its length comes back. -/
theorem buildOptions_holds (junk : UInt8) {m : Mem} {buflen : UInt32} {payload : Buffer} {s : Out}
    {os : List Opt} {bs : List UInt8} (hleft : s.left = buflen - UInt32.ofNat s.p) (hp : 4 ≤ s.p)
    (hvalues : ∀ o ∈ os, o.buf.bytes.length ≤ 65535 + 269)
    (hplaced : Placed buflen.toNat payload.bytes s.p s.running os)
    (hfits : s.p + optionsLength s.running os + payloadLength payload.bytes ≤ buflen.toNat)
    (hlength : bs.length = s.p) (hholds : Holds m s.writes bs) :
    (buildOptions junk buflen payload os s).rc = 0 ∧
      (buildOptions junk buflen payload os s).buflen.toNat =
        s.p + optionsLength s.running os + payloadLength payload.bytes ∧
      Holds m (buildOptions junk buflen payload os s).writes
        (bs ++ optionsBytes junk s.running os ++ payloadBytes payload.bytes) := by
  have hlt := buflen.toNat_lt
  induction os generalizing s bs with
  | nil =>
    rw [buildOptions, optionsBytes, List.append_nil]
    change s.p + 0 + payloadLength payload.bytes ≤ buflen.toNat at hfits
    change _ ∧ _ = s.p + 0 + payloadLength payload.bytes ∧ _
    by_cases hnil : payload.bytes = []
    · obtain ⟨n, hn, heq⟩ := buildPayload_nil buflen (by omega : s.p < 2 ^ 32) hnil
      rw [heq, hnil, payloadBytes, if_pos rfl, List.append_nil]
      exact ⟨rfl, hn, hholds⟩
    · rw [payloadLength_ne hnil] at hfits ⊢
      obtain ⟨n, hn, heq⟩ := buildPayload_cons buflen hp (by omega) hnil
      rw [Nat.mod_eq_of_lt (by omega)] at hn heq
      rw [heq, if_neg (by omega), payloadBytes, if_neg hnil]
      refine ⟨rfl, by rw [hn]; omega, ?_⟩
      have h1 := hholds.append [0xFF]
      have h2 := h1.append payload.bytes
      rw [List.append_assoc, List.append_assoc, hlength, List.length_append, hlength] at h2
      exact h2
  | cons o os ih =>
    obtain ⟨ho, hos⟩ := List.forall_mem_cons.mp hvalues
    have hheader := headerLength_le s.running o
    have hcons : optionsLength s.running (o :: os) =
      optionLength s.running o + optionsLength o.num.toUInt16 os := rfl
    rw [Placed] at hplaced
    split_ifs at hplaced with hroom
    · obtain ⟨hbytes, hp', hrunning, hwrites⟩ := buildOption_room junk hleft hroom ho
      have hin : ¬buflen < UInt32.ofNat s.p := by
        rw [UInt32.lt_iff_toNat_lt, UInt32.toNat_ofNat', Nat.mod_eq_of_lt (by omega)]
        omega
      have h1 := hholds.append (optionHeaderBytes junk (optDelta s.running o) o.buf.len)
      have h2 := h1.append o.buf.bytes
      rw [List.append_assoc, List.append_assoc, hlength, List.length_append, hlength, hbytes,
        List.singleton_append, ← hwrites] at h2
      have h := ih (buildOption_left junk o hleft) (by omega) hos
        (by rw [hp', hrunning]; exact hplaced.2) (by rw [hp', hrunning]; omega)
        (by
          rw [List.length_append, List.length_append, hbytes, hlength, hp', optionLength]) h2
      rw [buildOptions, if_neg hin, optionsBytes, hcons]
      rw [hp', hrunning] at h
      refine ⟨h.1, by rw [h.2.1]; omega, ?_⟩
      have happ := h.2.2
      simp only [List.append_assoc] at happ ⊢
      exact happ
    · exact absurd hplaced.2.1 (by omega)

/-! ## What is parsed -/

/-- A number with at most one byte behind its nibble, whatever the two bytes would be. -/
theorem number_short (value : UInt32) (junk : UInt8) (h : value.toNat < 269)
    (two rest : List UInt8) :
    number (optionNibble value junk).toNat
      ((if optionNibble value junk = 13 then [(value - 13).toUInt8]
        else if optionNibble value junk = 14 then two else []) ++ rest) =
      some (value.toNat, rest) := by
  have hnibble := optionNibble_toNat value junk (by omega)
  by_cases h13 : value.toNat < 13
  · rw [if_pos h13] at hnibble
    have hne : ∀ {k : UInt8}, 13 ≤ k.toNat → optionNibble value junk ≠ k := fun hk hv => by
      rw [hv] at hnibble
      omega
    rw [if_neg (hne (by decide)), if_neg (hne (by decide)), hnibble, List.nil_append]
    exact if_pos h13
  · rw [if_neg h13, if_pos h] at hnibble
    have hsub : (value - 13).toUInt8.toNat = value.toNat - 13 := by
      have hle : (13 : UInt32) ≤ value := UInt32.le_iff_toNat_le.mpr (Nat.le_of_not_lt h13)
      rw [UInt32.toNat_toUInt8, UInt32.toNat_sub_of_le _ _ hle]
      change (value.toNat - 13) % 2 ^ 8 = value.toNat - 13
      omega
    rw [if_pos (UInt8.toNat_inj.mp hnibble), hnibble]
    change some ((value - 13).toUInt8.toNat + 13, rest) = _
    rw [hsub]
    congr 2
    omega

theorem optionNibble_long (value : UInt32) (junk : UInt8) (h : value.toNat ≤ 65535 + 269)
    (h269 : 269 ≤ value.toNat) : optionNibble value junk = 14 := by
  have hnibble := optionNibble_toNat value junk h
  rw [if_neg (by omega), if_neg (by omega)] at hnibble
  exact UInt8.toNat_inj.mp hnibble

/-- The low one of two bytes. -/
theorem low_toNat {value : UInt32} (h269 : 269 ≤ value.toNat) :
    (value - 269).toUInt8.toNat = (value.toNat - 269) % 256 := by
  have hle : (269 : UInt32) ≤ value := UInt32.le_iff_toNat_le.mpr h269
  rw [UInt32.toNat_toUInt8, UInt32.toNat_sub_of_le _ _ hle]
  rfl

/-- A delta, with the high byte of what is left of it. -/
theorem number_delta (value : UInt32) (junk : UInt8) (h : value.toNat ≤ 65535 + 269)
    (rest : List UInt8) :
    number (optionNibble value junk).toNat
      ((if optionNibble value junk = 13 then [(value - 13).toUInt8]
        else if optionNibble value junk = 14 then
          [((value - 269) >>> 8).toUInt8, (value - 269).toUInt8]
        else []) ++ rest) = some (value.toNat, rest) := by
  by_cases h269 : value.toNat < 269
  · exact number_short value junk h269 _ rest
  · have hle : (269 : UInt32) ≤ value := UInt32.le_iff_toNat_le.mpr (Nat.le_of_not_lt h269)
    have hhigh : ((value - 269) >>> 8).toUInt8.toNat = (value.toNat - 269) / 256 := by
      rw [UInt32.toNat_toUInt8, UInt32.toNat_shiftRight, UInt32.toNat_sub_of_le _ _ hle]
      change (value.toNat - 269) >>> 8 % 2 ^ 8 = _
      rw [Nat.shiftRight_eq_div_pow]
      omega
    rw [optionNibble_long value junk h (Nat.le_of_not_lt h269), if_neg (by decide), if_pos rfl]
    change some (((value - 269) >>> 8).toUInt8.toNat * 256 + (value - 269).toUInt8.toNat + 269,
      rest) = _
    rw [hhigh, low_toNat (Nat.le_of_not_lt h269)]
    congr 2
    omega

/-- The two bytes of a length are parsed as another length. -/
theorem length_ne {value : UInt32} (h269 : 269 ≤ value.toNat) :
    (((value >>> 8).toUInt8.toUInt16 <<< 8 ||| (value - 269).toUInt8.toUInt16) + 269).toNat ≠
      value.toNat := by
  have hhigh : (value >>> 8).toUInt8.toNat = value.toNat / 256 % 256 := by
    rw [UInt32.toNat_toUInt8, UInt32.toNat_shiftRight]
    change value.toNat >>> 8 % 2 ^ 8 = _
    rw [Nat.shiftRight_eq_div_pow]
  rw [UInt16.toNat_add, word_toNat, hhigh, low_toNat h269]
  change (value.toNat / 256 % 256 * 256 + (value.toNat - 269) % 256 + 269) % 2 ^ 16 ≠ _
  omega

theorem optionNibble_lt (value : UInt32) (junk : UInt8) (h : value.toNat ≤ 65535 + 269) :
    (optionNibble value junk).toNat ≤ 14 := by
  rw [optionNibble_toNat value junk h]
  split_ifs <;> omega

/-- The first byte of an option has both nibbles and is no marker. -/
theorem first_nibbles {d l : UInt8} (hd : d.toNat ≤ 14) (hl : l.toNat ≤ 14) :
    ((d <<< 4 ||| l) &&& 0xF0) >>> 4 = d ∧ (d <<< 4 ||| l) &&& 0x0F = l ∧ d <<< 4 ||| l ≠ 0xFF := by
  have hor : (d <<< 4 ||| l).toNat = d.toNat * 16 + l.toNat := by
    rw [UInt8.toNat_or, UInt8.toNat_shiftLeft]
    change d.toNat <<< 4 % 2 ^ 8 ||| l.toNat = _
    rw [Nat.mod_eq_of_lt (by rw [Nat.shiftLeft_eq]; omega),
      ← Nat.shiftLeft_add_eq_or_of_lt (by omega : l.toNat < 2 ^ 4), Nat.shiftLeft_eq]
  obtain ⟨hhigh, hlow⟩ := nibble_toNat (d <<< 4 ||| l)
  rw [hor] at hhigh hlow
  refine ⟨UInt8.toNat_inj.mp ?_, UInt8.toNat_inj.mp ?_, fun h => ?_⟩
  · omega
  · omega
  · rw [h] at hor
    change 255 = d.toNat * 16 + l.toNat at hor
    omega

/-- The bytes of a length behind its nibble, as they are built. -/
def lengthBytes (junk : UInt8) (length : UInt32) : List UInt8 :=
  if optionNibble length junk = 13 then [(length - 13).toUInt8]
  else if optionNibble length junk = 14 then [(length >>> 8).toUInt8, (length - 269).toUInt8]
  else []

section Option

variable {junk : UInt8} {prev : UInt16} {o : Opt} {p : Buffer} {rest : List UInt8}

/-- An option is parsed up to its length. -/
theorem parseOption_delta (hvalue : o.buf.bytes.length ≤ 65535 + 269)
    (hp : p.bytes =
      optionHeaderBytes junk (optDelta prev o) o.buf.len ++ o.buf.bytes ++ rest) :
    p.bytes ≠ [] ∧ p.bytes.head? ≠ some 0xFF ∧
    ∃ q, q.bytes = lengthBytes junk o.buf.len ++ o.buf.bytes ++ rest ∧
      parseOption prev p =
        (parseExtended (optionNibble o.buf.len junk) .optionLenInvalid q).bind fun r =>
          if r.2.bytes.length < r.1.toNat then .error .optionTooBig
          else .ok (⟨o.num, r.2.take r.1.toNat⟩, o.num.toUInt16, r.2.drop r.1.toNat) := by
  have hlen : o.buf.len.toNat ≤ 65535 + 269 := by
    rw [Buffer.len_toNat]
    exact hvalue
  obtain ⟨hhigh, hlow, hmarker⟩ := first_nibbles
    (optionNibble_lt (optDelta prev o) 0 (optDelta_le prev o)) (optionNibble_lt o.buf.len junk hlen)
  have hnumber := number_delta (optDelta prev o) 0 (optDelta_le prev o)
    (lengthBytes junk o.buf.len ++ o.buf.bytes ++ rest)
  have hcons : p.bytes = (optionNibble (optDelta prev o) 0 <<< 4 ||| optionNibble o.buf.len junk) ::
      ((if optionNibble (optDelta prev o) 0 = 13 then [(optDelta prev o - 13).toUInt8]
        else if optionNibble (optDelta prev o) 0 = 14 then
          [((optDelta prev o - 269) >>> 8).toUInt8, (optDelta prev o - 269).toUInt8]
        else []) ++ (lengthBytes junk o.buf.len ++ o.buf.bytes ++ rest)) := by
    rw [hp, optionHeaderBytes, lengthBytes]
    simp only [List.cons_append, List.append_assoc]
  have hdrop : (p.drop 1).bytes = _ := (p.drop_bytes 1).trans (congrArg (List.drop 1) hcons)
  rw [List.drop_succ_cons, List.drop_zero] at hdrop
  have hbound : (optDelta prev o).toNat < 2 ^ 16 := by
    rw [optDelta, UInt16.toNat_toUInt32]
    exact (o.num.toUInt16 - prev).toNat_lt
  obtain ⟨w, q, hparse, hw, hq⟩ := parseExtended_number (optionNibble (optDelta prev o) 0)
    (p.drop 1) .optionDeltaInvalid (by rw [hdrop]; exact hnumber) hbound
  have hdelta : w = o.num.toUInt16 - prev := by
    refine UInt16.toNat_inj.mp (hw.trans ?_)
    rw [optDelta, UInt16.toNat_toUInt32]
  have hsum : w + prev = o.num.toUInt16 := by
    rw [hdelta, UInt16.sub_add_cancel]
  refine ⟨by rw [hcons]; exact List.cons_ne_nil _ _, ?_, q, hq, ?_⟩
  · rw [hcons]
    exact fun h => hmarker (Option.some.inj h)
  · rw [parseOption, hcons]
    change (parseExtended (((_ : UInt8) &&& 0xF0) >>> 4) .optionDeltaInvalid (p.drop 1)).bind _ = _
    rw [hhigh, hparse]
    change (parseExtended ((_ : UInt8) &&& 0x0F) .optionLenInvalid q).bind _ = _
    rw [hlow]
    have hnum : o.num.toUInt16.toUInt8 = o.num := UInt8.toUInt8_toUInt16 o.num
    congr 1
    funext r
    change (if r.2.bytes.length < r.1.toNat then _ else
      (.ok (⟨(w + prev).toUInt8, r.2.take r.1.toNat⟩, prev + w, r.2.drop r.1.toNat) :
        Except Err (Opt × UInt16 × Buffer))) = _
    rw [UInt16.add_comm prev w, hsum, hnum]

/-- A length of at most one byte behind its nibble is parsed as it is. -/
theorem parseOption_short (hvalue : o.buf.bytes.length ≤ 268)
    (hp : p.bytes =
      optionHeaderBytes junk (optDelta prev o) o.buf.len ++ o.buf.bytes ++ rest) :
    ∃ q, parseOption prev p = .ok (o, o.num.toUInt16, q) ∧ q.bytes = rest := by
  obtain ⟨-, -, q, hq, hparse⟩ := parseOption_delta (by omega) hp
  have hlen := o.buf.len_toNat
  have hnumber := number_short o.buf.len junk (by omega)
    [(o.buf.len >>> 8).toUInt8, (o.buf.len - 269).toUInt8] (o.buf.bytes ++ rest)
  rw [← lengthBytes, ← List.append_assoc, ← hq] at hnumber
  obtain ⟨w, r, hr, hw, hrest⟩ := parseExtended_number (optionNibble o.buf.len junk) q
    .optionLenInvalid hnumber (by omega)
  rw [hlen] at hw
  refine ⟨r.drop w.toNat, ?_, ?_⟩
  · have hfits : ¬r.bytes.length < w.toNat := by
      rw [hrest, hw, List.length_append]
      omega
    have hbuf : r.take w.toNat = o.buf := Buffer.ext (by
      rw [Buffer.take_bytes, hrest, hw, List.take_left])
    rw [hparse, hr]
    change (if r.bytes.length < w.toNat then _ else _) = _
    rw [if_neg hfits, hbuf]
  · rw [Buffer.drop_bytes, hrest, hw, List.drop_left]

/-- A length of two bytes behind its nibble is parsed as another one. -/
theorem parseOption_long (hlong : 269 ≤ o.buf.bytes.length)
    (hvalue : o.buf.bytes.length ≤ 65535 + 269)
    (hp : p.bytes =
      optionHeaderBytes junk (optDelta prev o) o.buf.len ++ o.buf.bytes ++ rest) (running : UInt16)
    (p' : Buffer) : parseOption prev p ≠ .ok (o, running, p') := by
  obtain ⟨-, -, q, hq, hparse⟩ := parseOption_delta hvalue hp
  have hlen := o.buf.len_toNat
  have hnibble := optionNibble_long o.buf.len junk (by omega) (by omega)
  rw [lengthBytes, hnibble, if_neg (by decide), if_pos rfl] at hq
  have hne := length_ne (by omega : 269 ≤ o.buf.len.toNat)
  intro h
  rw [hparse, hnibble, parseExtended, if_neg (by decide), if_pos rfl, hq] at h
  change (if (q.drop 2).bytes.length < _ then _ else _) = _ at h
  split_ifs at h with hbig
  have hbuf := congrArg (fun o : Opt => o.buf.bytes.length) (Prod.mk.inj (Except.ok.inj h)).1
  change ((q.drop 2).bytes.take _).length = _ at hbuf
  rw [List.length_take, Nat.min_eq_left (Nat.le_of_not_lt hbig)] at hbuf
  exact hne (hbuf.trans hlen.symm)

end Option

theorem parseOptions_stop (room : Nat) (running : UInt16) {p : Buffer} {payload : List UInt8}
    (hp : p.bytes = payloadBytes payload) : parseOptions room running p = .ok ([], p) := by
  cases room with
  | zero => rfl
  | succ room =>
    rw [parseOptions, if_pos]
    rw [hp, payloadBytes]
    split_ifs
    · exact .inl rfl
    · exact .inr rfl

/-- Options with short values are parsed as they are. -/
theorem parseOptions_short {junk : UInt8} {room : Nat} {prev : UInt16} {p : Buffer}
    {os : List Opt} {payload : List UInt8} (hroom : os.length ≤ room)
    (hvalues : ∀ o ∈ os, o.buf.bytes.length ≤ 268)
    (hp : p.bytes = optionsBytes junk prev os ++ payloadBytes payload) :
    ∃ q, parseOptions room prev p = .ok (os, q) ∧ q.bytes = payloadBytes payload := by
  induction os generalizing room prev p with
  | nil => exact ⟨p, parseOptions_stop room prev hp, hp⟩
  | cons o os ih =>
    obtain ⟨ho, hos⟩ := List.forall_mem_cons.mp hvalues
    cases room with
    | zero => exact absurd hroom (Nat.not_succ_le_zero _)
    | succ room =>
      rw [optionsBytes, List.append_assoc] at hp
      obtain ⟨hne, hmarker, -⟩ := parseOption_delta (by omega) hp
      obtain ⟨q, hparse, hq⟩ := parseOption_short ho hp
      obtain ⟨q', hrest, hq'⟩ := ih (Nat.le_of_succ_le_succ hroom) hos hq
      refine ⟨q', ?_, hq'⟩
      rw [parseOptions, if_neg (not_or.mpr ⟨hne, hmarker⟩), hparse]
      change (parseOptions room o.num.toUInt16 q).bind _ = _
      rw [hrest]
      rfl

/-- Where the options come back, their values are short. -/
theorem parseOptions_values {junk : UInt8} {room : Nat} {prev : UInt16} {p q : Buffer}
    {os : List Opt} {rest : List UInt8} (hvalues : ∀ o ∈ os, o.buf.bytes.length ≤ 65535 + 269)
    (hp : p.bytes = optionsBytes junk prev os ++ rest)
    (h : parseOptions room prev p = .ok (os, q)) : ∀ o ∈ os, o.buf.bytes.length ≤ 268 := by
  induction os generalizing room prev p with
  | nil => exact fun o ho => absurd ho List.not_mem_nil
  | cons o os ih =>
    obtain ⟨ho, hos⟩ := List.forall_mem_cons.mp hvalues
    cases room with
    | zero => cases h
    | succ room =>
      obtain ⟨running, p', hparse, hrest⟩ := parseOptions_cons h
      rw [optionsBytes, List.append_assoc] at hp
      have hshort : o.buf.bytes.length ≤ 268 := by
        by_contra hlong
        exact parseOption_long (by omega) ho hp running p' hparse
      obtain ⟨q', hparse', hq'⟩ := parseOption_short hshort hp
      rw [hparse'] at hparse
      cases hparse
      exact List.forall_mem_cons.mpr ⟨hshort, ih hos hq' hrest⟩

theorem parsePayload_bytes {q : Buffer} {payload : List UInt8}
    (hq : q.bytes = payloadBytes payload) : (parsePayload q).bytes = payload := by
  rw [payloadBytes] at hq
  split_ifs at hq with hnil
  · rw [parsePayload, hq, hnil]
    rfl
  · exact parsePayload_marker hq

/-! ## The header and the token -/

theorem parseHeader_range {buf : Buffer} {hdr : Header} (h : parseHeader buf = .ok hdr) :
    hdr.ver = 1 ∧ hdr.t ≤ 3 := by
  have hrange : ∀ n < 2 ^ 8, (n &&& 0x30) >>> 4 ≤ 3 := by decide +kernel
  rw [parseHeader] at h
  split at h
  · next b0 _ _ _ _ _ =>
    split_ifs at h with hver
    cases h
    refine ⟨not_not.mp hver, UInt8.le_iff_toNat_le.mpr ?_⟩
    rw [UInt8.toNat_shiftRight, UInt8.toNat_and]
    exact hrange b0.toNat b0.toNat_lt
  · cases h

/-- The first byte of a header, as it is built. -/
def firstByte (ver t tkl : UInt8) : UInt8 :=
  (ver &&& 0x03) <<< 6 ||| (t &&& 0x03) <<< 4 ||| (tkl &&& 0x0F)

theorem firstByte_fields {t tkl : UInt8} (ht : t.toNat < 4) (htkl : tkl.toNat < 16) :
    (firstByte 1 t tkl &&& 0xC0) >>> 6 = 1 ∧ (firstByte 1 t tkl &&& 0x30) >>> 4 = t ∧
      firstByte 1 t tkl &&& 0x0F = tkl := by
  have hfields : ∀ t < 4, ∀ k < 16,
      (firstByte 1 (UInt8.ofNat t) (UInt8.ofNat k) &&& 0xC0) >>> 6 = 1 ∧
        (firstByte 1 (UInt8.ofNat t) (UInt8.ofNat k) &&& 0x30) >>> 4 = UInt8.ofNat t ∧
        firstByte 1 (UInt8.ofNat t) (UInt8.ofNat k) &&& 0x0F = UInt8.ofNat k := by
    decide +kernel
  have h := hfields t.toNat ht tkl.toNat htkl
  rw [UInt8.ofNat_toNat, UInt8.ofNat_toNat] at h
  exact h

theorem parseHeader_bytes {buf : Buffer} {hdr : Header} {rest : List UInt8}
    (hbytes : buf.bytes = headerBytes hdr ++ rest) (hver : hdr.ver = 1) (ht : hdr.t ≤ 3)
    (htkl : hdr.tkl ≤ 8) : parseHeader buf = .ok hdr := by
  have ht' : hdr.t.toNat ≤ 3 := UInt8.le_iff_toNat_le.mp ht
  have htkl' : hdr.tkl.toNat ≤ 8 := UInt8.le_iff_toNat_le.mp htkl
  obtain ⟨h1, h2, h3⟩ :=
    firstByte_fields (by omega : hdr.t.toNat < 4) (by omega : hdr.tkl.toNat < 16)
  rw [parseHeader, hbytes, headerBytes]
  dsimp only [List.cons_append]
  rw [← firstByte, hver, h1, h2, h3, if_neg (not_not.mpr rfl), ← hver]

theorem parseToken_bytes {buf : Buffer} {pkt : Packet} {rest : List UInt8} (h : Encodable pkt)
    (hbytes : buf.bytes = headerBytes pkt.hdr ++ pkt.tok.bytes ++ rest) :
    parseToken pkt.hdr buf = .ok pkt.tok := by
  have hdrop : buf.bytes.drop 4 = pkt.tok.bytes ++ rest := by
    rw [hbytes, List.append_assoc]
    rfl
  rw [parseToken]
  split_ifs with hzero hshort hlong
  · have hnil : pkt.tok.bytes = [] := List.eq_nil_of_length_eq_zero (by rw [h.token, hzero]; rfl)
    exact congrArg _ (Buffer.ext hnil.symm)
  · rw [hbytes, List.length_append, List.length_append, h.token] at hlong
    change 4 + pkt.hdr.tkl.toNat + rest.length < _ at hlong
    omega
  · refine congrArg _ (Buffer.ext ?_)
    rw [Buffer.take_bytes, Buffer.drop_bytes, hdrop, ← h.token, List.take_left]
  · exact absurd h.short hshort

/-! ## The round trip -/

/-- What is built into a buffer that is large enough. -/
theorem message_encoded (junk : UInt8) (m : Mem) (buflen : UInt32) {pkt : Packet}
    (h : Encodable pkt) (hsound : Sound buflen.toNat pkt)
    (hfits : encodedLength pkt ≤ buflen.toNat) :
    (build junk buflen pkt).rc = 0 ∧
      (message m (build junk buflen pkt)).bytes = encoded junk pkt := by
  have hroom : 4 + pkt.hdr.tkl.toNat ≤ buflen.toNat := by
    rw [encodedLength] at hfits
    omega
  rw [Sound, if_neg (Nat.not_lt.mpr hroom)] at hsound
  have htoken : (headerBytes pkt.hdr ++ pkt.tok.bytes).length = 4 + pkt.hdr.tkl.toNat := by
    rw [List.length_append, h.token]
    rfl
  have hstart : Holds m (start buflen pkt).writes (headerBytes pkt.hdr ++ pkt.tok.bytes) :=
    (show Holds m [(0, headerBytes pkt.hdr)] (headerBytes pkt.hdr) from
      read_write m 0 (headerBytes pkt.hdr)).append pkt.tok.bytes
  obtain ⟨hrc, hlength, hholds⟩ := buildOptions_holds junk (s := start buflen pkt) rfl
    (Nat.le_add_right _ _) h.values hsound hfits htoken hstart
  rw [build_room junk h hroom]
  refine ⟨hrc, ?_⟩
  have hbytes : (headerBytes pkt.hdr ++ pkt.tok.bytes ++
      optionsBytes junk (start buflen pkt).running pkt.opts ++
        payloadBytes pkt.payload.bytes).length =
      (buildOptions junk buflen pkt.payload pkt.opts (start buflen pkt)).buflen.toNat := by
    rw [hlength, List.length_append, List.length_append, htoken, payloadBytes_length,
      optionsBytes_length junk _ _ h.values]
    rfl
  rw [Holds, hbytes] at hholds
  exact hholds

/-- An encoding is parsed as the packet exactly where its header has an encoding and every value is
shorter than 269 bytes. -/
theorem parse_encoded_iff {junk : UInt8} {buf : Buffer} {pkt : Packet} (h : Encodable pkt)
    (hbytes : buf.bytes = encoded junk pkt) : parse buf = .ok pkt ↔
      pkt.hdr.ver = 1 ∧ pkt.hdr.t ≤ 3 ∧ ∀ o ∈ pkt.opts, o.buf.bytes.length ≤ 268 := by
  have hdrop : (buf.drop (4 + pkt.hdr.tkl.toNat)).bytes =
      optionsBytes junk 0 pkt.opts ++ payloadBytes pkt.payload.bytes := by
    have htoken : (headerBytes pkt.hdr ++ pkt.tok.bytes).length = 4 + pkt.hdr.tkl.toNat := by
      rw [List.length_append, h.token]
      rfl
    rw [Buffer.drop_bytes, hbytes, encoded, List.append_assoc, ← htoken, List.drop_left]
  have hlong : ¬buf.bytes.length < 4 + pkt.hdr.tkl.toNat := by
    rw [hbytes, encoded, List.length_append, List.length_append, List.length_append, h.token]
    change ¬4 + pkt.hdr.tkl.toNat + _ + _ < _
    omega
  rw [parse_eq_ok, parseOptionsAndPayload, if_neg hlong]
  constructor
  · rintro ⟨hhdr, -, hopts⟩
    obtain ⟨hver, ht⟩ := parseHeader_range hhdr
    refine ⟨hver, ht, ?_⟩
    cases hparse : parseOptions maxopt 0 (buf.drop (4 + pkt.hdr.tkl.toNat)) with
    | error e =>
      rw [hparse] at hopts
      cases hopts
    | ok r =>
      rw [hparse] at hopts
      have hos : r.1 = pkt.opts := (Prod.mk.inj (Except.ok.inj hopts)).1
      have hparse' : parseOptions maxopt 0 (buf.drop (4 + pkt.hdr.tkl.toNat)) =
          .ok (pkt.opts, r.2) := by
        rw [hparse, ← hos]
      exact parseOptions_values h.values hdrop hparse'
  · rintro ⟨hver, ht, hvalues⟩
    obtain ⟨q, hparse, hq⟩ := parseOptions_short pkt.numopts hvalues hdrop
    have htoken : buf.bytes = headerBytes pkt.hdr ++ pkt.tok.bytes ++
        (optionsBytes junk 0 pkt.opts ++ payloadBytes pkt.payload.bytes) := by
      rw [hbytes, encoded, List.append_assoc _ (optionsBytes junk 0 pkt.opts)]
    have hheader := htoken
    rw [List.append_assoc] at hheader
    refine ⟨parseHeader_bytes hheader hver ht h.short, parseToken_bytes h htoken, ?_⟩
    rw [hparse]
    exact congrArg (fun b => Except.ok (pkt.opts, b)) (Buffer.ext (parsePayload_bytes hq))

/-- In a buffer that is large enough, the packet comes back where its values are short. -/
theorem parsesBack_iff (junk : UInt8) (m : Mem) (buflen : UInt32) (pkt : Packet)
    (h : Encodable pkt) (hsound : Sound buflen.toNat pkt)
    (hfits : encodedLength pkt ≤ buflen.toNat) :
    (build junk buflen pkt).rc = 0 ∧
      (parse (message m (build junk buflen pkt)) = .ok pkt ↔
        pkt.hdr.ver = 1 ∧ pkt.hdr.t ≤ 3 ∧ ∀ o ∈ pkt.opts, o.buf.bytes.length ≤ 268) := by
  obtain ⟨hrc, hbytes⟩ := message_encoded junk m buflen h hsound hfits
  exact ⟨hrc, parse_encoded_iff h hbytes⟩

theorem pathRequest_roundTrip : (build 0 9 pathRequest).rc = 0 ∧
    parse (message (fun _ => 0) (build 0 9 pathRequest)) = .ok pathRequest := by
  have hsound : Sound 9 pathRequest := by
    rw [Sound, if_neg (by decide)]
    exact ⟨by decide, .inl rfl⟩
  obtain ⟨hrc, hparse⟩ := parsesBack_iff 0 (fun _ => 0) 9 pathRequest pathRequest_encodable hsound
    (by decide)
  exact ⟨hrc, hparse.mpr (by decide)⟩

/-- A request for a path. -/
def requestFor (o : Opt) : Packet :=
  ⟨⟨1, 0, 0, 1, (0, 1)⟩, .empty, [o], .empty, by rw [List.length_singleton]; decide⟩

theorem requestFor_fits {o : Opt} (hnum : o.num = 11) (hlength : o.buf.bytes.length = 269) :
    Encodable (requestFor o) ∧ Sound 400 (requestFor o) ∧ encodedLength (requestFor o) ≤ 400 := by
  have hoption : optionLength 0 o = 272 := by
    rw [optionLength, headerLength, optDelta, hlength, hnum]
    rfl
  refine ⟨⟨(by decide : (0 : UInt8) ≤ 8), rfl, fun o' ho => ?_⟩, ?_, ?_⟩
  · rw [List.mem_singleton.mp ho, hlength]
    decide
  · rw [Sound, if_neg (show ¬400 < 4 + 0 by decide)]
    refine ⟨?_, .inl rfl⟩
    change 4 + optionLength 0 o ≤ 400
    rw [hoption]
    decide
  · change 4 + 0 + (optionLength 0 o + 0) + 0 ≤ 400
    rw [hoption]
    decide

/-- A path of 269 bytes. -/
def longPath : Opt := ⟨11, ⟨List.replicate 269 0x61, by rw [List.length_replicate]; decide⟩⟩

theorem longPath_length : longPath.buf.bytes.length = 269 := List.length_replicate

/-- The value comes back with another length, or not at all. -/
theorem longPath_lost : Encodable (requestFor longPath) ∧ Sound 400 (requestFor longPath) ∧
    encodedLength (requestFor longPath) ≤ 400 ∧ (build 0 400 (requestFor longPath)).rc = 0 ∧
      parse (message (fun _ => 0) (build 0 400 (requestFor longPath))) ≠
        .ok (requestFor longPath) := by
  obtain ⟨hencodable, hsound, hfits⟩ := requestFor_fits (o := longPath) rfl longPath_length
  obtain ⟨hrc, hbytes⟩ := message_encoded 0 (fun _ => 0) 400 hencodable hsound hfits
  refine ⟨hencodable, hsound, hfits, hrc, fun h => ?_⟩
  have hshort := ((parse_encoded_iff hencodable hbytes).mp h).2.2 longPath List.mem_cons_self
  rw [longPath_length] at hshort
  exact absurd hshort (by decide)

end NodeMcu.Coap.RoundTrip
