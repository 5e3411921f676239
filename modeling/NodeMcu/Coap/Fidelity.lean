import NodeMcu.Coap.Codec

namespace NodeMcu.Coap.Fidelity

open NodeMcu.Coap.Codec

/-! ## What the bytes of a message say -/

/-- The number behind a nibble, with the bytes that follow. -/
def number (nibble : Nat) (bs : List UInt8) : Option (Nat × List UInt8) :=
  if nibble < 13 then some (nibble, bs)
  else if nibble = 13 then
    match bs with
    | b :: rest => some (b.toNat + 13, rest)
    | _ => none
  else if nibble = 14 then
    match bs with
    | b :: b' :: rest => some (b.toNat * 256 + b'.toNat + 269, rest)
    | _ => none
  else none

/-- The options and the payload that the bytes behind the token encode, with the number that the
deltas have come to so far. Numbers and lengths are not bounded. -/
inductive Encodes : Nat → List UInt8 → List (Nat × List UInt8) → List UInt8 → Prop
  | done (prev : Nat) : Encodes prev [] [] []
  | payload (prev : Nat) (bs : List UInt8) : Encodes prev (0xFF :: bs) [] bs
  | option (prev : Nat) (b : UInt8) (bs bs' value rest payload : List UInt8) (delta : Nat)
      (opts : List (Nat × List UInt8)) (hmarker : b ≠ 0xFF)
      (hdelta : number (b.toNat / 16) bs = some (delta, bs'))
      (hlen : number (b.toNat % 16) bs' = some (value.length, value ++ rest))
      (hrest : Encodes (prev + delta) rest opts payload) :
      Encodes prev (b :: bs) ((prev + delta, value) :: opts) payload

theorem Encodes.unique {prev : Nat} {bs payload payload' : List UInt8}
    {opts opts' : List (Nat × List UInt8)} (h : Encodes prev bs opts payload)
    (h' : Encodes prev bs opts' payload') : opts = opts' ∧ payload = payload' := by
  induction h generalizing opts' with
  | done prev =>
    cases h'
    exact ⟨rfl, rfl⟩
  | payload prev bs =>
    cases h' with
    | payload => exact ⟨rfl, rfl⟩
    | option _ _ _ _ _ _ _ _ _ hmarker => exact absurd rfl hmarker
  | option prev b bs bs1 value rest payload delta opts hmarker hdelta hlen hrest ih =>
    cases h' with
    | payload => exact absurd rfl hmarker
    | option _ _ _ bs2 value' rest' _ delta' opts' _ hdelta' hlen' hrest' =>
      have hd := Option.some.inj (hdelta.symm.trans hdelta')
      obtain ⟨rfl, rfl⟩ := Prod.mk.inj hd
      have hl := Option.some.inj (hlen.symm.trans hlen')
      obtain ⟨hlength, happ⟩ := Prod.mk.inj hl
      obtain ⟨rfl, rfl⟩ := List.append_inj happ hlength
      obtain ⟨rfl, rfl⟩ := ih hrest'
      exact ⟨rfl, rfl⟩

/-! ## The parser on such bytes -/

theorem nibble_toNat (b : UInt8) :
    ((b &&& 0xF0) >>> 4).toNat = b.toNat / 16 ∧ (b &&& 0x0F).toNat = b.toNat % 16 := by
  have h : ∀ n < 2 ^ 8, (n &&& 0xF0) >>> 4 = n / 16 ∧ n &&& 0x0F = n % 16 := by
    decide +kernel
  rw [UInt8.toNat_shiftRight, UInt8.toNat_and, UInt8.toNat_and]
  exact h b.toNat b.toNat_lt

theorem word_toNat (b b' : UInt8) :
    (b.toUInt16 <<< 8 ||| b'.toUInt16).toNat = b.toNat * 256 + b'.toNat := by
  have hb := b.toNat_lt
  have hb' := b'.toNat_lt
  rw [UInt16.toNat_or, UInt16.toNat_shiftLeft, UInt8.toNat_toUInt16, UInt8.toNat_toUInt16]
  change b.toNat <<< 8 % 2 ^ 16 ||| b'.toNat = _
  rw [Nat.mod_eq_of_lt (by rw [Nat.shiftLeft_eq]; omega), ← Nat.shiftLeft_add_eq_or_of_lt hb',
    Nat.shiftLeft_eq]

/-- A number that fits 16 bits is parsed as it is. -/
theorem parseExtended_number (nibble : UInt8) (p : Buffer) (invalid : Err) {v : Nat}
    {rest : List UInt8} (hnumber : number nibble.toNat p.bytes = some (v, rest)) (hv : v < 2 ^ 16) :
    ∃ w q, parseExtended nibble invalid p = .ok (w, q) ∧ w.toNat = v ∧ q.bytes = rest := by
  unfold number at hnumber
  by_cases hsmall : nibble.toNat < 13
  · rw [if_pos hsmall] at hnumber
    obtain ⟨rfl, rfl⟩ := Prod.mk.inj (Option.some.inj hnumber)
    have hne : ∀ {k : UInt8}, 13 ≤ k.toNat → nibble ≠ k := fun hk h => by
      rw [h] at hsmall
      omega
    rw [parseExtended, if_neg (hne (by decide)), if_neg (hne (by decide)),
      if_neg (hne (by decide))]
    exact ⟨_, _, rfl, UInt8.toNat_toUInt16 _, rfl⟩
  rw [if_neg hsmall] at hnumber
  by_cases h13 : nibble.toNat = 13
  · rw [if_pos h13] at hnumber
    rw [parseExtended, if_pos (UInt8.toNat_inj.mp h13)]
    cases hp : p.bytes with
    | nil =>
      rw [hp] at hnumber
      cases hnumber
    | cons b bs =>
      rw [hp] at hnumber
      cases hnumber
      refine ⟨_, _, rfl, ?_, by rw [Buffer.drop_bytes, hp]; rfl⟩
      have hb := b.toNat_lt
      rw [UInt16.toNat_add, UInt8.toNat_toUInt16]
      exact Nat.mod_eq_of_lt hv
  rw [if_neg h13] at hnumber
  by_cases h14 : nibble.toNat = 14
  · rw [if_pos h14] at hnumber
    rw [parseExtended, if_neg fun h => h13 (congrArg UInt8.toNat h),
      if_pos (UInt8.toNat_inj.mp h14)]
    match hp : p.bytes with
    | [] =>
      rw [hp] at hnumber
      cases hnumber
    | [_] =>
      rw [hp] at hnumber
      cases hnumber
    | b :: b' :: bs =>
      rw [hp] at hnumber
      cases hnumber
      refine ⟨_, _, rfl, ?_, by rw [Buffer.drop_bytes, hp]; rfl⟩
      rw [UInt16.toNat_add, word_toNat]
      exact Nat.mod_eq_of_lt hv
  · rw [if_neg h14] at hnumber
    cases hnumber

/-- What the bytes say of an option, with its value as it was. -/
def plain (o : Opt) : Nat × List UInt8 := (o.num.toNat, o.buf.bytes)

/-- An option whose number fits 8 bits and whose length fits 16. -/
theorem parseOption_encoded {b : UInt8} {bs bs' value rest : List UInt8} {delta : Nat}
    {running : UInt16} {p : Buffer} (hp : p.bytes = b :: bs)
    (hdelta : number (b.toNat / 16) bs = some (delta, bs'))
    (hlen : number (b.toNat % 16) bs' = some (value.length, value ++ rest))
    (hnum : running.toNat + delta ≤ 255) (hvalue : value.length < 2 ^ 16) :
    ∃ o running' q, parseOption running p = .ok (o, running', q) ∧
      plain o = (running.toNat + delta, value) ∧ running'.toNat = running.toNat + delta ∧
        q.bytes = rest := by
  obtain ⟨hhigh, hlow⟩ := nibble_toNat b
  have hp' : (p.drop 1).bytes = bs := by
    rw [Buffer.drop_bytes, hp]
    rfl
  obtain ⟨d, q1, hd, hdn, hq1⟩ := parseExtended_number ((b &&& 0xF0) >>> 4) (p.drop 1)
    .optionDeltaInvalid (by rw [hhigh, hp']; exact hdelta) (by omega)
  obtain ⟨l, q2, hl, hln, hq2⟩ := parseExtended_number (b &&& 0x0F) q1 .optionLenInvalid
    (by rw [hlow, hq1]; exact hlen) hvalue
  refine ⟨⟨(d + running).toUInt8, q2.take l.toNat⟩, running + d, q2.drop l.toNat, ?_, ?_, ?_, ?_⟩
  · rw [parseOption, hp]
    change (parseExtended ((b &&& 0xF0) >>> 4) .optionDeltaInvalid (p.drop 1)).bind _ = _
    rw [hd]
    change (parseExtended (b &&& 0x0F) .optionLenInvalid q1).bind _ = _
    rw [hl]
    have hle : ¬q2.bytes.length < l.toNat := by
      rw [hq2, hln, List.length_append]
      omega
    exact if_neg hle
  · rw [plain, Buffer.take_bytes, hq2, hln, List.take_left, UInt16.toNat_toUInt8,
      UInt16.toNat_add, hdn]
    have hsum : (delta + running.toNat) % 2 ^ 16 % 2 ^ 8 = running.toNat + delta := by omega
    rw [hsum]
  · rw [UInt16.toNat_add, hdn]
    omega
  · rw [Buffer.drop_bytes, hq2, hln, List.drop_left]

theorem parsePayload_marker {p : Buffer} {bs : List UInt8} (hp : p.bytes = 0xFF :: bs) :
    (parsePayload p).bytes = bs := by
  rw [parsePayload, hp]
  cases bs with
  | nil => rfl
  | cons b bs =>
    rw [if_pos ⟨by rw [List.length_cons, List.length_cons]; omega, rfl⟩, Buffer.drop_bytes, hp]
    rfl

/-- Numbers fit 8 bits, and lengths 16. -/
def Narrow (o : Nat × List UInt8) : Prop := o.1 ≤ 255 ∧ o.2.length < 2 ^ 16

instance (o : Nat × List UInt8) : Decidable (Narrow o) :=
  inferInstanceAs (Decidable (_ ∧ _))

theorem parseOptions_encodes {prev : Nat} {bs payload : List UInt8}
    {opts : List (Nat × List UInt8)} (h : Encodes prev bs opts payload) {room : Nat}
    {running : UInt16} {p : Buffer} (hp : p.bytes = bs) (hrunning : running.toNat = prev)
    (hroom : opts.length ≤ room) (hnarrow : ∀ o ∈ opts, Narrow o) :
    ∃ os q, parseOptions room running p = .ok (os, q) ∧ os.map plain = opts ∧
      (parsePayload q).bytes = payload := by
  induction h generalizing room running p with
  | done prev =>
    have hstop : parseOptions room running p = .ok ([], p) := by
      cases room with
      | zero => rfl
      | succ room => rw [parseOptions, if_pos (.inl hp)]
    refine ⟨[], p, hstop, rfl, ?_⟩
    rw [parsePayload, hp]
    rfl
  | payload prev bs =>
    have hstop : parseOptions room running p = .ok ([], p) := by
      cases room with
      | zero => rfl
      | succ room => rw [parseOptions, if_pos (.inr (by rw [hp]; rfl))]
    exact ⟨[], p, hstop, rfl, parsePayload_marker hp⟩
  | option prev b bs bs' value rest payload delta opts hmarker hdelta hlen hrest ih =>
    obtain ⟨hnum, hvalue⟩ := hnarrow _ (List.mem_cons_self)
    cases room with
    | zero => exact absurd hroom (Nat.not_succ_le_zero _)
    | succ room =>
      rw [← hrunning] at hnum
      obtain ⟨o, running', q, hopt, hplain, hrunning', hq⟩ :=
        parseOption_encoded hp hdelta hlen hnum hvalue
      rw [hrunning] at hplain hrunning'
      obtain ⟨os, q', hopts, hmap, hpayload⟩ := ih hq hrunning' (Nat.le_of_succ_le_succ hroom)
        fun o ho => hnarrow o (List.mem_cons_of_mem _ ho)
      refine ⟨o :: os, q', ?_, by rw [List.map_cons, hplain, hmap], hpayload⟩
      have hgo : ¬(p.bytes = [] ∨ p.bytes.head? = some 0xFF) := by
        rw [hp]
        rintro (h | h)
        · cases h
        · exact hmarker (Option.some.inj h)
      rw [parseOptions, if_neg hgo, hopt]
      change (parseOptions room running' q).bind _ = _
      rw [hopts]
      rfl

/-! ## What the parser accepts -/

theorem parse_eq_ok {buf : Buffer} {pkt : Packet} : parse buf = .ok pkt ↔
    parseHeader buf = .ok pkt.hdr ∧ parseToken pkt.hdr buf = .ok pkt.tok ∧
      parseOptionsAndPayload pkt.hdr buf = .ok (pkt.opts, pkt.payload) := by
  rw [parse]
  constructor
  · intro h
    split at h
    · cases h
    · split at h
      · cases h
      · split at h
        · cases h
        · cases h
          exact ⟨by assumption, by assumption, by assumption⟩
  · rintro ⟨hhdr, htok, hopts⟩
    rw [hhdr]
    dsimp only
    rw [htok]
    dsimp only
    split
    · next e he =>
      rw [hopts] at he
      cases he
    · next opts payload he =>
      rw [hopts] at he
      cases he
      rfl

/-- A step of the table: an option, and the rest of them. -/
theorem parseOptions_cons {room : Nat} {running : UInt16} {p q : Buffer} {o : Opt} {os : List Opt}
    (h : parseOptions (room + 1) running p = .ok (o :: os, q)) :
    ∃ running' p', parseOption running p = .ok (o, running', p') ∧
      parseOptions room running' p' = .ok (os, q) := by
  rw [parseOptions] at h
  split at h
  · cases h
  · cases hopt : parseOption running p with
    | error e =>
      rw [hopt] at h
      cases h
    | ok r =>
      rw [hopt] at h
      change (parseOptions room r.2.1 r.2.2).bind _ = _ at h
      cases hrest : parseOptions room r.2.1 r.2.2 with
      | error e =>
        rw [hrest] at h
        cases h
      | ok s =>
        rw [hrest] at h
        cases h
        exact ⟨r.2.1, r.2.2, rfl, hrest⟩

theorem parseOption_length {running running' : UInt16} {p q : Buffer} {o : Opt}
    (h : parseOption running p = .ok (o, running', q)) : o.buf.bytes.length < 2 ^ 16 := by
  rw [parseOption] at h
  split at h
  · cases h
  · next b _ _ =>
    cases hd : parseExtended ((b &&& 0xF0) >>> 4) .optionDeltaInvalid (p.drop 1) with
    | error e =>
      rw [hd] at h
      cases h
    | ok d =>
      rw [hd] at h
      change (parseExtended (b &&& 0x0F) .optionLenInvalid d.2).bind _ = _ at h
      cases hl : parseExtended (b &&& 0x0F) .optionLenInvalid d.2 with
      | error e =>
        rw [hl] at h
        cases h
      | ok l =>
        rw [hl] at h
        change (if l.2.bytes.length < l.1.toNat then _ else _) = _ at h
        split at h
        · cases h
        · cases h
          exact Nat.lt_of_le_of_lt (List.length_take_le _ _) l.1.toNat_lt

theorem parseOptions_narrow {room : Nat} {running : UInt16} {p q : Buffer} {os : List Opt}
    (h : parseOptions room running p = .ok (os, q)) : ∀ o ∈ os.map plain, Narrow o := by
  induction os generalizing room running p with
  | nil => exact fun o ho => absurd ho List.not_mem_nil
  | cons o os ih =>
    cases room with
    | zero => cases h
    | succ room =>
      obtain ⟨running', p', hopt, hrest⟩ := parseOptions_cons h
      rw [List.map_cons]
      exact List.forall_mem_cons.mpr ⟨⟨Nat.le_of_lt_succ o.num.toNat_lt,
        parseOption_length hopt⟩, ih hrest⟩

/-- The bytes behind the token, whose length is in the first byte. -/
def optionArea (buf : List UInt8) : List UInt8 := buf.drop (4 + (buf.headD 0).toNat % 16)

theorem parseHeader_tkl {buf : Buffer} {hdr : Header} (h : parseHeader buf = .ok hdr) :
    buf.bytes.drop (4 + hdr.tkl.toNat) = optionArea buf.bytes := by
  rw [parseHeader] at h
  split at h
  · next b0 b1 b2 b3 rest hbytes =>
    split at h
    · cases h
    · cases h
      rw [optionArea, hbytes, (nibble_toNat b0).2]
      rfl
  · cases h

/-- The options and the payload of a packet are what the bytes encode. -/
def Faithful (buf : Buffer) (pkt : Packet) : Prop :=
  Encodes 0 (optionArea buf.bytes) (pkt.opts.map plain) pkt.payload.bytes

/-- The bytes encode options that fit the table, with numbers of 8 bits and lengths of 16. -/
def Fits (buf : Buffer) : Prop :=
  ∃ opts payload, Encodes 0 (optionArea buf.bytes) opts payload ∧ opts.length ≤ maxopt ∧
    ∀ o ∈ opts, Narrow o

theorem parse_faithful_iff (buf : Buffer) (pkt : Packet) (h : parse buf = .ok pkt) :
    Faithful buf pkt ↔ Fits buf := by
  obtain ⟨hhdr, htok, hboth⟩ := parse_eq_ok.mp h
  rw [parseOptionsAndPayload] at hboth
  split at hboth
  · cases hboth
  cases hopts : parseOptions maxopt 0 (buf.drop (4 + pkt.hdr.tkl.toNat)) with
  | error e =>
    rw [hopts] at hboth
    cases hboth
  | ok r =>
    rw [hopts] at hboth
    change Except.ok (r.1, parsePayload r.2) = _ at hboth
    obtain ⟨hos, hpayload⟩ := Prod.mk.inj (Except.ok.inj hboth)
    constructor
    · intro hfaithful
      refine ⟨_, _, hfaithful, ?_, ?_⟩
      · rw [List.length_map]
        exact pkt.numopts
      · rw [← hos]
        exact parseOptions_narrow hopts
    · rintro ⟨opts, payload, hencodes, hlength, hnarrow⟩
      obtain ⟨os, q, hparse, hmap, hpay⟩ := parseOptions_encodes hencodes
        (p := buf.drop (4 + pkt.hdr.tkl.toNat)) (parseHeader_tkl hhdr) UInt16.toNat_zero hlength
        hnarrow
      rw [hparse] at hopts
      cases hopts
      rw [Faithful, ← hos, ← hpayload, hmap, hpay]
      exact hencodes

/-- A request for the path `x`. -/
def request : Buffer := ⟨[0x40, 0x01, 0x00, 0x01, 0xB1, 0x78], by decide⟩

def requestPacket : Packet :=
  ⟨⟨1, 0, 0, 1, (0, 1)⟩, .empty, [⟨11, ⟨[0x78], by decide⟩⟩], .empty, by decide⟩

theorem request_faithful : Faithful request requestPacket :=
  (parse_faithful_iff request requestPacket rfl).mpr
    ⟨[(11, [0x78])], [], .option 0 0xB1 [0x78] [0x78] [0x78] [] [] 11 [] (by decide) rfl rfl
      (.done 11), by decide, by decide⟩

/-- Option 267 is taken for the path. -/
def aliased : Buffer := ⟨[0x40, 0x01, 0x00, 0x01, 0xD1, 0xFE, 0x78], by decide⟩

theorem aliased_not_faithful : ∃ pkt, parse aliased = .ok pkt ∧ ¬Faithful aliased pkt := by
  refine ⟨requestPacket, rfl, fun h => ?_⟩
  have hencodes : Encodes 0 (optionArea aliased.bytes) [(267, [0x78])] [] :=
    .option 0 0xD1 [0xFE, 0x78] [0x78] [0x78] [] [] 267 [] (by decide) rfl rfl (.done 267)
  have hopts := (Encodes.unique h hencodes).1
  exact absurd hopts (by decide)

end NodeMcu.Coap.Fidelity
