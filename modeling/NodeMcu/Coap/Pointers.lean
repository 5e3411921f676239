import NodeMcu.Coap.Codec
import NodeMcu.Lib.Reading

namespace NodeMcu.Coap.Pointers

open NodeMcu.Lib.Memory NodeMcu.Lib.Reading NodeMcu.Coap.Codec

/-! ## The parser over a memory

The message begins at index 0. Bytes behind it can be read like those of the message. -/

/-- A pointer with a length. The null pointer is `none`. -/
structure Slice where
  p : Option Nat
  len : Nat

def Slice.null : Slice := ⟨none, 0⟩

/-- The bytes are among the first `n`. The null pointer has none. -/
def Slice.Inside (n : Nat) (s : Slice) : Prop :=
  match s.p with
  | none => s.len = 0
  | some p => p + s.len ≤ n

structure Opt where
  num : UInt8
  buf : Slice

structure Packet where
  hdr : Header
  tok : Slice
  opts : List Opt
  payload : Slice

def parseHeader (m : Mem) (buflen : Nat) : Reads (Except Err Header) :=
  if buflen < 4 then pure (.error .headerTooShort)
  else do
    let b0 ← byte m 0
    let ver := (b0 &&& 0xC0) >>> 6
    if ver ≠ 1 then pure (.error .versionNot1)
    else do
      let code ← byte m 1
      let id0 ← byte m 2
      let id1 ← byte m 3
      pure (.ok ⟨ver, (b0 &&& 0x30) >>> 4, b0 &&& 0x0F, code, (id0, id1)⟩)

def parseToken (hdr : Header) (buflen : Nat) : Except Err Slice :=
  if hdr.tkl = 0 then .ok .null
  else if hdr.tkl ≤ 8 then
    if buflen < 4 + hdr.tkl.toNat then .error .tokenTooShort
    else .ok ⟨some 4, hdr.tkl.toNat⟩
  else .error .tokenTooShort

/-- The pointer inside the header of an option, and the length that the header has come to. -/
structure Cursor where
  headlen : UInt8
  p : Nat

/-- A delta or a length, in its nibble or in the bytes behind the cursor. -/
def parseExtended (m : Mem) (buflen : Nat) (invalid : Err) (nibble : UInt16) (c : Cursor) :
    Reads (Except Err (UInt16 × Cursor)) :=
  if nibble = 13 then
    let headlen := c.headlen + 1
    if buflen < headlen.toNat then pure (.error .optionTooShortForHeader)
    else do
      let b ← byte m (c.p + 1)
      pure (.ok (b.toUInt16 + 13, ⟨headlen, c.p + 1⟩))
  else if nibble = 14 then
    let headlen := c.headlen + 2
    if buflen < headlen.toNat then pure (.error .optionTooShortForHeader)
    else do
      let b ← byte m (c.p + 1)
      let b' ← byte m (c.p + 2)
      pure (.ok ((b.toUInt16 <<< 8 ||| b'.toUInt16) + 269, ⟨headlen, c.p + 2⟩))
  else if nibble = 15 then pure (.error invalid)
  else pure (.ok (nibble, c))

/-- An option, with the running delta and the pointer behind it. -/
structure Step where
  option : Opt
  running : UInt16
  p : Nat

def parseOption (m : Mem) (running : UInt16) (buf buflen : Nat) : Reads (Except Err Step) :=
  if buflen < 1 then pure (.error .optionTooShortForHeader)
  else do
    let b ← byte m buf
    attempt (parseExtended m buflen .optionDeltaInvalid ((b &&& 0xF0) >>> 4).toUInt16 ⟨1, buf⟩)
      fun delta =>
    attempt (parseExtended m buflen .optionLenInvalid (b &&& 0x0F).toUInt16 delta.2) fun len =>
    if buf + buflen < len.2.p + 1 + len.1.toNat then pure (.error .optionTooBig)
    else pure (.ok
      { option := ⟨(delta.1 + running).toUInt8, ⟨some (len.2.p + 1), len.1.toNat⟩⟩
        running := running + delta.1
        p := len.2.p + 1 + len.1.toNat })

/-- The options that are stored in the table, and the pointer behind them. The first argument is the
room that the table has left. -/
def parseOptions (m : Mem) (fin : Nat) :
    Nat → UInt16 → Nat → List Opt → Reads (List Opt × Except Err Nat)
  | 0, _, p, stored => pure (stored, .ok p)
  | room + 1, running, p, stored =>
    if p < fin then do
      let b ← byte m p
      if b ≠ 0xFF then do
        let r ← parseOption m running p (fin - p)
        match r with
        | .error e => pure (stored, .error e)
        | .ok r => parseOptions m fin room r.running r.p (stored ++ [r.option])
      else pure (stored, .ok p)
    else pure (stored, .ok p)

def parsePayload (m : Mem) (fin p : Nat) : Reads Slice :=
  if p + 1 < fin then do
    let b ← byte m p
    pure (if b = 0xFF then ⟨some (p + 1), fin - (p + 1)⟩ else .null)
  else pure .null

def parseOptionsAndPayload (m : Mem) (hdr : Header) (buflen : Nat) :
    Reads (List Opt × Except Err Slice) :=
  let p := 4 + hdr.tkl.toNat
  if buflen < p then pure ([], .error .optionOverrunsPacket)
  else do
    let r ← parseOptions m buflen maxopt 0 p []
    match r.2 with
    | .error e => pure (r.1, .error e)
    | .ok p => do
      let payload ← parsePayload m buflen p
      pure (r.1, .ok payload)

/-- What a call leaves behind: the options it has stored, also where it fails, and its result. -/
structure Parsed where
  stored : List Opt
  result : Except Err Packet

def parse (m : Mem) (buflen : Nat) : Reads Parsed := do
  let r ← parseHeader m buflen
  match r with
  | .error e => pure ⟨[], .error e⟩
  | .ok hdr =>
    match parseToken hdr buflen with
    | .error e => pure ⟨[], .error e⟩
    | .ok tok => do
      let r ← parseOptionsAndPayload m hdr buflen
      match r.2 with
      | .error e => pure ⟨r.1, .error e⟩
      | .ok payload => pure ⟨r.1, .ok ⟨hdr, tok, r.1, payload⟩⟩

/-! ## The bounds -/

section Safety

variable {m : Mem}

/-- The header of the option at `buf` ends where the cursor is, among the bytes that are left. -/
structure Cursor.At (buf buflen : Nat) (c : Cursor) : Prop where
  p : c.p + 1 = buf + c.headlen.toNat
  le : c.headlen.toNat ≤ buflen

theorem parseHeader_within (buflen : Nat) : Within buflen (parseHeader m buflen) := by
  rw [parseHeader]
  split
  · exact within_pure _ _
  · simp only [within_bind, within_byte, within_ite, within_pure, and_true]
    refine ⟨by omega, ?_⟩
    split
    · trivial
    · exact ⟨by omega, by omega, by omega⟩

theorem parseToken_inside {hdr : Header} {buflen : Nat} {tok : Slice}
    (h : parseToken hdr buflen = .ok tok) : tok.Inside buflen := by
  rw [parseToken] at h
  split at h
  · cases h
    rfl
  · split at h
    · split at h
      · cases h
      · cases h
        exact Nat.le_of_not_lt ‹_›
    · cases h

/-- Each part of a header is read after its length has been added and compared. -/
theorem parseExtended_at {buf buflen : Nat} {c : Cursor} (hc : c.At buf buflen)
    (hlen : c.headlen.toNat ≤ 3) (invalid : Err) (nibble : UInt16) :
    Within (buf + buflen) (parseExtended m buflen invalid nibble c) ∧
      ∀ r, (parseExtended m buflen invalid nibble c).val = .ok r →
        r.2.At buf buflen ∧ r.2.headlen.toNat ≤ c.headlen.toNat + 2 := by
  obtain ⟨hp, hle⟩ := hc
  have h1 : (c.headlen + 1).toNat = c.headlen.toNat + 1 := by
    rw [UInt8.toNat_add]
    exact Nat.mod_eq_of_lt (by change c.headlen.toNat + 1 < 256; omega)
  have h2 : (c.headlen + 2).toNat = c.headlen.toNat + 2 := by
    rw [UInt8.toNat_add]
    exact Nat.mod_eq_of_lt (by change c.headlen.toNat + 2 < 256; omega)
  rw [parseExtended]
  split
  · dsimp only
    split
    · exact ⟨within_pure _ _, fun r h => by cases h⟩
    · simp only [within_bind, within_byte, within_pure, and_true, bind_val, pure_val]
      refine ⟨by omega, fun r h => ?_⟩
      cases h
      refine ⟨⟨?_, ?_⟩, ?_⟩ <;> dsimp only <;> omega
  · split
    · dsimp only
      split
      · exact ⟨within_pure _ _, fun r h => by cases h⟩
      · simp only [within_bind, within_byte, within_pure, and_true, bind_val, pure_val]
        refine ⟨⟨by omega, by omega⟩, fun r h => ?_⟩
        cases h
        refine ⟨⟨?_, ?_⟩, ?_⟩ <;> dsimp only <;> omega
    · split
      · exact ⟨within_pure _ _, fun r h => by cases h⟩
      · refine ⟨within_pure _ _, fun r h => ?_⟩
        cases h
        exact ⟨⟨hp, hle⟩, Nat.le_add_right _ _⟩

theorem parseOption_inside (running : UInt16) (buf buflen : Nat) (hpos : 0 < buflen) :
    Within (buf + buflen) (parseOption m running buf buflen) ∧
      ∀ r, (parseOption m running buf buflen).val = .ok r →
        r.option.buf.Inside (buf + buflen) ∧ r.p ≤ buf + buflen := by
  have hstart : Cursor.At buf buflen ⟨1, buf⟩ := ⟨rfl, hpos⟩
  have hdelta := parseExtended_at (m := m) hstart (by decide : (1 : UInt8).toNat ≤ 3)
    .optionDeltaInvalid ((m buf &&& 0xF0) >>> 4).toUInt16
  have hlen := fun r h => parseExtended_at (m := m) (hdelta.2 r h).1 (hdelta.2 r h).2
    .optionLenInvalid (m buf &&& 0x0F).toUInt16
  rw [parseOption, if_neg (by omega)]
  constructor
  · rw [within_bind, within_byte]
    refine ⟨by omega, within_attempt hdelta.1 fun d hd => within_attempt (hlen d hd).1
      fun l hl => ?_⟩
    split
    · exact within_pure _ _
    · exact within_pure _ _
  · intro r h
    rw [bind_val] at h
    obtain ⟨d, hd, h⟩ := attempt_val_ok h
    obtain ⟨l, hl, h⟩ := attempt_val_ok h
    split at h
    · cases h
    · cases h
      have hend : l.2.p + 1 + l.1.toNat ≤ buf + buflen := by omega
      exact ⟨hend, hend⟩

/-- What holds of the loop over the options: nothing is read or stored from outside, and the table
has room for what is stored. -/
theorem parseOptions_inside (fin room : Nat) (running : UInt16) (p : Nat) (stored : List Opt)
    (hp : p ≤ fin) (hstored : ∀ o ∈ stored, o.buf.Inside fin) :
    Within fin (parseOptions m fin room running p stored) ∧
      (parseOptions m fin room running p stored).val.1.length ≤ stored.length + room ∧
      (∀ o ∈ (parseOptions m fin room running p stored).val.1, o.buf.Inside fin) ∧
      ∀ q, (parseOptions m fin room running p stored).val.2 = .ok q → q ≤ fin := by
  induction room generalizing running p stored with
  | zero =>
    refine ⟨within_pure _ _, Nat.le_refl _, hstored, fun q hq => ?_⟩
    cases hq
    exact hp
  | succ room ih =>
    have hstop : Within fin (pure (stored, .ok p) : Reads (List Opt × Except Err Nat)) ∧
        stored.length ≤ stored.length + (room + 1) ∧ (∀ o ∈ stored, o.buf.Inside fin) ∧
        ∀ q, (Except.ok p : Except Err Nat) = .ok q → q ≤ fin := by
      refine ⟨within_pure _ _, Nat.le_add_right _ _, hstored, fun q hq => ?_⟩
      cases hq
      exact hp
    rw [parseOptions]
    by_cases hlt : p < fin
    · rw [if_pos hlt]
      by_cases hmarker : m p = 0xFF
      · simp only [within_bind, within_byte, bind_val, hmarker, ne_eq, not_true_eq_false, if_false]
        exact ⟨⟨hlt, hstop.1⟩, hstop.2⟩
      · simp only [within_bind, within_byte, bind_val, ne_eq, hmarker, not_false_eq_true, if_true]
        have hopt := parseOption_inside (m := m) running p (fin - p) (by omega)
        have hfin : p + (fin - p) = fin := by omega
        rw [hfin] at hopt
        cases hr : (parseOption m running p (fin - p)).val with
        | error e =>
          refine ⟨⟨hlt, hopt.1, within_pure _ _⟩, Nat.le_add_right _ _, hstored, fun q hq => ?_⟩
          cases hq
        | ok r =>
          obtain ⟨hin, hle⟩ := hopt.2 r hr
          have hrest := ih r.running r.p (stored ++ [r.option]) hle (by
            intro o ho
            obtain ho | ho := List.mem_append.mp ho
            · exact hstored o ho
            · rw [List.mem_singleton.mp ho]
              exact hin)
          rw [List.length_append, List.length_singleton] at hrest
          exact ⟨⟨hlt, hopt.1, hrest.1⟩, Nat.le_trans hrest.2.1 (by omega), hrest.2.2⟩
    · rw [if_neg hlt]
      exact hstop

theorem parsePayload_inside (fin p : Nat) :
    Within fin (parsePayload m fin p) ∧ (parsePayload m fin p).val.Inside fin := by
  rw [parsePayload]
  split
  · simp only [within_bind, within_byte, within_pure, and_true, bind_val, pure_val]
    refine ⟨by omega, ?_⟩
    split
    · change p + 1 + (fin - (p + 1)) ≤ fin
      omega
    · rfl
  · exact ⟨within_pure _ _, rfl⟩

theorem parseOptionsAndPayload_inside (hdr : Header) (buflen : Nat) :
    Within buflen (parseOptionsAndPayload m hdr buflen) ∧
      (parseOptionsAndPayload m hdr buflen).val.1.length ≤ maxopt ∧
      (∀ o ∈ (parseOptionsAndPayload m hdr buflen).val.1, o.buf.Inside buflen) ∧
      ∀ s, (parseOptionsAndPayload m hdr buflen).val.2 = .ok s → s.Inside buflen := by
  rw [parseOptionsAndPayload]
  split
  · refine ⟨within_pure _ _, Nat.zero_le _, fun o ho => ?_, fun s hs => ?_⟩
    · cases ho
    · cases hs
  · obtain ⟨hwithin, hlength, hinside, hend⟩ := parseOptions_inside (m := m) buflen maxopt 0
      (4 + hdr.tkl.toNat) [] (by omega) (fun o ho => by cases ho)
    rw [List.length_nil, Nat.zero_add] at hlength
    rw [within_bind, bind_val]
    cases hr : (parseOptions m buflen maxopt 0 (4 + hdr.tkl.toNat) []).val.2 with
    | error e => exact ⟨⟨hwithin, within_pure _ _⟩, hlength, hinside, fun s hs => by cases hs⟩
    | ok p =>
      have hpayload := parsePayload_inside (m := m) buflen p
      refine ⟨⟨hwithin, ?_⟩, hlength, hinside, fun s hs => ?_⟩
      · simp only [within_bind, within_pure, and_true]
        exact hpayload.1
      · cases hs
        exact hpayload.2

end Safety

/-- The slices of a packet lie among the first `n` bytes. -/
structure Packet.Inside (n : Nat) (pkt : Packet) : Prop where
  tok : pkt.tok.Inside n
  opts : ∀ o ∈ pkt.opts, o.buf.Inside n
  payload : pkt.payload.Inside n

/-- The parser ends, reads the message only, has room for the options, and what it gives back lies
in the message. -/
theorem parse_safe (m : Mem) (buflen : Nat) :
    Within buflen (parse m buflen) ∧ (parse m buflen).val.stored.length ≤ maxopt ∧
      ∀ pkt, (parse m buflen).val.result = .ok pkt →
        pkt.opts = (parse m buflen).val.stored ∧ pkt.Inside buflen := by
  have hheader := parseHeader_within (m := m) buflen
  rw [parse, within_bind, bind_val]
  cases hh : (parseHeader m buflen).val with
  | error e =>
    exact ⟨⟨hheader, within_pure _ _⟩, Nat.zero_le _, fun pkt h => by cases h⟩
  | ok hdr =>
    dsimp only
    cases ht : parseToken hdr buflen with
    | error e =>
      exact ⟨⟨hheader, within_pure _ _⟩, Nat.zero_le _, fun pkt h => by cases h⟩
    | ok tok =>
      obtain ⟨hwithin, hlength, hopts, hpayload⟩ :=
        parseOptionsAndPayload_inside (m := m) hdr buflen
      dsimp only
      rw [within_bind, bind_val]
      cases hr : (parseOptionsAndPayload m hdr buflen).val.2 with
      | error e =>
        exact ⟨⟨hheader, hwithin, within_pure _ _⟩, hlength, fun pkt h => by cases h⟩
      | ok payload =>
        refine ⟨⟨hheader, hwithin, within_pure _ _⟩, hlength, fun pkt h => ?_⟩
        cases h
        exact ⟨rfl, parseToken_inside ht, hopts, hpayload payload hr⟩

/-! ## The same results as over buffers -/

def Slice.bytes (m : Mem) (s : Slice) : List UInt8 :=
  match s.p with
  | none => []
  | some p => read m p s.len

/-- Two results are the same error, or both there and related. -/
def Agree {α β : Type} (R : α → β → Prop) : Except Err α → Except Err β → Prop
  | .ok a, .ok b => R a b
  | .error e, .error e' => e = e'
  | _, _ => False

/-- The pointer `p` leads to what is left of the message. -/
def Left (m : Mem) (fin p : Nat) (q : Buffer) : Prop := p ≤ fin ∧ q.bytes = read m p (fin - p)

section Refinement

variable {m : Mem}

theorem Agree.cases {α β : Type} {R : α → β → Prop} {x : Except Err α} {y : Except Err β}
    (h : Agree R x y) :
    (∃ e, x = .error e ∧ y = .error e) ∨ ∃ a b, x = .ok a ∧ y = .ok b ∧ R a b := by
  cases x with
  | error e =>
    cases y with
    | error e' => exact .inl ⟨e, rfl, congrArg _ (Eq.symm h)⟩
    | ok b => exact h.elim
  | ok a =>
    cases y with
    | error e' => exact h.elim
    | ok b => exact .inr ⟨a, b, rfl, rfl, h⟩

theorem Agree.bind {α β α' β' : Type} {R : α → β → Prop} {S : α' → β' → Prop}
    {x : Except Err α} {y : Except Err β} {f : α → Except Err α'} {g : β → Except Err β'}
    (h : Agree R x y) (hfg : ∀ a b, x = .ok a → R a b → Agree S (f a) (g b)) :
    Agree S (x.bind f) (y.bind g) := by
  obtain ⟨e, rfl, rfl⟩ | ⟨a, b, rfl, rfl, hab⟩ := h.cases
  · rfl
  · exact hfg a b rfl hab

theorem attempt_val {α β : Type} (x : Reads (Except Err α)) (f : α → Reads (Except Err β)) :
    (attempt x f).val = x.val.bind fun a => (f a).val := by
  cases hx : x.val with
  | error e => exact attempt_error hx f
  | ok a => exact attempt_ok hx f

theorem Left.drop {fin p k : Nat} {q : Buffer} (h : Left m fin p q) (hk : p + k ≤ fin) :
    Left m fin (p + k) (q.drop k) := by
  refine ⟨hk, ?_⟩
  rw [Buffer.drop_bytes, h.2, read_drop m p (by omega), Nat.sub_sub, Nat.cast_add]

theorem Left.length {fin p : Nat} {q : Buffer} (h : Left m fin p q) : q.bytes.length = fin - p := by
  rw [h.2, read_length]

theorem Left.bytes_succ {fin p : Nat} {q : Buffer} (h : Left m fin p q) (hlt : p < fin) :
    q.bytes = m p :: read m ((p + 1 : Nat) : Int) (fin - (p + 1)) := by
  rw [h.2, show fin - p = fin - (p + 1) + 1 by omega, read_succ, Nat.cast_add]
  rfl

theorem Left.bytes_nil {fin p : Nat} {q : Buffer} (h : Left m fin p q) (hle : fin ≤ p) :
    q.bytes = [] := by
  rw [h.2, Nat.sub_eq_zero_of_le hle]
  rfl

theorem toUInt16_eq_iff (nibble k : UInt8) : nibble.toUInt16 = k.toUInt16 ↔ nibble = k := by
  rw [← UInt16.toNat_inj, ← UInt8.toNat_inj, UInt8.toNat_toUInt16, UInt8.toNat_toUInt16]

theorem headlen_add {headlen k : UInt8} (h : headlen.toNat + k.toNat < 256) :
    (headlen + k).toNat = headlen.toNat + k.toNat := by
  rw [UInt8.toNat_add]
  exact Nat.mod_eq_of_lt h

theorem parseExtended_agree {buf buflen : Nat} {c : Cursor} {q : Buffer}
    (hc : c.At buf buflen) (hlen : c.headlen.toNat ≤ 3) (hq : Left m (buf + buflen) (c.p + 1) q)
    (invalid : Err) (nibble : UInt8) :
    Agree (fun r s => r.1 = s.1 ∧ Left m (buf + buflen) (r.2.p + 1) s.2)
      (parseExtended m buflen invalid nibble.toUInt16 c).val
      (Codec.parseExtended nibble invalid q) := by
  obtain ⟨hp, hle⟩ := hc
  have w13 : nibble.toUInt16 = 13 ↔ nibble = 13 := toUInt16_eq_iff nibble 13
  have w14 : nibble.toUInt16 = 14 ↔ nibble = 14 := toUInt16_eq_iff nibble 14
  have w15 : nibble.toUInt16 = 15 ↔ nibble = 15 := toUInt16_eq_iff nibble 15
  have h1 : (c.headlen + 1).toNat = c.headlen.toNat + 1 :=
    headlen_add (by change c.headlen.toNat + 1 < 256; omega)
  have h2 : (c.headlen + 2).toNat = c.headlen.toNat + 2 :=
    headlen_add (by change c.headlen.toNat + 2 < 256; omega)
  rw [parseExtended, Codec.parseExtended]
  by_cases h13 : nibble = 13
  · rw [if_pos (w13.mpr h13), if_pos h13]
    dsimp only
    by_cases hshort : buflen < (c.headlen + 1).toNat
    · rw [if_pos hshort, hq.bytes_nil (by omega)]
      rfl
    · rw [if_neg hshort, hq.bytes_succ (by omega)]
      exact ⟨rfl, hq.drop (k := 1) (by omega)⟩
  rw [if_neg fun h => h13 (w13.mp h), if_neg h13]
  by_cases h14 : nibble = 14
  · rw [if_pos (w14.mpr h14), if_pos h14]
    dsimp only
    by_cases hshort : buflen < (c.headlen + 2).toNat
    · rw [if_pos hshort]
      by_cases hone : c.p + 1 < buf + buflen
      · rw [hq.bytes_succ hone, show buf + buflen - (c.p + 1 + 1) = 0 by omega]
        rfl
      · rw [hq.bytes_nil (by omega)]
        rfl
    · rw [if_neg hshort, hq.bytes_succ (by omega),
        show buf + buflen - (c.p + 1 + 1) = buf + buflen - (c.p + 3) + 1 by omega, read_succ]
      exact ⟨rfl, hq.drop (k := 2) (by omega)⟩
  rw [if_neg fun h => h14 (w14.mp h), if_neg h14]
  by_cases h15 : nibble = 15
  · rw [if_pos (w15.mpr h15), if_pos h15]
    rfl
  · rw [if_neg fun h => h15 (w15.mp h), if_neg h15]
    exact ⟨rfl, hq⟩

/-- An option as a slice, and as a buffer. -/
def SameOpt (m : Mem) (o : Opt) (o' : Codec.Opt) : Prop :=
  o.num = o'.num ∧ o.buf.bytes m = o'.buf.bytes

theorem parseOption_agree (running : UInt16) {buf buflen : Nat} {q : Buffer} (hpos : 0 < buflen)
    (hq : Left m (buf + buflen) buf q) :
    Agree (fun r s => SameOpt m r.option s.1 ∧ r.running = s.2.1 ∧
        Left m (buf + buflen) r.p s.2.2)
      (parseOption m running buf buflen).val (Codec.parseOption running q) := by
  have hstart : Cursor.At buf buflen ⟨1, buf⟩ := ⟨rfl, hpos⟩
  have h3 : (1 : UInt8).toNat ≤ 3 := by decide
  rw [parseOption, if_neg (by omega), Codec.parseOption, hq.bytes_succ (by omega), bind_val,
    attempt_val]
  refine Agree.bind (parseExtended_agree hstart h3 (hq.drop (k := 1) (by omega)) _ _) ?_
  rintro d ⟨_, q'⟩ hd ⟨rfl, hq'⟩
  obtain ⟨hat, hhead⟩ := (parseExtended_at hstart h3 _ _).2 d hd
  rw [attempt_val]
  refine Agree.bind (parseExtended_agree hat hhead hq' _ _) ?_
  rintro l ⟨_, q''⟩ - ⟨rfl, hq''⟩
  have hle := hq''.1
  dsimp only
  rw [ite_val, hq''.length]
  by_cases hbig : buf + buflen < l.2.p + 1 + l.1.toNat
  · rw [if_pos hbig, if_pos (by omega)]
    rfl
  · rw [if_neg hbig, if_neg (by omega)]
    refine ⟨⟨rfl, ?_⟩, rfl, hq''.drop (by omega)⟩
    rw [Buffer.take_bytes, hq''.2, read_take _ _ (by omega)]
    rfl

theorem parseOptions_agree (room : Nat) (running : UInt16) {fin p : Nat} (stored : List Opt)
    {q : Buffer} (hq : Left m fin p q) :
    Agree (fun p' s => ∃ os, (parseOptions m fin room running p stored).val.1 = stored ++ os ∧
        List.Forall₂ (SameOpt m) os s.1 ∧ Left m fin p' s.2)
      (parseOptions m fin room running p stored).val.2 (Codec.parseOptions room running q) := by
  induction room generalizing running p stored q with
  | zero => exact ⟨[], (List.append_nil _).symm, .nil, hq⟩
  | succ room ih =>
    rw [parseOptions, Codec.parseOptions]
    by_cases hlt : p < fin
    · rw [if_pos hlt, hq.bytes_succ hlt]
      by_cases hmarker : m p = 0xFF
      · simp only [bind_val, hmarker, ne_eq, not_true_eq_false, if_false, List.head?_cons, or_true,
          if_true]
        exact ⟨[], (List.append_nil _).symm, .nil, hq⟩
      · simp only [bind_val, hmarker, ne_eq, not_false_eq_true, if_true, List.head?_cons,
          Option.some.injEq, reduceCtorEq, or_self, if_false]
        have hfin : p + (fin - p) = fin := by omega
        have hopt := parseOption_agree running (by omega)
          (hfin.symm ▸ hq : Left m (p + (fin - p)) p q)
        rw [hfin] at hopt
        obtain ⟨e, hr, hr'⟩ | ⟨r, r', hr, hr', hsame, hrunning, hleft⟩ := hopt.cases
        · rw [hr, hr']
          rfl
        · rw [hr, hr']
          change Agree _ _ ((Codec.parseOptions room r'.2.1 r'.2.2).bind _)
          rw [← hrunning]
          dsimp only
          obtain ⟨e, ho, ho'⟩ | ⟨p', s, ho, ho', os, hos, hall, hend⟩ :=
            (ih r.running (stored ++ [r.option]) hleft).cases
          · rw [ho, ho']
            rfl
          · rw [ho, ho']
            refine ⟨r.option :: os, ?_, .cons hsame hall, hend⟩
            rw [hos, List.append_assoc]
            rfl
    · rw [if_neg hlt, hq.bytes_nil (by omega), if_pos (.inl rfl)]
      exact ⟨[], (List.append_nil _).symm, .nil, hq⟩

structure SamePacket (m : Mem) (pkt : Packet) (pkt' : Codec.Packet) : Prop where
  hdr : pkt.hdr = pkt'.hdr
  tok : pkt.tok.bytes m = pkt'.tok.bytes
  opts : List.Forall₂ (SameOpt m) pkt.opts pkt'.opts
  payload : pkt.payload.bytes m = pkt'.payload.bytes

theorem parseHeader_agree {buf : Buffer} (h : Left m buf.bytes.length 0 buf) :
    (parseHeader m buf.bytes.length).val = Codec.parseHeader buf := by
  rw [parseHeader, Codec.parseHeader]
  by_cases hshort : buf.bytes.length < 4
  · rw [if_pos hshort]
    match hb : buf.bytes with
    | [] | [_] | [_, _] | [_, _, _] => rfl
    | _ :: _ :: _ :: _ :: _ =>
      rw [hb] at hshort
      simp only [List.length_cons] at hshort
      omega
  · obtain ⟨n, hn⟩ := Nat.exists_eq_add_of_le' (Nat.le_of_not_lt hshort)
    have hbytes := h.2
    rw [hn, Nat.sub_zero, read_succ, read_succ, read_succ, read_succ] at hbytes
    rw [if_neg hshort, hbytes]
    dsimp only
    rw [bind_val, ite_val]
    split
    · rfl
    · rfl

theorem parseToken_agree {buf : Buffer} (h : Left m buf.bytes.length 0 buf) (hdr : Header) :
    Agree (fun s b => s.bytes m = b.bytes) (parseToken hdr buf.bytes.length)
      (Codec.parseToken hdr buf) := by
  rw [parseToken, Codec.parseToken]
  split
  · rfl
  · split
    · split
      · rfl
      · have hdrop := h.drop (k := 4) (by omega)
        change read m 4 hdr.tkl.toNat = (buf.drop 4).bytes.take hdr.tkl.toNat
        rw [hdrop.2, read_take _ _ (by omega)]
        rfl
    · rfl

theorem parsePayload_agree {fin p : Nat} {q : Buffer} (hq : Left m fin p q) :
    (parsePayload m fin p).val.bytes m = (Codec.parsePayload q).bytes := by
  rw [parsePayload, Codec.parsePayload, hq.length, ite_val, bind_val]
  by_cases hlt : p + 1 < fin
  · rw [if_pos hlt, hq.bytes_succ (by omega)]
    by_cases hmarker : m p = 0xFF
    · rw [pure_val, if_pos hmarker, if_pos ⟨by omega, congrArg some hmarker⟩,
        (hq.drop (k := 1) (by omega)).2]
      rfl
    · rw [pure_val, if_neg hmarker, if_neg fun h => hmarker (Option.some.inj h.2)]
      rfl
  · rw [if_neg hlt, if_neg fun h => hlt (by omega)]
    rfl

theorem parseOptionsAndPayload_agree {buf : Buffer} (h : Left m buf.bytes.length 0 buf)
    (hdr : Header) :
    Agree (fun s r => List.Forall₂ (SameOpt m)
        (parseOptionsAndPayload m hdr buf.bytes.length).val.1 r.1 ∧ s.bytes m = r.2.bytes)
      (parseOptionsAndPayload m hdr buf.bytes.length).val.2
      (Codec.parseOptionsAndPayload hdr buf) := by
  rw [parseOptionsAndPayload, Codec.parseOptionsAndPayload]
  dsimp only
  by_cases hshort : buf.bytes.length < 4 + hdr.tkl.toNat
  · rw [if_pos hshort, if_pos hshort]
    rfl
  · have hdrop := h.drop (k := 4 + hdr.tkl.toNat) (by omega)
    rw [Nat.zero_add] at hdrop
    rw [if_neg hshort, if_neg hshort, bind_val]
    obtain ⟨e, hr, hr'⟩ | ⟨p, r, hr, hr', os, hos, hall, hend⟩ :=
      (parseOptions_agree maxopt 0 [] hdrop).cases
    · rw [hr, hr']
      rfl
    · rw [hr, hr']
      rw [List.nil_append] at hos
      exact ⟨hos.symm ▸ hall, parsePayload_agree hend⟩

/-- The parser gives the same packet as the one over buffers, or the same error. -/
theorem parse_agree {buf : Buffer} (h : read m 0 buf.bytes.length = buf.bytes) :
    Agree (SamePacket m) (parse m buf.bytes.length).val.result (Codec.parse buf) := by
  have hleft : Left m buf.bytes.length 0 buf := ⟨Nat.zero_le _, h.symm⟩
  rw [parse, bind_val, parseHeader_agree hleft, Codec.parse]
  cases hh : Codec.parseHeader buf with
  | error e => rfl
  | ok hdr =>
    dsimp only
    obtain ⟨e, ht, ht'⟩ | ⟨tok, tok', ht, ht', htok⟩ := (parseToken_agree hleft hdr).cases
    · rw [ht, ht']
      rfl
    · rw [ht, ht']
      dsimp only
      rw [bind_val]
      obtain ⟨e, hr, hr'⟩ | ⟨payload, r, hr, hr', hopts, hpayload⟩ :=
        (parseOptionsAndPayload_agree hleft hdr).cases
      · rw [hr]
        dsimp only
        split
        · next e' he =>
          exact Except.error.inj (hr'.symm.trans he)
        · next he =>
          cases hr'.symm.trans he
      · rw [hr]
        dsimp only
        split
        · next he =>
          cases hr'.symm.trans he
        · next he =>
          cases hr'.symm.trans he
          exact ⟨rfl, htok, hopts, hpayload⟩

end Refinement

end NodeMcu.Coap.Pointers
