import Mathlib.Data.List.GetD
import NodeMcu.Socket.Parsing

namespace NodeMcu.Socket.Delivery

open NodeMcu.Socket.Sending NodeMcu.Socket.Parsing

/-! ## Frames of a client -/

inductive Kind
  | text
  | binary
  | close
  | ping
  | pong
  deriving DecidableEq

def Kind.opcode : Kind → UInt8
  | .text => opcodeText
  | .binary => opcodeBinary
  | .close => opcodeClose
  | .ping => opcodePing
  | .pong => opcodePong

/-- A whole message in one frame, with the key of its mask. The control frames are short. -/
structure ClientFrame where
  kind : Kind
  key : Fin 4 → UInt8
  payload : List UInt8
  fits : payload.length < 65536
  control : kind ≠ .text → kind ≠ .binary → payload.length < 126

/-- The shortest form of the length is the one that is used. -/
def ClientFrame.header (f : ClientFrame) : List UInt8 :=
  (0x80 ||| f.kind.opcode) ::
    if f.payload.length < 126 then [UInt8.ofNat (128 + f.payload.length)]
    else [128 + 126, UInt8.ofNat (f.payload.length >>> 8), UInt8.ofNat f.payload.length]

def ClientFrame.masked (f : ClientFrame) : List UInt8 :=
  f.payload.mapIdx fun i b => b ^^^ f.key (Fin.ofNat 4 i)

def ClientFrame.bytes (f : ClientFrame) : List UInt8 := f.header ++ List.ofFn f.key ++ f.masked

/-- What a frame is there for. -/
inductive Effect
  | text (payload : List UInt8)
  | binary (payload : List UInt8)
  | pong
  deriving DecidableEq

/-- A callback whose length is that of its data, or an answer to a ping. -/
def effect : Call → Option Effect
  | .textReceived data lgth => if lgth = data.length then some (.text data) else none
  | .binaryReceived data lgth => if lgth = data.length then some (.binary data) else none
  | .sendData _ _ opcode => if opcode = opcodePong then some .pong else none

def ClientFrame.wanted (f : ClientFrame) : List Effect :=
  match f.kind with
  | .text => [.text f.payload]
  | .binary => [.binary f.payload]
  | .ping => [.pong]
  | .close | .pong => []

/-! ## A frame in a buffer -/

/-- The bytes of a frame but the first stand there. -/
def Holds (mem : Nat → UInt8) (pos : Nat) (f : ClientFrame) : Prop :=
  ∀ i, 0 < i → i < f.bytes.length → mem (pos + i) = f.bytes.getD i 0

theorem bytes_length (f : ClientFrame) :
    f.bytes.length = f.header.length + 4 + f.payload.length := by
  rw [ClientFrame.bytes, List.length_append, List.length_append, List.length_ofFn,
    ClientFrame.masked, List.length_mapIdx]

theorem header_length (f : ClientFrame) :
    f.header.length = if f.payload.length < 126 then 2 else 4 := by
  rw [ClientFrame.header]
  split_ifs <;> rfl

set_option maxRecDepth 2000 in
/-- The second byte of a short frame. -/
theorem second_byte : ∀ n, n < 126 → UInt8.ofNat (128 + n) &&& 0x7F = UInt8.ofNat n ∧
    (UInt8.ofNat (128 + n) &&& 0x80 != 0) = true := by
  decide

section Frame

variable {mem : Nat → UInt8} {pos : Nat} {f : ClientFrame}

theorem Holds.header (h : Holds mem pos f) {i : Nat} (hpos : 0 < i)
    (hi : i < f.header.length) : mem (pos + i) = f.header.getD i 0 := by
  rw [h i hpos (by rw [bytes_length]; omega), ClientFrame.bytes, List.append_assoc,
    List.getD_append _ _ _ _ hi]

theorem Holds.key (h : Holds mem pos f) (j : Fin 4) :
    mem (pos + f.header.length + j) = f.key j := by
  have hheader : 0 < f.header.length := by
    rw [header_length]
    split_ifs <;> decide
  rw [Nat.add_assoc, h _ (by omega) (by rw [bytes_length]; omega), ClientFrame.bytes,
    List.append_assoc, List.getD_append_right _ _ _ _ (by omega), Nat.add_sub_cancel_left,
    List.getD_append _ _ _ _ (by rw [List.length_ofFn]; omega),
    List.getD_eq_getElem _ _ (by rw [List.length_ofFn]; omega), List.getElem_ofFn]

theorem Holds.payload (h : Holds mem pos f) {i : Nat} (hi : i < f.payload.length) :
    mem (pos + f.header.length + 4 + i) = f.payload[i] ^^^ f.key (Fin.ofNat 4 i) := by
  have hlen : (f.header ++ List.ofFn f.key).length = f.header.length + 4 := by
    rw [List.length_append, List.length_ofFn]
  rw [Nat.add_assoc, Nat.add_assoc, h _ (by omega) (by rw [bytes_length]; omega),
    ClientFrame.bytes, List.getD_append_right _ _ _ _ (by omega), hlen,
    show f.header.length + (4 + i) - (f.header.length + 4) = i by omega]
  simp [ClientFrame.masked, hi]

/-- What the parser reads from the header. -/
theorem Holds.reads (h : Holds mem pos f) :
    isMasked mem pos = true ∧ lgthOffset mem pos = f.header.length ∧
      size mem pos = f.payload.length := by
  have hfits := f.fits
  have hlen := header_length f
  by_cases hshort : f.payload.length < 126
  · rw [if_pos hshort] at hlen
    have hheader : f.header = [0x80 ||| f.kind.opcode, UInt8.ofNat (128 + f.payload.length)] := by
      rw [ClientFrame.header, if_pos hshort]
    have h1 : mem (pos + 1) = UInt8.ofNat (128 + f.payload.length) := by
      rw [h.header (by decide) (by omega), hheader]
      rfl
    obtain ⟨hsize, hmask⟩ := second_byte f.payload.length hshort
    have hvalue : (UInt8.ofNat f.payload.length).toNat = f.payload.length := by
      rw [UInt8.toNat_ofNat']
      omega
    have hs : shortSize mem pos = UInt8.ofNat f.payload.length := by
      rw [shortSize, h1, hsize]
    have h126 : shortSize mem pos ≠ 126 := by
      rw [hs]
      intro h0
      rw [h0] at hvalue
      change 126 = _ at hvalue
      omega
    have h127 : shortSize mem pos ≠ 127 := by
      rw [hs]
      intro h0
      rw [h0] at hvalue
      change 127 = _ at hvalue
      omega
    refine ⟨by rw [isMasked, h1, hmask], ?_, ?_⟩
    · rw [lgthOffset, if_neg h126, if_neg h127, hlen]
    · rw [size, if_neg h126, if_neg h127, hs, hvalue]
  · rw [if_neg hshort] at hlen
    have hheader : f.header = [0x80 ||| f.kind.opcode, 254, UInt8.ofNat (f.payload.length >>> 8),
        UInt8.ofNat f.payload.length] := by
      rw [ClientFrame.header, if_neg hshort]
      rfl
    have h1 : mem (pos + 1) = 254 := by
      rw [h.header (by decide) (by omega), hheader]
      rfl
    have h2 : mem (pos + 2) = UInt8.ofNat (f.payload.length >>> 8) := by
      rw [h.header (by decide) (by omega), hheader]
      rfl
    have h3 : mem (pos + 3) = UInt8.ofNat f.payload.length := by
      rw [h.header (by decide) (by omega), hheader]
      rfl
    have hs : shortSize mem pos = 126 := by
      rw [shortSize, h1]
      decide
    refine ⟨by rw [isMasked, h1]; decide, ?_, ?_⟩
    · rw [lgthOffset, if_pos hs, hlen]
    · have hlow : (UInt8.ofNat f.payload.length).toNat < 2 ^ 8 := UInt8.toNat_lt _
      rw [size, if_pos hs, h2, h3, Nat.or_comm, ← Nat.shiftLeft_add_eq_or_of_lt hlow,
        Nat.shiftLeft_eq, UInt8.toNat_ofNat', UInt8.toNat_ofNat', Nat.shiftRight_eq_div_pow]
      omega

theorem Holds.offset_eq (h : Holds mem pos f) : offset mem pos = f.header.length + 4 := by
  obtain ⟨hm, hl, -⟩ := h.reads
  rw [offset, hm, hl, if_pos rfl]

theorem Holds.inside (h : Holds mem pos f) {limit : Nat} (hl : pos + f.bytes.length ≤ limit) :
    Fits limit mem pos := by
  obtain ⟨-, -, hs⟩ := h.reads
  have ho := h.offset_eq
  have hlen := bytes_length f
  exact ⟨by omega, by omega, fun _ => by omega, by omega, by omega⟩

theorem Holds.unmasked (h : Holds mem pos f) {mem' : Nat → UInt8} (hu : Unmasks pos mem mem') :
    ((List.range (size mem pos).toNat).map fun i => mem' (pos + offset mem pos + i)) =
      f.payload := by
  obtain ⟨hm, hl, hs⟩ := h.reads
  have ho := h.offset_eq
  have hn : (size mem pos).toNat = f.payload.length := by rw [hs, Int.toNat_natCast]
  refine List.ext_getElem (by rw [List.length_map, List.length_range, hn]) fun i hi hi' => ?_
  have hkey := h.key (Fin.ofNat 4 i)
  rw [Fin.val_ofNat] at hkey
  rw [List.getElem_map, List.getElem_range, hu.payload i (by omega), if_pos hm, ho, hl, hkey,
    ← Nat.add_assoc, h.payload hi', UInt8.xor_assoc, UInt8.xor_self, UInt8.xor_zero]

/-- The work on a frame gives its payload to the callback of the opcode that stands there, and
takes the opcode of the next one away. -/
theorem parseFrame_holds {limit : Nat} {s : Parser} (dataLen : Nat) (h : Holds s.mem pos f)
    (hl : pos + f.bytes.length ≤ limit) (he : ¬Ends s.mem pos) :
    ∃ t : Parser,
      t.calls = s.calls ++ received (opcode s.mem pos) f.payload f.payload.length ∧
      t.mem (pos + f.bytes.length) = 0 ∧
      (∀ j, pos + f.bytes.length < j → t.mem j = s.mem j) ∧
      parseFrame limit pos dataLen s =
        if f.bytes.length < dataLen then
          .again (pos + f.bytes.length) (dataLen - f.bytes.length) t
        else .ended 0 t := by
  have hfits := f.fits
  have hlen := bytes_length f
  have hheader := header_length f
  obtain ⟨-, -, hs⟩ := h.reads
  have ho := h.offset_eq
  obtain ⟨mem', hu, hframe⟩ := parseFrame_fits dataLen he (h.inside hl)
  obtain ⟨t, hcalls, hmem, hdeliver⟩ := deliver_fits dataLen mem' (h.inside hl)
  have hlast : ((pos : Int) + offset s.mem pos + size s.mem pos).toNat = pos + f.bytes.length := by
    omega
  have hsum : ((size s.mem pos + offset s.mem pos) % 2 ^ 32).toNat = f.bytes.length := by
    split_ifs at hheader <;> omega
  have hnext : ((pos : Int) + (size s.mem pos + offset s.mem pos)).toNat =
      pos + f.bytes.length := by
    omega
  rw [hlast] at hmem
  rw [hsum, hnext] at hdeliver
  rw [h.unmasked hu, hs] at hcalls
  refine ⟨t, hcalls, by rw [hmem, Function.update_self], fun j hj => ?_, hframe.trans hdeliver⟩
  rw [hmem, Function.update_of_ne (by omega)]
  exact hu.same j (.inr (by omega))

end Frame

/-! ## Many frames -/

def stream (frames : List ClientFrame) : List UInt8 := frames.flatMap ClientFrame.bytes

/-- The frames follow each other, whatever their first bytes are. -/
def HoldsAll (mem : Nat → UInt8) : Nat → List ClientFrame → Prop
  | _, [] => True
  | pos, f :: fs => Holds mem pos f ∧ HoldsAll mem (pos + f.bytes.length) fs

theorem HoldsAll.congr {mem mem' : Nat → UInt8} {pos : Nat} {frames : List ClientFrame}
    (h : HoldsAll mem pos frames) (hmem : ∀ j, pos < j → mem' j = mem j) :
    HoldsAll mem' pos frames := by
  induction frames generalizing pos with
  | nil => trivial
  | cons f fs ih =>
    refine ⟨fun i h0 hi => (hmem _ (by omega)).trans (h.1 i h0 hi), ih h.2 fun j hj => ?_⟩
    exact hmem j (by omega)

theorem holdsAll_start (front : List UInt8) (frames : List ClientFrame) :
    HoldsAll (start (front ++ stream frames)).mem front.length frames := by
  induction frames generalizing front with
  | nil => trivial
  | cons f fs ih =>
    have happend : front ++ stream (f :: fs) = front ++ f.bytes ++ stream fs := by
      rw [stream, List.flatMap_cons, ← List.append_assoc]
      rfl
    rw [happend]
    refine ⟨fun i h0 hi => ?_, ?_⟩
    · change (front ++ f.bytes ++ stream fs).getD (front.length + i) 0 = _
      rw [List.append_assoc, List.getD_append_right _ _ _ _ (by omega),
        Nat.add_sub_cancel_left, List.getD_append _ _ _ _ hi]
    · have hrest := ih (front ++ f.bytes)
      rwa [List.length_append] at hrest

/-- Frames whose opcode is gone reach no callback. -/
theorem webSocketParse_rest {limit : Nat} (frames : List ClientFrame) (pos dataLen : Nat)
    (s : Parser) (hzero : s.mem pos = 0) (h : HoldsAll s.mem pos frames)
    (hl : pos + (stream frames).length ≤ limit) (hlen : dataLen ≤ (stream frames).length)
    (hpos : 0 < dataLen) :
    ∃ fuel code t, webSocketParse limit fuel pos dataLen s = some (.returned code t) ∧
      t.calls = s.calls := by
  induction frames generalizing pos dataLen s with
  | nil => exact absurd hlen (by rw [stream]; simp; omega)
  | cons f fs ih =>
    have hstream : (stream (f :: fs)).length = f.bytes.length + (stream fs).length := by
      rw [stream, List.flatMap_cons, List.length_append]
      rfl
    have hop : opcode s.mem pos = 0 := by
      rw [opcode, hzero]
      rfl
    have he : ¬Ends s.mem pos := by
      rw [Ends, isInvalid, hop]
      decide
    have hin : pos + f.bytes.length ≤ limit := by omega
    obtain ⟨t, hcalls, hnext, hsame, hframe⟩ := parseFrame_holds dataLen h.1 hin he
    have hquiet : t.calls = s.calls := by
      rw [hcalls, hop, received, if_neg (by decide), if_neg (by decide), List.append_nil]
    by_cases hmore : f.bytes.length < dataLen
    · rw [if_pos hmore] at hframe
      obtain ⟨fuel, code, u, hrest, hu⟩ := ih (pos + f.bytes.length) (dataLen - f.bytes.length) t
        hnext (h.2.congr hsame) (by omega) (by omega) (by omega)
      refine ⟨fuel + 1, 0, u, ?_, hu.trans hquiet⟩
      rw [webSocketParse, hframe]
      dsimp only
      rw [hrest]
    · rw [if_neg hmore] at hframe
      refine ⟨1, 0, t, ?_, hquiet⟩
      rw [webSocketParse, hframe]

theorem webSocketParse_mono {limit fuel pos dataLen : Nat} {s : Parser} {r : Outcome} (k : Nat)
    (h : webSocketParse limit fuel pos dataLen s = some r) :
    webSocketParse limit (fuel + k) pos dataLen s = some r := by
  induction fuel generalizing pos dataLen s r with
  | zero => cases h
  | succ fuel ih =>
    rw [Nat.add_right_comm, webSocketParse]
    rw [webSocketParse] at h
    split at h
    · exact h
    · exact h
    · rename_i pos' dataLen' t hframe
      cases hrest : webSocketParse limit fuel pos' dataLen' t with
      | none => rw [hrest] at h; cases h
      | some r' => rwa [ih hrest, ← hrest]

/-- A result does not depend on the fuel. -/
theorem webSocketParse_unique {limit fuel fuel' pos dataLen : Nat} {s : Parser} {r r' : Outcome}
    (h : webSocketParse limit fuel pos dataLen s = some r)
    (h' : webSocketParse limit fuel' pos dataLen s = some r') : r = r' := by
  have h1 := webSocketParse_mono fuel' h
  have h2 := webSocketParse_mono fuel h'
  rw [Nat.add_comm, h1] at h2
  exact Option.some.inj h2

/-! ## Delivery -/

/-- Every payload comes to its callback and every ping is answered, once and in order. -/
def Delivers (c : Caller) (frames : List ClientFrame) : Prop :=
  ∃ fuel code t, c.call fuel (stream frames) = some (.returned code t) ∧
    t.calls.map effect = (frames.flatMap ClientFrame.wanted).map some

/-- There is a frame, and behind the first one nothing is to be delivered or answered. -/
def FirstOnly : List ClientFrame → Prop
  | [] => False
  | _ :: rest => ∀ f ∈ rest, f.kind = .close ∨ f.kind = .pong

theorem wanted_eq_nil (f : ClientFrame) : f.wanted = [] ↔ f.kind = .close ∨ f.kind = .pong := by
  rw [ClientFrame.wanted]
  cases f.kind <;> simp

/-- Of a stream just the first frame has an effect. -/
theorem webSocketParse_first (f : ClientFrame) (rest : List ClientFrame) (dataLen : Nat)
    (hlen : dataLen ≤ (stream (f :: rest)).length) :
    ∃ fuel code t, webSocketParse (stream (f :: rest)).length fuel 0 dataLen
        (start (stream (f :: rest))) = some (.returned code t) ∧
      t.calls.map effect = f.wanted.map some := by
  let s := start (stream (f :: rest))
  have hstream : (stream (f :: rest)).length = f.bytes.length + (stream rest).length := by
    rw [stream, List.flatMap_cons, List.length_append]
    rfl
  have hall : HoldsAll s.mem 0 (f :: rest) := holdsAll_start [] (f :: rest)
  have hop : opcode s.mem 0 = f.kind.opcode := by
    change (0x80 ||| f.kind.opcode) &&& 0x0F = f.kind.opcode
    cases f.kind <;> decide
  have hinvalid : isInvalid s.mem 0 = false := by
    rw [isInvalid, hop]
    cases f.kind <;> decide
  have hin : 0 + f.bytes.length ≤ (stream (f :: rest)).length := by omega
  by_cases he : Ends s.mem 0
  · obtain ⟨code, t, hframe, hcalls⟩ :=
      parseFrame_ends (stream (f :: rest)).length dataLen (Nat.zero_le _) he
    refine ⟨1, code, t, by rw [webSocketParse, hframe], ?_⟩
    rw [Ends, hinvalid, hop] at he
    rw [hcalls, hinvalid, hop, ClientFrame.wanted]
    cases hk : f.kind with
    | ping => rfl
    | pong => rfl
    | _ => rw [hk] at he; exact absurd he (by decide)
  obtain ⟨t, hcalls, hnext, hsame, hframe⟩ := parseFrame_holds dataLen hall.1 hin he
  have heffect : t.calls.map effect = f.wanted.map some := by
    rw [hcalls, hop, ClientFrame.wanted]
    rw [Ends, hinvalid, hop] at he
    cases hk : f.kind with
    | ping => rw [hk] at he; exact absurd (.inr (.inl rfl)) he
    | pong => rw [hk] at he; exact absurd (.inr (.inr rfl)) he
    | close => rfl
    | text => exact congrArg (fun e => [e]) (if_pos rfl)
    | binary => exact congrArg (fun e => [e]) (if_pos rfl)
  by_cases hmore : f.bytes.length < dataLen
  · rw [if_pos hmore] at hframe
    obtain ⟨fuel, code, u, hrest, hu⟩ := webSocketParse_rest rest (0 + f.bytes.length)
      (dataLen - f.bytes.length) t hnext (hall.2.congr hsame)
      (show _ ≤ (stream (f :: rest)).length by omega) (by omega) (by omega)
    refine ⟨fuel + 1, 0, u, ?_, by rw [hu, heffect]⟩
    rw [webSocketParse, hframe]
    dsimp only
    rw [hrest]
  · rw [if_neg hmore] at hframe
    refine ⟨1, 0, t, ?_, heffect⟩
    rw [webSocketParse, hframe]

theorem delivers_iff (c : Caller) (frames : List ClientFrame) :
    Delivers c frames ↔ FirstOnly frames := by
  have hlen := c.dataLen_le (stream frames)
  simp only [Delivers, c.call_eq]
  cases frames with
  | nil =>
    refine iff_of_false (fun ⟨fuel, code, t, hparse, _⟩ => ?_) id
    cases fuel with
    | zero => cases hparse
    | succ fuel =>
      have hout : ∀ dataLen, webSocketParse (stream []).length (fuel + 1) 0 dataLen
          (start (stream [])) = some .outside := fun _ => rfl
      rw [hout] at hparse
      cases hparse
  | cons f rest =>
    obtain ⟨fuel, code, t, hparse, heffect⟩ := webSocketParse_first f rest _ hlen
    have hquiet : FirstOnly (f :: rest) ↔ rest.flatMap ClientFrame.wanted = [] := by
      rw [List.flatMap_eq_nil_iff]
      exact forall₂_congr fun g _ => (wanted_eq_nil g).symm
    rw [hquiet]
    constructor
    · rintro ⟨fuel', code', t', hparse', heffect'⟩
      obtain ⟨-, rfl⟩ := Outcome.returned.inj (webSocketParse_unique hparse hparse')
      rw [heffect, List.flatMap_cons, List.map_append] at heffect'
      exact List.map_eq_nil_iff.mp (List.self_eq_append_right.mp heffect')
    · intro hnil
      refine ⟨fuel, code, t, hparse, ?_⟩
      rw [heffect, List.flatMap_cons, hnil, List.append_nil]

end NodeMcu.Socket.Delivery
