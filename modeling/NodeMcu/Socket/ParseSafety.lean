import NodeMcu.Socket.Delivery

namespace NodeMcu.Socket.ParseSafety

open NodeMcu.Socket.Sending NodeMcu.Socket.Parsing NodeMcu.Socket.Delivery

/-! ## The frames of a buffer -/

/-- From a first position, the positions where the parser begins with a frame: each behind the size
that the frame in front of it announces, as long as there is data. -/
inductive Begins (mem : Nat → UInt8) (dataLen : Nat) : Nat → Nat → Prop
  | here (pos : Nat) : Begins mem dataLen pos pos
  | next {pos n p : Nat} (hn : size mem pos + offset mem pos = n) (hpos : 0 < n)
    (hlt : pos + n < dataLen) (h : Begins mem dataLen (pos + n) p) : Begins mem dataLen pos p

/-- A frame lies inside with all that it announces, and where there is data it does not end where
it begins. -/
def Sound (limit : Nat) (mem : Nat → UInt8) (dataLen pos : Nat) : Prop :=
  Fits limit mem pos ∧ (size mem pos + offset mem pos = 0 → dataLen ≤ pos)

/-- The parser returns, and it reads and writes inside only. -/
def Returns (limit dataLen pos : Nat) (s : Parser) : Prop :=
  ∃ fuel code t, webSocketParse limit fuel pos dataLen s = some (.returned code t)

section Frame

variable {limit pos dataLen : Nat} {buf : Nat → UInt8} {s : Parser}

/-- The size and what goes with it are read behind the first byte. -/
theorem fits_congr (limit : Nat) (h : ∀ j, pos < j → s.mem j = buf j) :
    size s.mem pos = size buf pos ∧ offset s.mem pos = offset buf pos ∧
      (Fits limit s.mem pos ↔ Fits limit buf pos) := by
  have hshort : shortSize s.mem pos = shortSize buf pos := by
    rw [shortSize, shortSize, h _ (by omega)]
  have hmasked : isMasked s.mem pos = isMasked buf pos := by
    rw [isMasked, isMasked, h _ (by omega)]
  have hsize : size s.mem pos = size buf pos := by
    rw [size, size, size127, size127, hshort, h _ (by omega), h _ (by omega), h _ (by omega),
      h _ (by omega), h _ (by omega), h _ (by omega)]
  have hoffset : offset s.mem pos = offset buf pos := by
    rw [offset, offset, lgthOffset, lgthOffset, hshort, hmasked]
  refine ⟨hsize, hoffset, ?_⟩
  constructor
  · rintro ⟨h1, h2, h3, h4, h5⟩
    rw [hsize, hoffset] at *
    exact ⟨h1, h2, fun hm => h3 (hmasked.trans hm), h4, h5⟩
  · rintro ⟨h1, h2, h3, h4, h5⟩
    rw [← hsize, ← hoffset] at *
    exact ⟨h1, h2, fun hm => h3 (hmasked.symm.trans hm), h4, h5⟩

theorem not_ends_of_zero (h : s.mem pos = 0) : ¬Ends s.mem pos := by
  have hop : opcode s.mem pos = 0 := by
    rw [opcode, h]
    rfl
  rw [Ends, isInvalid, hop]
  decide

/-- What follows a frame inside: the next one, or the end. -/
theorem parseFrame_next (hl : limit < 2 ^ 31) (hd : pos + dataLen ≤ limit)
    (he : ¬Ends s.mem pos) (hf : Fits limit s.mem pos) :
    ∃ t : Parser,
      (∀ n : Nat, size s.mem pos + offset s.mem pos = n →
        t.mem (pos + n) = 0 ∧ ∀ j, pos + n < j → t.mem j = s.mem j) ∧
      ((∃ n : Nat, size s.mem pos + offset s.mem pos = n ∧ n < dataLen ∧
          parseFrame limit pos dataLen s = .again (pos + n) (dataLen - n) t) ∨
        ((∀ n : Nat, size s.mem pos + offset s.mem pos = n → dataLen ≤ n) ∧
          parseFrame limit pos dataLen s = .ended 0 t)) := by
  have hlast := hf.last
  have hfirst := hf.first
  obtain ⟨mem, hu, hframe⟩ := parseFrame_fits dataLen he hf
  obtain ⟨t, -, hmem, hdeliver⟩ := deliver_fits dataLen mem hf
  refine ⟨t, fun n hn => ?_, ?_⟩
  · have htoNat : ((pos : Int) + offset s.mem pos + size s.mem pos).toNat = pos + n := by omega
    rw [hmem, htoNat]
    refine ⟨Function.update_self _ _ _, fun j hj => ?_⟩
    rw [Function.update_of_ne (by omega)]
    refine hu.same j ?_
    by_cases hsize : 0 ≤ size s.mem pos
    · exact .inr (by omega)
    · exact (Nat.lt_or_ge j (pos + offset s.mem pos)).imp id fun h => by omega
  · rw [hframe, hdeliver]
    by_cases hpos : 0 ≤ size s.mem pos + offset s.mem pos
    · obtain ⟨n, hn⟩ := Int.eq_ofNat_of_zero_le hpos
      have hmod : ((size s.mem pos + offset s.mem pos) % 2 ^ 32).toNat = n := by omega
      have hnext : ((pos : Int) + (size s.mem pos + offset s.mem pos)).toNat = pos + n := by omega
      rw [hmod, hnext]
      by_cases hlt : n < dataLen
      · rw [if_pos hlt]
        exact .inl ⟨n, hn, hlt, rfl⟩
      · rw [if_neg hlt]
        exact .inr ⟨fun m hm => by omega, rfl⟩
    · rw [if_neg (by omega)]
      exact .inr ⟨fun m hm => by omega, rfl⟩

/-- A frame that ends where it begins is parsed for ever. -/
theorem webSocketParse_endless (hl : limit < 2 ^ 31) (hd : pos + dataLen ≤ limit)
    (hpos : 0 < dataLen) (fuel : Nat) (he : ¬Ends s.mem pos) (hf : Fits limit s.mem pos)
    (hzero : size s.mem pos + offset s.mem pos = 0) :
    webSocketParse limit fuel pos dataLen s = none := by
  induction fuel generalizing s with
  | zero => rfl
  | succ fuel ih =>
    obtain ⟨t, hnext, ⟨n, hn, -, hframe⟩ | ⟨hend, -⟩⟩ := parseFrame_next hl hd he hf
    · obtain rfl : n = 0 := by omega
      obtain ⟨hfree, hsame⟩ := hnext 0 hzero
      rw [Nat.add_zero] at hfree hsame hframe
      obtain ⟨hsize, hoffset, hfits⟩ := fits_congr limit hsame
      have hrest := ih (not_ends_of_zero hfree) (hfits.mpr hf) (by rw [hsize, hoffset, hzero])
      rw [webSocketParse, hframe]
      dsimp only
      rw [Nat.sub_zero, hrest]
    · have := hend 0 hzero
      omega

theorem returns_again {n : Nat} {t : Parser}
    (h : parseFrame limit pos dataLen s = .again (pos + n) (dataLen - n) t) :
    Returns limit dataLen pos s ↔ Returns limit (dataLen - n) (pos + n) t := by
  constructor
  · rintro ⟨fuel, code, u, hu⟩
    cases fuel with
    | zero => cases hu
    | succ fuel =>
      rw [webSocketParse, h] at hu
      dsimp only at hu
      cases hrest : webSocketParse limit fuel (pos + n) (dataLen - n) t with
      | none => rw [hrest] at hu; cases hu
      | some r =>
        cases r with
        | outside => rw [hrest] at hu; cases hu
        | returned code v => exact ⟨fuel, code, v, hrest⟩
  · rintro ⟨fuel, code, u, hu⟩
    refine ⟨fuel + 1, 0, u, ?_⟩
    rw [webSocketParse, h]
    dsimp only
    rw [hu]

/-- The parser returns exactly when every frame it begins with is sound. -/
theorem returns_iff (hl : limit < 2 ^ 31) (d : Nat) (hd : pos + d ≤ limit)
    (he : ¬Ends s.mem pos) (hsame : ∀ j, pos < j → s.mem j = buf j) :
    Returns limit d pos s ↔ ∀ p, Begins buf (pos + d) pos p → Sound limit buf (pos + d) p := by
  induction d using Nat.strongRecOn generalizing pos s with
  | ind d ih =>
    obtain ⟨hsize, hoffset, hfits⟩ := fits_congr limit hsame
    by_cases hf : Fits limit s.mem pos
    · obtain ⟨t, hnext, hcases⟩ := parseFrame_next hl hd he hf
      obtain ⟨n, hn, hlt, hframe⟩ | ⟨hend, hframe⟩ := hcases
      · obtain ⟨hfree, hsame'⟩ := hnext n hn
        by_cases h0 : n = 0
        · -- the same frame again and again
          refine iff_of_false ?_ fun hall => ?_
          · rintro ⟨fuel, code, u, hu⟩
            rw [webSocketParse_endless hl hd (by omega) fuel he hf (by omega)] at hu
            cases hu
          · have := (hall pos (.here pos)).2 (by rw [← hsize, ← hoffset]; omega)
            omega
        · have hrest := ih (d - n) (by omega) (s := t) (by omega) (not_ends_of_zero hfree)
            (fun j hj => (hsame' j hj).trans (hsame j (by omega)))
          rw [returns_again hframe, hrest, show pos + n + (d - n) = pos + d by omega]
          have hsound : Sound limit buf (pos + d) pos :=
            ⟨hfits.mp hf, fun hz => by rw [← hsize, ← hoffset] at hz; omega⟩
          constructor
          · intro hall p hp
            cases hp with
            | here => exact hsound
            | next hm h1 h2 h =>
              rename_i m
              rw [← hsize, ← hoffset, hn] at hm
              obtain rfl : n = m := by omega
              exact hall p h
          · intro hall p hp
            exact hall p (.next (by rw [← hsize, ← hoffset, hn]) (by omega) (by omega) hp)
      · refine iff_of_true ⟨1, 0, t, by rw [webSocketParse, hframe]⟩ fun p hp => ?_
        cases hp with
        | here =>
          refine ⟨hfits.mp hf, fun hz => ?_⟩
          have := hend 0 (by rw [hsize, hoffset]; exact hz)
          omega
        | next hm _ hlt _ =>
          have := hend _ (by rw [hsize, hoffset]; exact hm)
          omega
    · refine iff_of_false ?_ fun hall => hf (hfits.mpr (hall pos (.here pos)).1)
      rintro ⟨fuel, code, u, hu⟩
      cases fuel with
      | zero => cases hu
      | succ fuel =>
        rw [webSocketParse, parseFrame_not_fits d hl he hf] at hu
        cases hu

end Frame

/-! ## Delivery and safety -/

/-- What the parser can be called with: received bytes. -/
structure Received where
  bytes : List UInt8
  fits : bytes.length < 2 ^ 31

/-- The parser returns whatever the bytes are, and the bytes and the zero behind them are all that
it reads and writes. -/
def StaysInside (c : Caller) (r : Received) : Prop :=
  ∃ fuel code t, c.call fuel r.bytes = some (.returned code t)

/-- The opcode of the first frame ends the work, or all frames that the parser begins with are
sound. -/
def SoundFrames (c : Caller) (r : Received) : Prop :=
  Ends (start r.bytes).mem 0 ∨
    ∀ p, Begins (start r.bytes).mem (c.dataLen r.bytes) 0 p →
      Sound r.bytes.length (start r.bytes).mem (c.dataLen r.bytes) p

theorem staysInside_iff (c : Caller) (r : Received) : StaysInside c r ↔ SoundFrames c r := by
  have hlen := c.dataLen_le r.bytes
  simp only [StaysInside, c.call_eq]
  by_cases he : Ends (start r.bytes).mem 0
  · obtain ⟨code, t, hframe, -⟩ :=
      parseFrame_ends r.bytes.length (c.dataLen r.bytes) (Nat.zero_le _) he
    exact iff_of_true ⟨1, code, t, by rw [webSocketParse, hframe]⟩ (.inl he)
  · have h := returns_iff r.fits (c.dataLen r.bytes) (by omega) he (fun _ _ => rfl)
    rw [Nat.zero_add] at h
    rw [SoundFrames, ← h, Returns, or_iff_right he]

/-- A text frame with one character. -/
def character (c : UInt8) : ClientFrame where
  kind := .text
  key := fun i => UInt8.ofNat i
  payload := [c]
  fits := by rw [List.length_singleton]; decide
  control := fun h => (h rfl).elim

end NodeMcu.Socket.ParseSafety
