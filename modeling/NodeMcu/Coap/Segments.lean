import Mathlib.Data.List.TakeWhile
import Mathlib.Tactic.SplitIfs
import NodeMcu.Coap.MakeRequest

namespace NodeMcu.Coap.Segments

open NodeMcu.Lib.Text NodeMcu.Coap.SplitUri NodeMcu.Coap.MakeRequest

/-! ## What a path or a query consists of -/

/-- A text ends at a delimiter. -/
def body (delim text : List UInt8) : List UInt8 := text.takeWhile fun c => !delim.contains c

/-- The segments that count: not the empty ones, `.` and `..`. -/
def kept (segs : List (List UInt8)) : List (List UInt8) :=
  segs.filter fun seg => !([[], [0x2E], [0x2E, 0x2E]] : List (List UInt8)).contains seg

def segments (separator : UInt8) (delim text : List UInt8) : List (List UInt8) :=
  kept ((body delim text).splitOn separator)

/-- A text without its escapes, where they are well formed. -/
def percentDecode : List UInt8 → Option (List UInt8)
  | [] => some []
  | c :: s =>
    if c = 0x25 then
      match s with
      | a :: b :: s =>
        if isXDigit a && isXDigit b
        then (percentDecode s).map (UInt8.ofNat (16 * hexValue a + hexValue b) :: ·)
        else none
      | _ => none
    else (percentDecode s).map (c :: ·)

theorem kept_append (as bs : List (List UInt8)) : kept (as ++ bs) = kept as ++ kept bs :=
  List.filter_append _ _

theorem kept_empty (segs : List (List UInt8)) : kept ([] :: segs) = kept segs := rfl

/-! ## The iterator -/

/-- What the iterator has in front of it. -/
def ahead (it : ParseIterator) : List UInt8 :=
  (it.pos.drop it.segmentLength).take (it.n - it.segmentLength)

/-- The lengths do not go beyond the text. -/
structure Sound (it : ParseIterator) : Prop where
  segment : it.segmentLength ≤ it.n
  n : it.n ≤ it.pos.length

theorem ahead_length {it : ParseIterator} (h : Sound it) :
    (ahead it).length = it.n - it.segmentLength := by
  have hn := h.n
  rw [ahead, List.length_take, List.length_drop]
  omega

section Split

variable (separator : UInt8) (delim : List UInt8)

/-- The bytes of a segment. -/
def isInner (c : UInt8) : Bool := c != separator && !delim.contains c

/-- The first segment of a text, and the segments of what is behind it. -/
theorem segments_step (text : List UInt8) :
    segments separator delim text =
      kept [text.takeWhile (isInner separator delim)] ++
        segments separator delim (text.dropWhile (isInner separator delim)) := by
  have htext := List.takeWhile_append_dropWhile (p := isInner separator delim) (l := text)
  have hinner : ∀ c ∈ text.takeWhile (isInner separator delim), isInner separator delim c = true :=
    fun c hc => List.mem_takeWhile_imp hc
  generalize text.takeWhile (isInner separator delim) = seg at *
  generalize hrest : text.dropWhile (isInner separator delim) = rest at *
  have hseg : separator ∉ seg := by
    intro h
    have := hinner separator h
    rw [isInner, bne_self_eq_false, Bool.false_and] at this
    cases this
  have hbody : body delim (seg ++ rest) = seg ++ body delim rest := by
    rw [body, List.takeWhile_append_of_pos]
    · rfl
    · intro c hc
      exact (Bool.and_eq_true_iff.mp (hinner c hc)).2
  rw [← htext, segments, segments, hbody]
  cases hb : body delim rest with
  | nil =>
    rw [List.append_nil, List.splitOn_eq_singleton hseg]
    exact (List.append_nil _).symm
  | cons c u =>
    have hc : c = separator := by
      cases rest with
      | nil => cases hb
      | cons d rest =>
        have hd : isInner separator delim d = false := by
          have hhead := List.head?_dropWhile_not (isInner separator delim) text
          rw [hrest] at hhead
          exact hhead
        rw [body, List.takeWhile_cons] at hb
        split_ifs at hb with hdelim
        cases hb
        rw [isInner, hdelim, Bool.and_true] at hd
        exact bne_eq_false_iff_eq.mp hd
    have hcons : (separator :: u).splitOn separator = [] :: u.splitOn separator :=
      List.splitOn_append_cons_self_of_not_mem List.not_mem_nil u
    rw [hc, List.splitOn_append_cons_self_of_not_mem hseg, hcons, kept_empty]
    exact kept_append [seg] _

theorem segments_delim {c : UInt8} (hc : c ∈ delim) (text : List UInt8) :
    segments separator delim (c :: text) = [] := by
  rw [segments, body, List.takeWhile_cons_of_neg (by simpa using hc)]
  rfl

theorem segments_separator (hsep : separator ∉ delim) (text : List UInt8) :
    segments separator delim (separator :: text) = segments separator delim text := by
  have hcons : ∀ u, (separator :: u).splitOn separator = [] :: u.splitOn separator :=
    fun u => List.splitOn_append_cons_self_of_not_mem List.not_mem_nil u
  rw [segments, segments, body, List.takeWhile_cons_of_pos (by simpa using hsep), hcons, kept_empty,
    body]

end Split

theorem isInner_fun (separator : UInt8) (delim : List UInt8) :
    (fun c => c != separator && !delim.contains c) = isInner separator delim := rfl

theorem ahead_cons {it : ParseIterator} (h : Sound it) (hn : it.n - it.segmentLength ≠ 0) :
    ∃ c rest, it.pos.drop it.segmentLength = c :: rest ∧
      ahead it = c :: rest.take (it.n - it.segmentLength - 1) := by
  cases hpos : it.pos.drop it.segmentLength with
  | nil =>
    have := h.n
    have hlength := congrArg List.length hpos
    rw [List.length_drop, List.length_nil] at hlength
    omega
  | cons c rest =>
    refine ⟨c, rest, rfl, ?_⟩
    rw [ahead, hpos, List.take_cons (Nat.pos_of_ne_zero hn)]

/-- A step of the iterator, with the byte that it finds. -/
theorem parseNext_eq {it : ParseIterator} {c : UInt8} {rest : List UInt8}
    (hpos : it.pos.drop it.segmentLength = c :: rest) (hn : it.n - it.segmentLength ≠ 0) :
    parseNext it =
      if c ∈ it.delim then none
      else if c = it.separator then
        if it.n - it.segmentLength - 1 = 0 then none
        else some { it with
          n := it.n - it.segmentLength - 1
          pos := rest
          segmentLength := ((rest.take (it.n - it.segmentLength - 1)).takeWhile
            (isInner it.separator it.delim)).length }
      else some { it with
        n := it.n - it.segmentLength
        pos := c :: rest
        segmentLength := (((c :: rest).take (it.n - it.segmentLength)).takeWhile
          (isInner it.separator it.delim)).length } := by
  rw [parseNext]
  dsimp only
  rw [hpos, List.headD_cons, List.tail_cons, isInner_fun]
  by_cases hdelim : c ∈ it.delim
  · rw [if_pos (.inr hdelim), if_pos hdelim]
  · rw [if_neg (not_or.mpr ⟨hn, hdelim⟩), if_neg hdelim]
    by_cases hc : c = it.separator
    · rw [if_pos hc, if_pos hc, if_pos hc]
    · rw [if_neg hc, if_neg hc, if_neg hc, if_neg hn]

/-- The iterator ends in front of a delimiter or the end, where no segment is left. -/
theorem parseNext_none {it : ParseIterator} (h : Sound it) (hsep : it.separator ∉ it.delim)
    (hnext : parseNext it = none) : segments it.separator it.delim (ahead it) = [] := by
  by_cases hn : it.n - it.segmentLength = 0
  · rw [ahead, hn]
    rfl
  · obtain ⟨c, rest, hpos, hahead⟩ := ahead_cons h hn
    rw [parseNext_eq hpos hn] at hnext
    rw [hahead]
    by_cases hdelim : c ∈ it.delim
    · exact segments_delim _ _ hdelim _
    · rw [if_neg hdelim] at hnext
      by_cases hc : c = it.separator
      · rw [if_pos hc] at hnext
        by_cases hone : it.n - it.segmentLength - 1 = 0
        · rw [hc, segments_separator _ _ hsep, hone]
          rfl
        · rw [if_neg hone] at hnext
          cases hnext
      · rw [if_neg hc] at hnext
        cases hnext

theorem take_drop_takeWhile (p : UInt8 → Bool) (l : List UInt8) :
    l.take (l.takeWhile p).length = l.takeWhile p ∧
      l.drop (l.takeWhile p).length = l.dropWhile p := by
  have h := List.takeWhile_append_dropWhile (p := p) (l := l)
  have htake : ∀ as bs : List UInt8, as ++ bs = l →
      l.take as.length = as ∧ l.drop as.length = bs := by
    rintro as bs rfl
    exact ⟨List.take_left, List.drop_left⟩
  exact htake _ _ h

/-- An iterator in front of `n` bytes with the first segment of them. -/
theorem ahead_first (it : ParseIterator) {n : Nat} {pos : List UInt8} (hn : n ≤ pos.length) :
    let next : ParseIterator := { it with
      n := n
      pos := pos
      segmentLength := ((pos.take n).takeWhile (isInner it.separator it.delim)).length }
    Sound next ∧
      ahead next = (pos.take n).dropWhile (isInner it.separator it.delim) ∧
      next.pos.take next.segmentLength =
        (pos.take n).takeWhile (isInner it.separator it.delim) := by
  intro next
  have htake := List.takeWhile_append_dropWhile (p := isInner it.separator it.delim)
    (l := pos.take n)
  have hlength := congrArg List.length htake
  rw [List.length_append, List.length_take, Nat.min_eq_left hn] at hlength
  have hle : next.segmentLength ≤ n := by
    change ((pos.take n).takeWhile _).length ≤ n
    omega
  refine ⟨⟨hle, hn⟩, ?_, ?_⟩
  · rw [ahead, ← List.drop_take]
    exact (take_drop_takeWhile _ _).2
  · have hseg := (take_drop_takeWhile (isInner it.separator it.delim) (pos.take n)).1
    rw [List.take_take, Nat.min_eq_left hle] at hseg
    exact hseg

/-- A step of the iterator goes behind one segment. -/
theorem parseNext_some {it next : ParseIterator} (h : Sound it) (hsep : it.separator ∉ it.delim)
    (hnext : parseNext it = some next) :
    Sound next ∧ next.separator = it.separator ∧ next.delim = it.delim ∧
      (ahead next).length < (ahead it).length ∧
      segments it.separator it.delim (ahead it) =
        kept [next.pos.take next.segmentLength] ++
          segments it.separator it.delim (ahead next) := by
  by_cases hn : it.n - it.segmentLength = 0
  · rw [parseNext, if_pos (.inl hn)] at hnext
    cases hnext
  obtain ⟨c, rest, hpos, hahead⟩ := ahead_cons h hn
  have hlength := ahead_length h
  have hrest : it.n - it.segmentLength - 1 ≤ rest.length := by
    have hl := congrArg List.length hpos
    have := h.n
    rw [List.length_drop, List.length_cons] at hl
    omega
  rw [parseNext_eq hpos hn] at hnext
  by_cases hdelim : c ∈ it.delim
  · rw [if_pos hdelim] at hnext
    cases hnext
  rw [if_neg hdelim] at hnext
  by_cases hc : c = it.separator
  · rw [if_pos hc] at hnext
    by_cases hone : it.n - it.segmentLength - 1 = 0
    · rw [if_pos hone] at hnext
      cases hnext
    · rw [if_neg hone] at hnext
      cases hnext
      obtain ⟨hsound, hnextAhead, hseg⟩ := ahead_first it hrest
      refine ⟨hsound, rfl, rfl, ?_, ?_⟩
      · rw [hnextAhead, hahead, List.length_cons]
        exact Nat.lt_succ_of_le (List.length_dropWhile_le _ _)
      · rw [hnextAhead, hseg, hahead, hc, segments_separator _ _ hsep]
        exact segments_step _ _ _
  · rw [if_neg hc] at hnext
    cases hnext
    have hfull : it.n - it.segmentLength ≤ (c :: rest).length := by
      rw [List.length_cons]
      omega
    obtain ⟨hsound, hnextAhead, hseg⟩ := ahead_first it hfull
    have htake : (c :: rest).take (it.n - it.segmentLength) = ahead it := by rw [ahead, hpos]
    refine ⟨hsound, rfl, rfl, ?_, ?_⟩
    · have hinner : isInner it.separator it.delim c = true := by
        rw [isInner, Bool.and_eq_true, bne_iff_ne]
        exact ⟨hc, by simpa using hdelim⟩
      rw [hnextAhead, htake, hahead, List.dropWhile_cons_of_pos hinner, List.length_cons]
      exact Nat.lt_succ_of_le (List.length_dropWhile_le _ _)
    · rw [hnextAhead, hseg, htake]
      exact segments_step _ _ _

/-- What a handler makes of segments, given by their pointers and lengths. -/
def handle {σ : Type} (h : List UInt8 → Nat → σ → Except Stop σ) :
    List (List UInt8 × Nat) → σ → Except Stop σ
  | [], data => .ok data
  | v :: vs, data =>
    match h v.1 v.2 data with
    | .error e => .error e
    | .ok data => handle h vs data

/-- The handler gets the segments of a text one after the other. -/
theorem splitPathImpl_eq (fuel : Nat) {it : ParseIterator} (h : Sound it)
    (hsep : it.separator ∉ it.delim) (hfuel : (ahead it).length < fuel) :
    ∃ vs : List (List UInt8 × Nat), (∀ v ∈ vs, v.2 ≤ v.1.length) ∧
      kept (vs.map fun v => v.1.take v.2) = segments it.separator it.delim (ahead it) ∧
      ∀ {σ : Type} (handler : List UInt8 → Nat → σ → Except Stop σ) (data : σ),
        splitPathImpl handler fuel it data = handle handler vs data := by
  induction fuel generalizing it with
  | zero => exact absurd hfuel (Nat.not_lt_zero _)
  | succ fuel ih =>
    cases hnext : parseNext it with
    | none =>
      refine ⟨[], fun v hv => (List.not_mem_nil hv).elim, (parseNext_none h hsep hnext).symm, ?_⟩
      intro σ handler data
      rw [splitPathImpl, hnext]
      rfl
    | some next =>
      obtain ⟨hsound, hseparator, hdelim, hlt, hsegs⟩ := parseNext_some h hsep hnext
      obtain ⟨vs, hle, hkept, hrun⟩ := ih hsound (by rw [hseparator, hdelim]; exact hsep)
        (by omega)
      rw [hseparator, hdelim] at hkept
      refine ⟨(next.pos, next.segmentLength) :: vs, List.forall_mem_cons.mpr ⟨?_, hle⟩, ?_, ?_⟩
      · exact Nat.le_trans hsound.segment hsound.n
      · rw [hsegs, ← hkept, List.map_cons]
        exact kept_append [_] _
      · intro σ handler data
        rw [splitPathImpl, hnext, handle]
        dsimp only
        cases handler next.pos next.segmentLength data with
        | error e => rfl
        | ok data => exact hrun handler data

/-! ## The decoding -/

theorem hexcharToDec_eq (c : UInt8) (h : isXDigit c = true) :
    hexcharToDec c = UInt8.ofNat (hexValue c) ∧ hexValue c < 16 := by
  have hall : ∀ n < 256, isXDigit (UInt8.ofNat n) = true →
      hexcharToDec (UInt8.ofNat n) = UInt8.ofNat (hexValue (UInt8.ofNat n)) ∧
        hexValue (UInt8.ofNat n) < 16 := by decide +kernel
  have hc := hall c.toNat c.toNat_lt
  rw [UInt8.ofNat_toNat] at hc
  exact hc h

theorem escape_eq {a b : UInt8} (ha : isXDigit a = true) (hb : isXDigit b = true) :
    hexcharToDec a <<< 4 + hexcharToDec b = UInt8.ofNat (16 * hexValue a + hexValue b) := by
  obtain ⟨ha', hlt⟩ := hexcharToDec_eq a ha
  obtain ⟨hb', hlt'⟩ := hexcharToDec_eq b hb
  have hall : ∀ x < 16, ∀ y < 16,
      UInt8.ofNat x <<< 4 + UInt8.ofNat y = UInt8.ofNat (16 * x + y) := by decide +kernel
  rw [ha', hb', hall _ hlt _ hlt']

theorem percentDecode_plain {c : UInt8} (hc : c ≠ 0x25) (s : List UInt8) :
    percentDecode (c :: s) = (percentDecode s).map (c :: ·) := by
  rw [percentDecode.eq_def]
  exact if_neg hc

theorem percentDecode_escape (a b : UInt8) (s : List UInt8) :
    percentDecode (0x25 :: a :: b :: s) =
      if isXDigit a && isXDigit b
      then (percentDecode s).map (UInt8.ofNat (16 * hexValue a + hexValue b) :: ·)
      else none := by
  rw [percentDecode.eq_def]
  exact if_pos rfl

theorem percentDecode_cut {s : List UInt8} (hs : s.length < 2) :
    percentDecode (0x25 :: s) = none := by
  rw [percentDecode.eq_def]
  match s, hs with
  | [], _ => rfl
  | [_], _ => rfl

theorem checkSegment_plain {c : UInt8} (hc : c ≠ 0x25) (length : Nat) (s : List UInt8) (n : Nat) :
    checkSegment (length + 1) (c :: s) n = checkSegment length s (n + 1) := by
  rw [checkSegment.eq_def]
  exact if_neg hc

theorem checkSegment_escape (length : Nat) (a b : UInt8) (s : List UInt8) (n : Nat) :
    checkSegment (length + 3) (0x25 :: a :: b :: s) n =
      if isXDigit a && isXDigit b then checkSegment length s (n + 1) else .malformed := by
  rw [checkSegment.eq_def]
  change (if length + 2 = 0 ∨ !(isXDigit a && isXDigit b) then _ else checkSegment length s _) = _
  by_cases h : (isXDigit a && isXDigit b) = true
  · rw [if_pos h, if_neg (not_or.mpr ⟨Nat.succ_ne_zero _, by rw [h]; decide⟩)]
  · rw [if_neg h, if_pos (.inr (by rw [Bool.eq_false_iff.mpr h]; rfl))]

theorem checkSegment_cut {length : Nat} (hlength : length < 2) (s : List UInt8) (n : Nat) :
    checkSegment (length + 1) (0x25 :: s) n = .malformed ∨
      checkSegment (length + 1) (0x25 :: s) n = .endless := by
  rw [checkSegment.eq_def]
  change (if length = 0 ∨ !(_ && _) then _ else _) = _ ∨
    (if length = 0 ∨ !(_ && _) then _ else _) = _
  by_cases h : length = 0 ∨ !(isXDigit ((0x25 :: s).getD 1 0) && isXDigit ((0x25 :: s).getD 2 0))
  · exact .inl (if_pos h)
  · rw [if_neg h]
    match length, hlength with
    | 0, _ => exact .inr rfl
    | 1, _ => exact .inr rfl

theorem decodeSegment_plain {c : UInt8} (hc : c ≠ 0x25) (length : Nat) (s : List UInt8) :
    decodeSegment (length + 1) (c :: s) = (decodeSegment length s).map (c :: ·) := by
  rw [decodeSegment.eq_def]
  exact if_neg hc

theorem decodeSegment_escape (length : Nat) (a b : UInt8) (s : List UInt8) :
    decodeSegment (length + 3) (0x25 :: a :: b :: s) =
      (decodeSegment length s).map ((hexcharToDec a <<< 4 + hexcharToDec b) :: ·) := by
  rw [decodeSegment.eq_def]
  exact if_pos rfl

/-- A segment is checked and decoded as it is. Where it is malformed the check says so, or goes
beyond the segment. -/
theorem checkSegment_eq (len : Nat) (s : List UInt8) (n : Nat) (hlen : len ≤ s.length) :
    (percentDecode (s.take len) = none ∧
      (checkSegment len s n = .malformed ∨ checkSegment len s n = .endless)) ∨
    ∃ d, percentDecode (s.take len) = some d ∧ checkSegment len s n = .decoded (n + d.length) ∧
      decodeSegment len s = some d := by
  induction len using Nat.strong_induction_on generalizing s n with
  | _ len ih =>
    match len, s with
    | 0, _ => exact .inr ⟨[], rfl, rfl, rfl⟩
    | _ + 1, [] => exact absurd hlen (Nat.not_succ_le_zero _)
    | len + 1, c :: s =>
      have hlen' : len ≤ s.length := Nat.le_of_succ_le_succ hlen
      rw [List.take_succ_cons]
      by_cases hc : c = 0x25
      · subst hc
        by_cases hcut : len < 2
        · refine .inl ⟨percentDecode_cut ?_, checkSegment_cut hcut s n⟩
          exact Nat.lt_of_le_of_lt (List.length_take_le _ _) hcut
        · obtain ⟨k, rfl⟩ := Nat.exists_eq_add_of_le' (Nat.le_of_not_lt hcut)
          match s, hlen' with
          | a :: b :: s, hlen' =>
            have hk : k ≤ s.length := Nat.le_of_add_le_add_right hlen'
            rw [List.take_succ_cons, List.take_succ_cons, percentDecode_escape,
              checkSegment_escape, decodeSegment_escape]
            by_cases hdigits : (isXDigit a && isXDigit b) = true
            · rw [if_pos hdigits, if_pos hdigits]
              obtain ⟨ha, hb⟩ := Bool.and_eq_true_iff.mp hdigits
              obtain ⟨hnone, hcheck⟩ | ⟨d, hd, hcheck, hdec⟩ := ih k (by omega) s (n + 1) hk
              · exact .inl ⟨by rw [hnone]; rfl, hcheck⟩
              · refine .inr ⟨UInt8.ofNat (16 * hexValue a + hexValue b) :: d, ?_, ?_, ?_⟩
                · rw [hd]
                  rfl
                · rw [hcheck, List.length_cons, Nat.add_right_comm, Nat.add_assoc]
                · rw [hdec, escape_eq ha hb]
                  rfl
            · rw [if_neg hdigits, if_neg hdigits]
              exact .inl ⟨rfl, .inl rfl⟩
      · rw [percentDecode_plain hc, checkSegment_plain hc, decodeSegment_plain hc]
        rcases ih len (Nat.lt_succ_self _) s (n + 1) hlen' with
          ⟨hnone, hcheck⟩ | ⟨d, hd, hcheck, hdec⟩
        · exact .inl ⟨by rw [hnone]; rfl, hcheck⟩
        · refine .inr ⟨c :: d, by rw [hd]; rfl, ?_, by rw [hdec]; rfl⟩
          rw [hcheck, List.length_cons, Nat.add_right_comm, Nat.add_assoc]

end NodeMcu.Coap.Segments
