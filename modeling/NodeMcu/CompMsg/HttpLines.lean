import NodeMcu.CompMsg.HttpParse

namespace NodeMcu.CompMsg.HttpLines

open NodeMcu.Lib.Text NodeMcu.CompMsg.HttpParse

/-! ## The bytes of a line -/

/-- How the loop goes on behind a round. -/
def goOn (headerLgth : Nat) : Option (Code × Pass) → Option (Code × Pass)
  | none => none
  | some (.ok, s) => readHeaders headerLgth s
  | some r => some r

theorem readHeaders_of_le (headerLgth : Nat) (s : Pass) (h : headerLgth ≤ s.passed.length) :
    readHeaders headerLgth s = some (.ok, s) := by
  rw [readHeaders, if_neg (Nat.not_lt.mpr h)]

theorem readHeaders_of_lt (headerLgth : Nat) (s : Pass) (h : s.passed.length < headerLgth) :
    readHeaders headerLgth s = goOn headerLgth (readRound s) := by
  rw [readHeaders, if_pos h]
  split
  · rename_i hround
    rw [hround]
    rfl
  · rename_i s' hround
    rw [hround]
    rfl
  · rename_i r hne hround
    rw [hround]
    obtain ⟨code, s'⟩ := r
    cases code with
    | ok => exact absurd rfl (hne s')
    | outOfMemory => rfl
    | headerNotFound => rfl

/-- The bytes `bs` are put in from an index on. -/
def overwrite (bytes : List UInt8) (i : Nat) : List UInt8 → List UInt8
  | [] => bytes
  | b :: bs => overwrite (bytes.set i b) (i + 1) bs

@[simp] theorem overwrite_length (bytes : List UInt8) (i : Nat) (bs : List UInt8) :
    (overwrite bytes i bs).length = bytes.length := by
  induction bs generalizing bytes i with
  | nil => rfl
  | cons b bs ih => rw [overwrite, ih, List.length_set]

theorem overwrite_eq (bytes : List UInt8) (i : Nat) (bs : List UInt8)
    (h : i + bs.length ≤ bytes.length) :
    overwrite bytes i bs = bytes.take i ++ bs ++ bytes.drop (i + bs.length) := by
  induction bs generalizing bytes i with
  | nil => simp [overwrite]
  | cons b bs ih =>
    rw [List.length_cons] at h
    have htake : (bytes.set i b).take (i + 1) = bytes.take i ++ [b] := by
      rw [List.set_eq_take_append_cons_drop, if_pos (by omega), List.append_cons]
      apply List.take_left'
      simp
      omega
    rw [overwrite, ih _ _ (by rw [List.length_set]; omega), htake,
      List.drop_set_of_lt (by omega), List.length_cons, Nat.add_right_comm, Nat.add_assoc]
    simp

/-- The byte that is put into the lower data. -/
def lowered (s : Pass) (c : UInt8) : UInt8 := if 0 < s.httpHeaderIdx then toLower c else c

/-- Behind the bytes `u`, none of which changes the line. -/
def passedOver (s : Pass) (u t : List UInt8) : Pass :=
  { s with
    passed := u.reverse ++ s.passed
    rest := t
    lowerData := overwrite s.lowerData s.dp (u.map (lowered s))
    dp := s.dp + u.length }

/-- The byte is no colon that ends a name. -/
def Plain (s : Pass) (u : List UInt8) : Prop :=
  s.httpHeaderIdx = 0 ∨ s.hadColon = true ∨ colon ∉ u

theorem readByte_plain (s : Pass) (c : UInt8) (t : List UInt8) (hrest : s.rest = c :: t)
    (hplain : s.httpHeaderIdx = 0 ∨ s.hadColon = true ∨ c ≠ colon)
    (hdp : s.dp < s.lowerData.length) : readByte s = some (.ok, passedOver s [c] t) := by
  have hcolon : ¬ (0 < s.httpHeaderIdx ∧ s.hadColon = false ∧ c = colon) := by
    rintro ⟨hidx, hhad, hc⟩
    obtain h0 | h1 | h2 := hplain
    · omega
    · rw [hhad] at h1
      cases h1
    · exact h2 hc
  rw [readByte, hrest]
  dsimp only
  rw [if_neg (Nat.not_le.mpr hdp), if_neg hcolon]
  rfl

theorem readByte_colon (s : Pass) (t : List UInt8) (hrest : s.rest = colon :: t)
    (hidx : 0 < s.httpHeaderIdx) (hcolon : s.hadColon = false) (hdp : s.dp < s.lowerData.length) :
    readByte s = endName s t := by
  rw [readByte, hrest]
  dsimp only
  rw [if_neg (Nat.not_le.mpr hdp), if_pos ⟨hidx, hcolon, rfl⟩]

/-- The loop goes over the bytes of a line. -/
theorem readHeaders_plain (headerLgth : Nat) (u t : List UInt8) (s : Pass)
    (hrest : s.rest = u ++ t) (hline : newLine ∉ u) (hplain : Plain s u)
    (hlgth : s.passed.length + u.length ≤ headerLgth)
    (hdp : s.dp + u.length ≤ s.lowerData.length) :
    readHeaders headerLgth s = readHeaders headerLgth (passedOver s u t) := by
  induction u generalizing s with
  | nil =>
    have hs : passedOver s [] t = s := by
      obtain rfl : t = s.rest := hrest.symm
      rfl
    rw [hs]
  | cons c u ih =>
    have hne : c ≠ newLine := fun h => hline (h ▸ List.mem_cons_self)
    have hround : readRound s = some (.ok, passedOver s [c] (u ++ t)) := by
      rw [readRound, hrest, if_neg (by simpa using hne)]
      apply readByte_plain s c (u ++ t) hrest
      · obtain h0 | h1 | h2 := hplain
        · exact .inl h0
        · exact .inr (.inl h1)
        · exact .inr (.inr fun h => h2 (h ▸ List.mem_cons_self))
      · simp only [List.length_cons] at hdp
        omega
    simp only [List.length_cons] at hlgth hdp
    rw [readHeaders_of_lt headerLgth s (by omega), hround, goOn, ih]
    · have hdp' : s.dp + 1 + u.length = s.dp + (u.length + 1) := by omega
      simp only [passedOver, List.reverse_cons, List.append_assoc, List.map_cons, List.map_nil,
        List.length_cons, List.length_nil, overwrite, hdp']
      rfl
    · rfl
    · exact fun h => hline (List.mem_cons_of_mem c h)
    · obtain h0 | h1 | h2 := hplain
      · exact .inl h0
      · exact .inr (.inl h1)
      · exact .inr (.inr fun h => h2 (List.mem_cons_of_mem c h))
    · simp only [passedOver, List.reverse_singleton, List.singleton_append, List.length_cons]
      omega
    · simp only [passedOver, overwrite_length, List.length_singleton]
      omega

/-! ## A name and its value -/

/-- At the first byte of a line. -/
structure AtLine (s : Pass) : Prop where
  idx : 0 < s.httpHeaderIdx
  hadColon : s.hadColon = false
  dp : s.dp = s.passed.length
  lower : s.lowerHeaderStr = s.passed.length
  header : s.headerStr = s.passed.length
  size : s.passed.length + s.rest.length = s.lowerData.length

/-- Behind a name that is known, its colon and the spaces in front of the value. -/
def named (s : Pass) (name t : List UInt8) (httpHeaderId : Nat) : Pass :=
  { s with
    passed := t.takeWhile (· == space) ++ 0 :: (name.reverse ++ s.passed)
    rest := t.dropWhile (· == space)
    lowerData := (overwrite s.lowerData s.dp (name.map (lowered s))).set (s.dp + name.length) 0
    dp := s.dp + name.length + 1
    hadColon := true
    receivedHeaders := s.receivedHeaders.set s.httpHeaderIdx
      ⟨httpHeaderId, .data s.headerStr,
        .data (t.takeWhile (· == space) ++ 0 :: (name.reverse ++ s.passed)).length⟩ }

section Named

variable (s : Pass) (name t : List UInt8) (httpHeaderId : Nat)

theorem named_passed_length : (named s name t httpHeaderId).passed.length =
    s.passed.length + name.length + 1 + (t.takeWhile (· == space)).length := by
  simp only [named, List.length_append, List.length_cons, List.length_reverse]
  omega

theorem named_lowerData_length :
    (named s name t httpHeaderId).lowerData.length = s.lowerData.length := by
  simp only [named, List.length_set, overwrite_length]

theorem named_dp : (named s name t httpHeaderId).dp = s.dp + name.length + 1 := rfl

end Named

theorem spaces_length (t : List UInt8) :
    (t.takeWhile (· == space)).length + (t.dropWhile (· == space)).length = t.length := by
  rw [← List.length_append, List.takeWhile_append_dropWhile]

theorem cString_overwrite (bytes : List UInt8) (i : Nat) (bs : List UInt8)
    (h : i + bs.length < bytes.length) :
    cString (((overwrite bytes i bs).set (i + bs.length) 0).drop i) = cString bs := by
  have hi : (bytes.take i).length = i := by
    rw [List.length_take]
    omega
  obtain ⟨b, rest, hrest⟩ : ∃ b rest, bytes.drop (i + bs.length) = b :: rest := by
    apply List.exists_cons_of_ne_nil
    intro hnil
    rw [List.drop_eq_nil_iff] at hnil
    omega
  have hset : (overwrite bytes i bs).set (i + bs.length) 0 =
      bytes.take i ++ (bs ++ 0 :: rest) := by
    rw [overwrite_eq bytes i bs (by omega), hrest, List.set_append_right]
    · simp [hi]
    · simp [hi]
  rw [hset, List.drop_left' hi, cString_append_zero]

section EndName

variable (s : Pass) (t : List UInt8)

theorem endName_unknown (hid : getHttpHeaderKeyIdFromLowerKey
      (cString ((s.lowerData.set s.dp 0).drop s.lowerHeaderStr)) = none) :
    ∃ s', endName s t = some (.headerNotFound, s') := by
  rw [endName, hid]
  exact ⟨_, rfl⟩

variable (httpHeaderId : Nat) (hid : getHttpHeaderKeyIdFromLowerKey
  (cString ((s.lowerData.set s.dp 0).drop s.lowerHeaderStr)) = some httpHeaderId)

include hid

theorem endName_outside (hout : s.receivedHeaders.length ≤ s.httpHeaderIdx) :
    endName s t = none := by
  rw [endName, hid]
  dsimp only
  rw [if_pos (.inl hout)]

theorem endName_known (hin : s.httpHeaderIdx < s.receivedHeaders.length)
    (hvalue : t.dropWhile (· == space) ≠ []) :
    endName s t = some (.ok, { s with
      passed := t.takeWhile (· == space) ++ 0 :: s.passed
      rest := t.dropWhile (· == space)
      lowerData := s.lowerData.set s.dp 0
      dp := s.dp + 1
      hadColon := true
      receivedHeaders := s.receivedHeaders.set s.httpHeaderIdx ⟨httpHeaderId, .data s.headerStr,
        .data (t.takeWhile (· == space) ++ 0 :: s.passed).length⟩ }) := by
  have hboth : ¬ (s.receivedHeaders.length ≤ s.httpHeaderIdx ∨
      t.dropWhile (· == space) = []) := by
    rintro (hle | hnil)
    · exact absurd hin (Nat.not_lt.mpr hle)
    · exact hvalue hnil
  rw [endName, hid]
  dsimp only
  rw [if_neg hboth]

end EndName

section Name

variable (s : Pass) (h : AtLine s) (name t : List UInt8) (hrest : s.rest = name ++ colon :: t)

include h hrest

theorem lookup_passedOver (key : Option Nat)
    (hid : getHttpHeaderKeyIdFromLowerKey (cString (name.map toLower)) = key) :
    getHttpHeaderKeyIdFromLowerKey (cString
      ((((passedOver s name (colon :: t)).lowerData).set (passedOver s name (colon :: t)).dp 0).drop
        (passedOver s name (colon :: t)).lowerHeaderStr)) = key := by
  have hsize := h.size
  rw [hrest, List.length_append, List.length_cons] at hsize
  have hlow : name.map (lowered s) = name.map toLower := by
    apply List.map_congr_left
    intro c _
    rw [lowered, if_pos h.idx]
  have hstr := cString_overwrite s.lowerData s.dp (name.map toLower)
    (by rw [List.length_map, h.dp]; omega)
  rw [List.length_map] at hstr
  have hlower : s.lowerHeaderStr = s.dp := h.lower.trans h.dp.symm
  rw [← hid, ← hstr]
  simp only [passedOver, hlow, hlower]

variable (headerLgth : Nat) (hline : newLine ∉ name) (hname : colon ∉ name)
  (hlgth : s.passed.length + name.length < headerLgth)

include hline hname hlgth

/-- The loop goes over the name. -/
theorem readHeaders_name :
    readHeaders headerLgth s = goOn headerLgth (endName (passedOver s name (colon :: t)) t) := by
  have hsize := h.size
  rw [hrest, List.length_append, List.length_cons] at hsize
  have hdp := h.dp
  rw [readHeaders_plain headerLgth name (colon :: t) s hrest hline (.inr (.inr hname))
    (by omega) (by omega), readHeaders_of_lt]
  · have hne : ¬ (passedOver s name (colon :: t)).rest.head? = some newLine := by
      simp [passedOver, colon, newLine]
    rw [readRound, if_neg hne,
      readByte_colon (passedOver s name (colon :: t)) t rfl h.idx h.hadColon]
    simp only [passedOver, overwrite_length]
    omega
  · simp only [passedOver, List.length_append, List.length_reverse]
    omega

/-- A name that is not known ends the loop. -/
theorem readHeaders_unknown
    (hid : getHttpHeaderKeyIdFromLowerKey (cString (name.map toLower)) = none) :
    ∃ s', readHeaders headerLgth s = some (.headerNotFound, s') := by
  obtain ⟨s', hs'⟩ := endName_unknown (passedOver s name (colon :: t)) t
    (lookup_passedOver s h name t hrest none hid)
  rw [readHeaders_name s h name t hrest headerLgth hline hname hlgth, hs']
  exact ⟨s', rfl⟩

variable (httpHeaderId : Nat)
  (hid : getHttpHeaderKeyIdFromLowerKey (cString (name.map toLower)) = some httpHeaderId)

include hid

/-- A name that is known needs a header part. -/
theorem readHeaders_outside (hout : s.receivedHeaders.length ≤ s.httpHeaderIdx) :
    readHeaders headerLgth s = none := by
  rw [readHeaders_name s h name t hrest headerLgth hline hname hlgth,
    endName_outside (passedOver s name (colon :: t)) t httpHeaderId
      (lookup_passedOver s h name t hrest (some httpHeaderId) hid) hout]
  rfl

theorem readHeaders_named (hin : s.httpHeaderIdx < s.receivedHeaders.length)
    (hvalue : t.dropWhile (· == space) ≠ []) :
    readHeaders headerLgth s = readHeaders headerLgth (named s name t httpHeaderId) := by
  rw [readHeaders_name s h name t hrest headerLgth hline hname hlgth,
    endName_known (passedOver s name (colon :: t)) t httpHeaderId
      (lookup_passedOver s h name t hrest (some httpHeaderId) hid) hin hvalue]
  rfl

end Name

/-! ## Line by line -/

/-- At the first byte of a line, which is read whatever it is. -/
def fromLine (headerLgth : Nat) (s : Pass) : Option (Code × Pass) := goOn headerLgth (readByte s)

theorem fromLine_eq (headerLgth : Nat) (s : Pass) (u t : List UInt8) (hrest : s.rest = u ++ t)
    (hline : newLine ∉ u) (hne : u ≠ []) (hlgth : s.passed.length < headerLgth) :
    fromLine headerLgth s = readHeaders headerLgth s := by
  have hhead : s.rest.head? ≠ some newLine := by
    obtain ⟨c, u, rfl⟩ := List.exists_cons_of_ne_nil hne
    rw [hrest, List.cons_append, List.head?_cons, ne_eq, Option.some.injEq]
    rintro rfl
    exact hline List.mem_cons_self
  rw [readHeaders_of_lt headerLgth s hlgth, readRound, if_neg hhead, fromLine]

/-- Behind a new line. -/
def begun (s : Pass) (t : List UInt8) : Pass :=
  { s with
    passed := newLine :: 0 :: s.passed.tail
    rest := t
    dp := s.passed.length + 1
    lowerHeaderStr := s.passed.length + 1
    headerStr := s.passed.length + 1
    httpHeaderIdx := s.httpHeaderIdx + 1
    hadColon := false }

theorem begun_passed_length (s : Pass) (t : List UInt8) (hne : s.passed ≠ []) :
    (begun s t).passed.length = s.passed.length + 1 := by
  have hpos := List.length_pos_of_ne_nil hne
  simp only [begun, List.length_cons, List.length_tail]
  omega

theorem begun_atLine (s : Pass) (t : List UInt8) (hne : s.passed ≠ [])
    (hsize : s.passed.length + 1 + t.length = s.lowerData.length) : AtLine (begun s t) where
  idx := Nat.succ_pos _
  hadColon := rfl
  dp := (begun_passed_length s t hne).symm
  lower := (begun_passed_length s t hne).symm
  header := (begun_passed_length s t hne).symm
  size := by
    rw [begun_passed_length s t hne]
    exact hsize

theorem startLine_eq (s : Pass) (t : List UInt8) (hrest : s.rest = newLine :: t)
    (hne : s.passed ≠ []) : startLine s = some (begun s t) := by
  obtain ⟨p, ps, hpassed⟩ := List.exists_cons_of_ne_nil hne
  rw [startLine, hpassed, hrest]
  simp only [begun, hpassed, List.tail_cons, List.length_cons]

theorem readHeaders_newLine (headerLgth : Nat) (s : Pass) (t : List UInt8)
    (hrest : s.rest = newLine :: t) (hne : s.passed ≠ []) (hlgth : s.passed.length < headerLgth) :
    readHeaders headerLgth s = fromLine headerLgth (begun s t) := by
  have hhead : s.rest.head? = some newLine := by rw [hrest, List.head?_cons]
  rw [readHeaders_of_lt headerLgth s hlgth, readRound, if_pos hhead, startLine_eq s t hrest hne]
  rfl

/-- Behind a line and its new line. -/
def behindLine (s : Pass) (l t : List UInt8) : Pass := begun (passedOver s l (newLine :: t)) t

theorem behindLine_passed_length (s : Pass) (l t : List UInt8) (hne : l.reverse ++ s.passed ≠ []) :
    (behindLine s l t).passed.length = s.passed.length + l.length + 1 := by
  rw [behindLine, begun_passed_length _ _ hne]
  simp only [passedOver, List.length_append, List.length_reverse]
  omega

theorem behindLine_atLine (s : Pass) (l t : List UInt8) (hne : l.reverse ++ s.passed ≠ [])
    (hsize : s.passed.length + l.length + 1 + t.length = s.lowerData.length) :
    AtLine (behindLine s l t) := by
  apply begun_atLine _ _ hne
  simp only [passedOver, overwrite_length, List.length_append, List.length_reverse]
  omega

/-- The loop goes over the bytes up to a new line. -/
theorem readHeaders_line (headerLgth : Nat) (u t : List UInt8) (s : Pass)
    (hrest : s.rest = u ++ newLine :: t) (hline : newLine ∉ u) (hplain : Plain s u)
    (hne : u.reverse ++ s.passed ≠ []) (hlgth : s.passed.length + u.length < headerLgth)
    (hdp : s.dp + u.length ≤ s.lowerData.length) :
    readHeaders headerLgth s = fromLine headerLgth (behindLine s u t) := by
  rw [readHeaders_plain headerLgth u (newLine :: t) s hrest hline hplain (by omega) hdp]
  apply readHeaders_newLine headerLgth (passedOver s u (newLine :: t)) t rfl hne
  simp only [passedOver, List.length_append, List.length_reverse]
  omega

theorem spaces_append (v t : List UInt8) :
    (v ++ newLine :: t).takeWhile (· == space) = v.takeWhile (· == space) ∧
      (v ++ newLine :: t).dropWhile (· == space) = v.dropWhile (· == space) ++ newLine :: t := by
  have hne : (newLine == space) = false := rfl
  induction v with
  | nil => simp [hne]
  | cons c v ih =>
    by_cases hc : c = space
    · simp [hc, ih]
    · simp [hc]

/-- Behind a line with a name that is known. -/
def behindHeader (s : Pass) (name v t : List UInt8) (httpHeaderId : Nat) : Pass :=
  behindLine (named s name (v ++ newLine :: t) httpHeaderId) (v.dropWhile (· == space)) t

theorem behindHeader_passed_length (s : Pass) (name v t : List UInt8) (httpHeaderId : Nat) :
    (behindHeader s name v t httpHeaderId).passed.length =
      s.passed.length + (name ++ colon :: v).length + 1 := by
  have hv := spaces_length v
  rw [behindHeader, behindLine_passed_length _ _ _ (by simp [named]), named_passed_length,
    (spaces_append v t).1, List.length_append, List.length_cons]
  omega

theorem behindHeader_atLine (s : Pass) (h : AtLine s) (name v t : List UInt8) (httpHeaderId : Nat)
    (hrest : s.rest = name ++ colon :: v ++ newLine :: t) :
    AtLine (behindHeader s name v t httpHeaderId) := by
  have hsize := h.size
  have hv := spaces_length v
  rw [hrest] at hsize
  simp only [List.length_append, List.length_cons] at hsize
  apply behindLine_atLine _ _ _ (by simp [named])
  rw [named_passed_length, named_lowerData_length, (spaces_append v t).1]
  omega

section Line

variable (s : Pass) (h : AtLine s) (headerLgth : Nat)

include h

/-- The loop goes over a line without a colon. -/
theorem fromLine_noColon (l t : List UInt8) (hrest : s.rest = l ++ newLine :: t)
    (hline : newLine ∉ l) (hne : l ≠ []) (hlgth : s.passed.length + l.length < headerLgth)
    (hcolon : colon ∉ l) :
    fromLine headerLgth s = fromLine headerLgth (behindLine s l t) := by
  have hsize := h.size
  rw [hrest, List.length_append] at hsize
  have hdp := h.dp
  rw [fromLine_eq headerLgth s l (newLine :: t) hrest hline hne (by omega)]
  apply readHeaders_line headerLgth l t s hrest hline (.inr (.inr hcolon))
  · simp [hne]
  · exact hlgth
  · omega

section Header

variable (name v t : List UInt8) (hrest : s.rest = name ++ colon :: v ++ newLine :: t)
  (hline : newLine ∉ name ++ colon :: v) (hname : colon ∉ name)
  (hlgth : s.passed.length + (name ++ colon :: v).length < headerLgth)

include hrest hline hname hlgth

/-- The loop goes over a line with a name that is known. -/
theorem fromLine_known (httpHeaderId : Nat)
    (hid : getHttpHeaderKeyIdFromLowerKey (cString (name.map toLower)) = some httpHeaderId)
    (hin : s.httpHeaderIdx < s.receivedHeaders.length) :
    fromLine headerLgth s = fromLine headerLgth (behindHeader s name v t httpHeaderId) := by
  have hsize := h.size
  rw [hrest] at hsize
  have hdp := h.dp
  have hspaces := spaces_append v t
  have hv := spaces_length v
  simp only [List.length_append, List.length_cons] at hsize hlgth
  rw [fromLine_eq headerLgth s _ _ hrest hline (by simp) (by omega),
    readHeaders_named s h name (v ++ newLine :: t) (by simpa using hrest) headerLgth
      (fun hmem => hline (List.mem_append_left _ hmem)) hname (by omega) httpHeaderId hid hin
      (by rw [hspaces.2]; simp)]
  apply readHeaders_line
  · exact hspaces.2
  · intro hmem
    apply hline
    apply List.mem_append_right
    exact List.mem_cons_of_mem colon ((List.dropWhile_suffix _).subset hmem)
  · exact .inr (.inl rfl)
  · simp [named]
  · rw [named_passed_length, hspaces.1]
    omega
  · rw [named_lowerData_length, named_dp]
    omega

end Header

end Line

/-- At the end of the header. -/
theorem readHeaders_end (headerLgth : Nat) (u t : List UInt8) (s : Pass)
    (hrest : s.rest = u ++ t) (hline : newLine ∉ u) (hplain : Plain s u)
    (hlgth : s.passed.length + u.length = headerLgth)
    (hdp : s.dp + u.length ≤ s.lowerData.length) :
    readHeaders headerLgth s = some (.ok, passedOver s u t) := by
  rw [readHeaders_plain headerLgth u t s hrest hline hplain (by omega) hdp]
  apply readHeaders_of_le
  simp only [passedOver, List.length_append, List.length_reverse]
  omega

/-- The data ends in front of the end of the header. -/
theorem readHeaders_beyond (headerLgth : Nat) (s : Pass) (hline : newLine ∉ s.rest)
    (hplain : Plain s s.rest) (hlgth : s.passed.length + s.rest.length < headerLgth)
    (hdp : s.dp + s.rest.length ≤ s.lowerData.length) : readHeaders headerLgth s = none := by
  rw [readHeaders_plain headerLgth s.rest [] s (List.append_nil _).symm hline hplain (by omega) hdp,
    readHeaders_of_lt]
  · rfl
  · simp only [passedOver, List.length_append, List.length_reverse]
    omega

end NodeMcu.CompMsg.HttpLines
