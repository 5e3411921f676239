import NodeMcu.CompMsg.HttpLines

namespace NodeMcu.CompMsg.HttpWalk

open NodeMcu.Lib.Text NodeMcu.CompMsg.HttpParse NodeMcu.CompMsg.HttpLines

/-! ## Lines -/

/-- The bytes of a text with their lines. All but the last one end in a new line, and are not
empty. -/
inductive Lines : List UInt8 → List (List UInt8) → Prop
  | last (l : List UInt8) (hl : newLine ∉ l) : Lines l [l]
  | line (l R : List UInt8) (ls : List (List UInt8)) (hl : newLine ∉ l) (hne : l ≠ [])
      (hR : Lines R ls) : Lines (l ++ newLine :: R) (l :: ls)

/-- The name that a line is searched for, if it has a colon. -/
def lineName (l : List UInt8) : Option (List UInt8) :=
  if colon ∈ l then some (cString ((l.takeWhile (· != colon)).map toLower)) else none

/-- How the lines of a header are gone through: to their end, to a name that is not known, or to a
name for which there is no header part. -/
inductive Walked
  | ended
  | stopped
  | outside
  deriving DecidableEq

/-- The lines from the one with index `h` on, where there are `n` header parts. -/
def walk (n : Nat) : Nat → List (List UInt8) → Walked
  | _, [] => .ended
  | h, l :: ls =>
    match lineName l with
    | none => walk n (h + 1) ls
    | some name =>
      match getHttpHeaderKeyIdFromLowerKey name with
      | none => .stopped
      | some _ => if h < n then walk n (h + 1) ls else .outside

section Walk

variable (n h : Nat) (l : List UInt8) (ls : List (List UInt8))

theorem walk_noName (hl : lineName l = none) : walk n h (l :: ls) = walk n (h + 1) ls := by
  rw [walk, hl]

variable (name : List UInt8) (hl : lineName l = some name)

include hl

theorem walk_unknown (hid : getHttpHeaderKeyIdFromLowerKey name = none) :
    walk n h (l :: ls) = .stopped := by
  simp [walk, hl, hid]

theorem walk_known (httpHeaderId : Nat)
    (hid : getHttpHeaderKeyIdFromLowerKey name = some httpHeaderId) :
    walk n h (l :: ls) = if h < n then walk n (h + 1) ls else .outside := by
  simp [walk, hl, hid]

end Walk

theorem lineName_eq_none (l : List UInt8) (h : colon ∉ l) : lineName l = none := if_neg h

theorem lineName_append (name v : List UInt8) (h : colon ∉ name) :
    lineName (name ++ colon :: v) = some (cString (name.map toLower)) := by
  have hwhile : (name ++ colon :: v).takeWhile (· != colon) = name := by
    rw [List.takeWhile_append_of_pos]
    · simp
    · intro c hc
      rw [bne_iff_ne]
      rintro rfl
      exact h hc
  rw [lineName, if_pos (by simp), hwhile]

theorem exists_name (l : List UInt8) (h : colon ∈ l) :
    ∃ name v, l = name ++ colon :: v ∧ colon ∉ name :=
  List.eq_append_cons_of_mem h

theorem Lines.splitOn_eq {R : List UInt8} {ls : List (List UInt8)} (h : Lines R ls) :
    R.splitOn newLine = ls := by
  induction h with
  | last l hl => exact List.splitOn_eq_singleton hl
  | line l R ls hl hne hR ih =>
    rw [List.splitOn_append_cons_of_beq l R (beq_self_eq_true newLine), ih,
      List.splitOn_eq_singleton hl, List.singleton_append]

/-! ## Which headers are gone through -/

/-- The lines from the one that `s` is at on are gone through inside of the data and the parts. -/
def Returns (headerLgth : Nat) (s : Pass) (ls : List (List UInt8)) : Prop :=
  walk s.receivedHeaders.length s.httpHeaderIdx ls ≠ .outside ∧
    (walk s.receivedHeaders.length s.httpHeaderIdx ls = .stopped ∨ headerLgth ≤ s.lowerData.length)

/-- The first byte behind a new line is read, even if the header ends there. -/
theorem fromLine_empty (s : Pass) (h : AtLine s) (hne : s.rest ≠ []) :
    (fromLine s.passed.length s).isSome := by
  have hsize := h.size
  obtain ⟨c, t, hrest⟩ := List.exists_cons_of_ne_nil hne
  rw [hrest, List.length_cons] at hsize
  have hdp := h.dp
  by_cases hc : c = colon
  · subst hc
    obtain ⟨s', hs'⟩ := endName_unknown s t (lookup_passedOver s h [] t hrest none rfl)
    rw [fromLine, readByte_colon s t hrest h.idx h.hadColon (by omega), hs']
    rfl
  · rw [fromLine, readByte_plain s c t hrest (.inr (.inr hc)) (by omega), goOn,
      readHeaders_of_le]
    · rfl
    · simp [passedOver]

/-- There is a value behind a colon, as the data ends in a zero. -/
theorem value_ne_nil (s : Pass) (name t : List UInt8) (hrest : s.rest = name ++ colon :: t)
    (hzero : s.rest.getLast? = some 0) : t.dropWhile (· == space) ≠ [] := by
  intro hnil
  rw [List.dropWhile_eq_nil_iff] at hnil
  rw [hrest, List.getLast?_append_of_ne_nil _ (List.cons_ne_nil _ _)] at hzero
  obtain hcolon | hmem := List.mem_cons.mp (List.mem_of_getLast? hzero)
  · cases hcolon
  · cases hnil 0 hmem

section LastLine

variable (s : Pass) (h : AtLine s) (headerLgth : Nat) (l t : List UInt8)
  (hrest : s.rest = l ++ t) (hline : newLine ∉ l) (hzero : s.rest.getLast? = some 0)
  (hlgth : s.passed.length + l.length = headerLgth ∨
    s.passed.length + l.length < headerLgth ∧ t = [])

include h hrest hline hzero hlgth

theorem lastLine_noColon (hcolon : colon ∉ l) :
    (fromLine headerLgth s).isSome ↔ headerLgth ≤ s.lowerData.length := by
  have hsize := h.size
  have hdp := h.dp
  rw [hrest, List.length_append] at hsize
  by_cases hl : l = []
  · subst hl
    have hne : s.rest ≠ [] := by
      rintro hnil
      rw [hnil] at hzero
      cases hzero
    obtain hN | ⟨-, ht⟩ := hlgth
    · obtain rfl : s.passed.length = headerLgth := hN
      exact iff_of_true (fromLine_empty s h hne) (by omega)
    · exact absurd (hrest.trans ht) hne
  · have hpos := List.length_pos_of_ne_nil hl
    rw [fromLine_eq headerLgth s l t hrest hline hl (by omega)]
    obtain hN | ⟨hN, rfl⟩ := hlgth
    · rw [readHeaders_end headerLgth l t s hrest hline (.inr (.inr hcolon)) hN (by omega)]
      exact iff_of_true rfl (by omega)
    · rw [List.append_nil] at hrest
      subst hrest
      rw [readHeaders_beyond headerLgth s hline (.inr (.inr hcolon)) hN (by omega)]
      exact iff_of_false (by simp) (by simp only [List.length_nil] at hsize; omega)

section LastHeader

variable (name v : List UInt8) (hl : l = name ++ colon :: v) (hname : colon ∉ name)

include hl hname

theorem lastLine_header (httpHeaderId : Nat)
    (hid : getHttpHeaderKeyIdFromLowerKey (cString (name.map toLower)) = some httpHeaderId)
    (hin : s.httpHeaderIdx < s.receivedHeaders.length) :
    (fromLine headerLgth s).isSome ↔ headerLgth ≤ s.lowerData.length := by
  have hsize := h.size
  have hdp := h.dp
  have hv := spaces_length v
  rw [fromLine_eq headerLgth s l t hrest hline (by simp [hl]) (by simp [hl] at hlgth; omega)]
  subst hl
  rw [List.append_assoc, List.cons_append] at hrest
  have hvalue := value_ne_nil s name (v ++ t) hrest hzero
  rw [hrest] at hsize
  simp only [List.length_append, List.length_cons] at hsize hlgth
  rw [readHeaders_named s h name (v ++ t) hrest headerLgth
      (fun hmem => hline (List.mem_append_left _ hmem)) hname (by omega) httpHeaderId hid hin
      hvalue]
  rw [List.dropWhile_append] at hvalue
  have hpassed := named_passed_length s name (v ++ t) httpHeaderId
  have hlower := named_lowerData_length s name (v ++ t) httpHeaderId
  rw [List.takeWhile_append] at hpassed
  by_cases hspaces : v.dropWhile (· == space) = []
  · -- the spaces go on behind the header
    have htake : (v.takeWhile (· == space)).length = v.length := by
      rw [hspaces, List.length_nil] at hv
      exact hv
    rw [if_pos htake, List.length_append] at hpassed
    rw [hspaces, List.isEmpty_nil, if_pos rfl] at hvalue
    obtain hN | ⟨-, rfl⟩ := hlgth
    · rw [readHeaders_of_le headerLgth _ (by omega)]
      exact iff_of_true rfl (by omega)
    · exact absurd rfl hvalue
  · have hne : (v.takeWhile (· == space)).length ≠ v.length := by
      have hpos := List.length_pos_of_ne_nil hspaces
      omega
    rw [if_neg hne] at hpassed
    have hrest' : (named s name (v ++ t) httpHeaderId).rest = v.dropWhile (· == space) ++ t := by
      simp only [named, List.dropWhile_append, List.isEmpty_iff, if_neg hspaces]
    have hline' : newLine ∉ v.dropWhile (· == space) := by
      intro hmem
      apply hline
      apply List.mem_append_right
      exact List.mem_cons_of_mem colon ((List.dropWhile_suffix _).subset hmem)
    have hdp' := named_dp s name (v ++ t) httpHeaderId
    obtain hN | ⟨hN, rfl⟩ := hlgth
    · rw [readHeaders_end headerLgth _ t _ hrest' hline' (.inr (.inl rfl)) (by omega) (by omega)]
      exact iff_of_true rfl (by omega)
    · rw [List.append_nil (v.dropWhile _)] at hrest'
      rw [readHeaders_beyond headerLgth _ (hrest' ▸ hline') (.inr (.inl rfl))
        (by rw [hrest']; omega) (by rw [hrest']; omega)]
      exact iff_of_false (by simp) (by simp only [List.length_nil] at hsize; omega)

end LastHeader

end LastLine

theorem zero_behind (l t : List UInt8) (h : (l ++ newLine :: t).getLast? = some 0) :
    t.getLast? = some 0 := by
  rw [List.getLast?_append_of_ne_nil _ (List.cons_ne_nil _ _)] at h
  cases t with
  | nil => cases h
  | cons c t => rwa [List.getLast?_cons_cons] at h

section Name

variable (s : Pass) (h : AtLine s) (headerLgth : Nat) (name v t : List UInt8)
  (hrest : s.rest = name ++ colon :: v ++ t) (hline : newLine ∉ name ++ colon :: v)
  (hname : colon ∉ name) (hlgth : s.passed.length + (name ++ colon :: v).length ≤ headerLgth)

include h hrest hline hname hlgth

theorem fromLine_unknown (ls : List (List UInt8))
    (hid : getHttpHeaderKeyIdFromLowerKey (cString (name.map toLower)) = none) :
    (fromLine headerLgth s).isSome ↔ Returns headerLgth s ((name ++ colon :: v) :: ls) := by
  have hlgth' : s.passed.length + name.length < headerLgth := by
    simp only [List.length_append, List.length_cons] at hlgth
    omega
  obtain ⟨s', hs'⟩ := readHeaders_unknown s h name (v ++ t) (by simpa using hrest) headerLgth
    (fun hmem => hline (List.mem_append_left _ hmem)) hname hlgth' hid
  rw [fromLine_eq headerLgth s _ t hrest hline (by simp) (by omega), hs', Returns,
    walk_unknown _ _ _ _ _ (lineName_append name v hname) hid]
  exact iff_of_true rfl ⟨by simp, .inl rfl⟩

theorem fromLine_outside (ls : List (List UInt8)) (httpHeaderId : Nat)
    (hid : getHttpHeaderKeyIdFromLowerKey (cString (name.map toLower)) = some httpHeaderId)
    (hout : ¬ s.httpHeaderIdx < s.receivedHeaders.length) :
    (fromLine headerLgth s).isSome ↔ Returns headerLgth s ((name ++ colon :: v) :: ls) := by
  have hlgth' : s.passed.length + name.length < headerLgth := by
    simp only [List.length_append, List.length_cons] at hlgth
    omega
  rw [fromLine_eq headerLgth s _ t hrest hline (by simp) (by omega),
    readHeaders_outside s h name (v ++ t) (by simpa using hrest) headerLgth
      (fun hmem => hline (List.mem_append_left _ hmem)) hname hlgth' httpHeaderId hid
      (Nat.not_lt.mp hout), Returns,
    walk_known _ _ _ _ _ (lineName_append name v hname) httpHeaderId hid, if_neg hout]
  exact iff_of_false (by simp) fun hreturns => hreturns.1 rfl

end Name

/-- The loop from a line on, over the lines of the header and no further. -/
theorem fromLine_isSome {R : List UInt8} {ls : List (List UInt8)} (hlines : Lines R ls)
    (headerLgth : Nat) (T : List UInt8) (s : Pass) (h : AtLine s) (hrest : s.rest = R ++ T)
    (hzero : s.rest.getLast? = some 0)
    (hlgth : s.passed.length + R.length = headerLgth ∨
      s.passed.length + R.length < headerLgth ∧ T = []) :
    (fromLine headerLgth s).isSome ↔ Returns headerLgth s ls := by
  induction hlines generalizing s with
  | last l hl =>
    have hle : s.passed.length + l.length ≤ headerLgth := by omega
    by_cases hcolon : colon ∈ l
    · obtain ⟨name, v, rfl, hname⟩ := exists_name l hcolon
      cases hid : getHttpHeaderKeyIdFromLowerKey (cString (name.map toLower)) with
      | none => exact fromLine_unknown s h headerLgth name v T hrest hl hname hle [] hid
      | some httpHeaderId =>
        by_cases hin : s.httpHeaderIdx < s.receivedHeaders.length
        · rw [Returns, walk_known _ _ _ _ _ (lineName_append name v hname) httpHeaderId hid,
            if_pos hin, lastLine_header s h headerLgth _ T hrest hl hzero hlgth name v rfl hname
            httpHeaderId hid hin]
          simp [walk]
        · exact fromLine_outside s h headerLgth name v T hrest hl hname hle [] httpHeaderId hid hin
    · rw [Returns, walk_noName _ _ _ _ (lineName_eq_none l hcolon),
        lastLine_noColon s h headerLgth l T hrest hl hzero hlgth hcolon]
      simp [walk]
  | line l R ls hl hne hR ih =>
    have hsize := h.size
    rw [hrest] at hsize
    simp only [List.length_append, List.length_cons] at hsize hlgth
    have hrest' : s.rest = l ++ newLine :: (R ++ T) := by simpa using hrest
    rw [hrest'] at hzero
    have hzero' := zero_behind l (R ++ T) hzero
    by_cases hcolon : colon ∈ l
    · obtain ⟨name, v, rfl, hname⟩ := exists_name l hcolon
      have hle : s.passed.length + (name ++ colon :: v).length ≤ headerLgth := by omega
      cases hid : getHttpHeaderKeyIdFromLowerKey (cString (name.map toLower)) with
      | none =>
        exact fromLine_unknown s h headerLgth name v _ hrest' hl hname hle ls hid
      | some httpHeaderId =>
        by_cases hin : s.httpHeaderIdx < s.receivedHeaders.length
        · have hpassed := behindHeader_passed_length s name v (R ++ T) httpHeaderId
          rw [Returns, walk_known _ _ _ _ _ (lineName_append name v hname) httpHeaderId hid,
            if_pos hin, fromLine_known s h headerLgth name v (R ++ T) hrest' hl hname (by omega)
            httpHeaderId hid hin, ih _ (behindHeader_atLine s h name v (R ++ T) httpHeaderId hrest')
            rfl hzero' ?_]
          · simp [Returns, behindHeader, behindLine, begun, passedOver, named]
          · rw [hpassed]
            exact hlgth.imp (fun hN => by omega) (And.imp_left fun hN => by omega)
        · exact fromLine_outside s h headerLgth name v _ hrest' hl hname hle ls httpHeaderId hid hin
    · have hne' : l.reverse ++ s.passed ≠ [] := by simp [hne]
      have hat := behindLine_atLine s l (R ++ T) hne' (by rw [List.length_append]; omega)
      rw [Returns, walk_noName _ _ _ _ (lineName_eq_none l hcolon),
        fromLine_noColon s h headerLgth l (R ++ T) hrest' hl hne (by omega) hcolon,
        ih _ hat rfl hzero' ?_]
      · simp [Returns, behindLine, begun, passedOver]
      · rw [behindLine_passed_length s l (R ++ T) hne']
        exact hlgth.imp (fun hN => by omega) (And.imp_left fun hN => by omega)

end NodeMcu.CompMsg.HttpWalk
