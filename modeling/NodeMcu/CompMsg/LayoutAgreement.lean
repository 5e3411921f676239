import Mathlib.Data.List.DropRight
import NodeMcu.CompMsg.Identify

namespace NodeMcu.CompMsg.LayoutAgreement

open NodeMcu.Lib.Intervals
open NodeMcu.CompMsg.Codes NodeMcu.CompMsg.Fields NodeMcu.CompMsg.Layout NodeMcu.CompMsg.Identify

/-- The receiver computes the layout of the sender. -/
structure LayoutAgrees (d : CompMsgData) : Prop where
  fields : (initReceivedMsg d).2.fields = (initMsg d).2.fields
  headerLgth : (initReceivedMsg d).2.headerLgth = (initMsg d).2.headerLgth
  cmdLgth : (initReceivedMsg d).2.cmdLgth = (initMsg d).2.cmdLgth
  totalLgth : (initReceivedMsg d).2.totalLgth = (initMsg d).2.totalLgth

def isFiller (f : CompMsgField) : Bool := f.fieldNameId == specFieldFiller

/-- A field of the default case. -/
def isPlain (f : CompMsgField) : Bool := !isHeaderField f && !isFiller f

/-- The fields behind the last one that is not plain. -/
def plainTail (fs : List CompMsgField) : List CompMsgField := fs.rtakeWhile isPlain

/-- The plain fields behind the last filler. -/
def plainBehindFiller (fs : List CompMsgField) : List CompMsgField :=
  (fs.rtakeWhile fun f => !isFiller f).filter isPlain

/-- What the last field that is not plain adds to `totalLgth` for fields behind it. -/
def totalAhead (d : CompMsgData) (fs : List CompMsgField) : Nat :=
  match (fs.rdropWhile isPlain).getLast? with
  | none => d.totalLgth
  | some f => if isFiller f then crcLgth d.flags else 0

/-- What the last filler adds to `cmdLgth` for fields behind it. -/
def cmdAhead (d : CompMsgData) (fs : List CompMsgField) : Nat :=
  if fs.any isFiller then crcLgth d.flags else d.cmdLgth

/-- The plain fields at the end have the lengths that were counted for them in advance. -/
def CountedAhead (d : CompMsgData) : Prop :=
  (plainTail d.fields ≠ [] →
      total CompMsgField.fieldLgth (plainTail d.fields) = totalAhead d d.fields) ∧
    (plainBehindFiller d.fields ≠ [] →
      total CompMsgField.fieldLgth (plainBehindFiller d.fields) = cmdAhead d d.fields)

/-- The two passes over `fs` from the state `d` on. -/
structure Passes (d s r : CompMsgData) (fs : List CompMsgField) : Prop where
  flags : s.flags = d.flags ∧ r.flags = d.flags
  fieldOffset : r.fieldOffset = s.fieldOffset
  headerLgth : r.headerLgth = s.headerLgth
  headerLe : s.headerLgth ≤ s.fieldOffset
  totalSum : r.totalLgth + total CompMsgField.fieldLgth (plainTail fs) =
    s.fieldOffset + totalAhead d fs
  totalTail : plainTail fs ≠ [] → s.totalLgth = s.fieldOffset
  totalNone : plainTail fs = [] → s.totalLgth = r.totalLgth
  cmdSum : r.cmdLgth + s.headerLgth + total CompMsgField.fieldLgth (plainBehindFiller fs) =
    s.fieldOffset + cmdAhead d fs
  cmdTail : plainBehindFiller fs ≠ [] → s.cmdLgth + s.headerLgth = s.fieldOffset
  cmdNone : plainBehindFiller fs = [] → s.cmdLgth = r.cmdLgth

theorem layoutReceivedFields_append (d : CompMsgData) (fs gs : List CompMsgField) :
    layoutReceivedFields d (fs ++ gs) =
      ((layoutReceivedFields d fs).1 ++
          (layoutReceivedFields (layoutReceivedFields d fs).2 gs).1,
        (layoutReceivedFields (layoutReceivedFields d fs).2 gs).2) := by
  induction fs generalizing d with
  | nil => rfl
  | cons f fs ih => simp [layoutReceivedFields, ih]

theorem layoutField_of_header (d : CompMsgData) (f : CompMsgField) (hf : isHeaderField f = true) :
    layoutField d f = ({ f with fieldOffset := d.fieldOffset }, { d with
      headerLgth := d.headerLgth + f.fieldLgth
      totalLgth := d.fieldOffset + f.fieldLgth
      fieldOffset := d.fieldOffset + f.fieldLgth }) := by
  have hf' : isHeaderField { f with fieldOffset := d.fieldOffset } = true := hf
  simp only [layoutField, hf', if_true]

theorem isHeaderField_of_filler (f : CompMsgField) (hf : isFiller f = true) :
    isHeaderField f = false := by
  rw [isFiller, beq_iff_eq] at hf
  simp [isHeaderField, hf, specFieldFiller, specFieldSrc, specFieldDst, specFieldTotalLgth,
    specFieldGuid, specFieldSrcId, specFieldHdrFiller]

def fillerLgth (d : CompMsgData) : Nat :=
  padLoop 16 (d.fieldOffset + crcLgth d.flags - d.headerLgth)

theorem layoutField_of_filler (d : CompMsgData) (f : CompMsgField) (hf : isFiller f = true) :
    layoutField d f =
      ({ f with fieldOffset := d.fieldOffset, fieldLgth := fillerLgth d }, { d with
        totalLgth := d.fieldOffset + fillerLgth d + crcLgth d.flags
        cmdLgth := d.fieldOffset + fillerLgth d + crcLgth d.flags - d.headerLgth
        fieldOffset := d.fieldOffset + fillerLgth d }) := by
  have hf' : ¬ isHeaderField { f with fieldOffset := d.fieldOffset } = true :=
    Bool.eq_false_iff.mp (isHeaderField_of_filler f hf)
  rw [isFiller, beq_iff_eq] at hf
  rw [layoutField]
  dsimp only
  rw [if_neg hf', if_pos hf]
  rfl

theorem layoutField_of_plain (d : CompMsgData) (f : CompMsgField) (hf : isPlain f = true) :
    layoutField d f = ({ f with fieldOffset := d.fieldOffset }, { d with
      totalLgth := d.fieldOffset + f.fieldLgth
      cmdLgth := d.fieldOffset + f.fieldLgth - d.headerLgth
      fieldOffset := d.fieldOffset + f.fieldLgth }) := by
  rw [isPlain, Bool.and_eq_true, Bool.not_eq_true', Bool.not_eq_true', isFiller,
    beq_eq_false_iff_ne] at hf
  have hf' : isHeaderField { f with fieldOffset := d.fieldOffset } = false := hf.1
  simp only [layoutField, hf', hf.2, Bool.false_eq_true, if_false]

theorem layoutReceivedField_of_plain (d : CompMsgData) (f : CompMsgField)
    (hf : isPlain f = true) :
    layoutReceivedField d f = ({ f with fieldOffset := d.fieldOffset },
      { d with fieldOffset := d.fieldOffset + f.fieldLgth }) := by
  rw [isPlain, isFiller, ← Bool.not_or, Bool.not_eq_true'] at hf
  rw [layoutReceivedField, hf]
  rfl

theorem layoutReceivedField_of_not_plain (d : CompMsgData) (f : CompMsgField)
    (hf : isPlain f = false) : layoutReceivedField d f = layoutField d f := by
  rw [isPlain, isFiller, ← Bool.not_or, Bool.not_eq_false'] at hf
  rw [layoutReceivedField, hf]
  rfl

theorem plainTail_append (fs : List CompMsgField) (f : CompMsgField) :
    plainTail (fs ++ [f]) = if isPlain f then plainTail fs ++ [f] else [] :=
  List.rtakeWhile_concat isPlain fs f

theorem totalAhead_append (d : CompMsgData) (fs : List CompMsgField) (f : CompMsgField) :
    totalAhead d (fs ++ [f]) =
      if isPlain f then totalAhead d fs else if isFiller f then crcLgth d.flags else 0 := by
  rw [totalAhead, List.rdropWhile_concat]
  by_cases hf : isPlain f
  · rw [if_pos hf, if_pos hf, totalAhead]
  · rw [if_neg hf, if_neg hf, List.getLast?_concat]

theorem plainBehindFiller_append (fs : List CompMsgField) (f : CompMsgField) :
    plainBehindFiller (fs ++ [f]) =
      if isFiller f then []
      else if isPlain f then plainBehindFiller fs ++ [f] else plainBehindFiller fs := by
  rw [plainBehindFiller, List.rtakeWhile_concat]
  by_cases hf : isFiller f
  · rw [if_pos hf, hf]
    rfl
  · rw [if_neg hf, if_pos (by simpa using hf), List.filter_append, plainBehindFiller]
    by_cases hp : isPlain f
    · rw [if_pos hp, List.filter_singleton, hp]
      rfl
    · rw [if_neg hp, List.filter_singleton, Bool.eq_false_iff.mpr hp]
      exact List.append_nil _

theorem cmdAhead_append (d : CompMsgData) (fs : List CompMsgField) (f : CompMsgField) :
    cmdAhead d (fs ++ [f]) = if isFiller f then crcLgth d.flags else cmdAhead d fs := by
  rw [cmdAhead, List.any_append, List.any_cons, List.any_nil, Bool.or_false, cmdAhead]
  by_cases hf : isFiller f
  · simp [hf]
  · simp [hf]

section Field

variable {d s r : CompMsgData} {fs : List CompMsgField}

/-- A plain field lengthens both tails. Only the sender counts it. -/
theorem Passes.plain (h : Passes d s r fs) (f : CompMsgField) (hp : isPlain f = true) :
    (layoutReceivedField r f).1 = (layoutField s f).1 ∧
      Passes d (layoutField s f).2 (layoutReceivedField r f).2 (fs ++ [f]) := by
  obtain ⟨⟨hsf, hrf⟩, ho, hh, hle, ht, htt, htn, hc, hct, hcn⟩ := h
  have hn : isFiller f = false := by
    rw [isPlain, Bool.and_eq_true, Bool.not_eq_true', Bool.not_eq_true'] at hp
    exact hp.2
  have htail : plainTail (fs ++ [f]) = plainTail fs ++ [f] := by
    rw [plainTail_append, if_pos hp]
  have htotal : totalAhead d (fs ++ [f]) = totalAhead d fs := by
    rw [totalAhead_append, if_pos hp]
  have hbehind : plainBehindFiller (fs ++ [f]) = plainBehindFiller fs ++ [f] := by
    rw [plainBehindFiller_append, hn, if_neg (by decide), if_pos hp]
  have hcmd : cmdAhead d (fs ++ [f]) = cmdAhead d fs := by
    rw [cmdAhead_append, hn, if_neg (by decide)]
  rw [layoutField_of_plain s f hp, layoutReceivedField_of_plain r f hp]
  refine ⟨by rw [ho], ⟨⟨hsf, hrf⟩, ?_, hh, ?_, ?_, ?_, ?_, ?_, ?_, ?_⟩⟩
  · rw [ho]
  · exact Nat.le_add_right_of_le hle
  · rw [htail, htotal, total_append, total_cons, total_nil]
    dsimp only
    omega
  · exact fun _ => rfl
  · rw [htail]
    exact fun hnil => absurd hnil (by simp)
  · rw [hbehind, hcmd, total_append, total_cons, total_nil]
    dsimp only
    omega
  · intro _
    dsimp only
    omega
  · rw [hbehind]
    exact fun hnil => absurd hnil (by simp)

/-- A filler ends both tails, and both passes count it with the CRC behind it. -/
theorem Passes.filler (h : Passes d s r fs) (f : CompMsgField) (hp : isPlain f = false)
    (hn : isFiller f = true) :
    (layoutReceivedField r f).1 = (layoutField s f).1 ∧
      Passes d (layoutField s f).2 (layoutReceivedField r f).2 (fs ++ [f]) := by
  obtain ⟨⟨hsf, hrf⟩, ho, hh, hle, ht, htt, htn, hc, hct, hcn⟩ := h
  have htail : plainTail (fs ++ [f]) = [] := by
    rw [plainTail_append, hp, if_neg (by decide)]
  have htotal : totalAhead d (fs ++ [f]) = crcLgth d.flags := by
    rw [totalAhead_append, hp, if_neg (by decide), if_pos hn]
  have hbehind : plainBehindFiller (fs ++ [f]) = [] := by
    rw [plainBehindFiller_append, if_pos hn]
  have hcmd : cmdAhead d (fs ++ [f]) = crcLgth d.flags := by
    rw [cmdAhead_append, if_pos hn]
  have hfill : fillerLgth r = fillerLgth s := by
    rw [fillerLgth, ho, hh, hrf, ← hsf, fillerLgth]
  rw [layoutReceivedField_of_not_plain r f hp, layoutField_of_filler s f hn,
    layoutField_of_filler r f hn, hfill]
  refine ⟨by rw [ho], ⟨⟨hsf, hrf⟩, ?_, hh, ?_, ?_, ?_, ?_, ?_, ?_, ?_⟩⟩
  · rw [ho]
  · exact Nat.le_add_right_of_le hle
  · rw [htail, htotal, total_nil, hrf, ho]
    rfl
  · rw [htail]
    exact fun hnil => absurd rfl hnil
  · intro _
    dsimp only
    rw [ho, hsf, hrf]
  · rw [hbehind, hcmd, total_nil]
    dsimp only
    rw [hrf, ho, hh]
    omega
  · rw [hbehind]
    exact fun hnil => absurd rfl hnil
  · intro _
    dsimp only
    rw [ho, hh, hsf, hrf]

/-- A header field ends the tail of all lengths and leaves the lengths of the command alone. -/
theorem Passes.header (h : Passes d s r fs) (f : CompMsgField) (hp : isPlain f = false)
    (hn : isFiller f = false) :
    (layoutReceivedField r f).1 = (layoutField s f).1 ∧
      Passes d (layoutField s f).2 (layoutReceivedField r f).2 (fs ++ [f]) := by
  obtain ⟨⟨hsf, hrf⟩, ho, hh, hle, ht, htt, htn, hc, hct, hcn⟩ := h
  have hhead : isHeaderField f = true := by
    rw [isPlain, hn, Bool.not_false, Bool.and_true, Bool.not_eq_false'] at hp
    exact hp
  have htail : plainTail (fs ++ [f]) = [] := by
    rw [plainTail_append, hp, if_neg (by decide)]
  have htotal : totalAhead d (fs ++ [f]) = 0 := by
    rw [totalAhead_append, hp, if_neg (by decide), hn, if_neg (by decide)]
  have hbehind : plainBehindFiller (fs ++ [f]) = plainBehindFiller fs := by
    rw [plainBehindFiller_append, hn, if_neg (by decide), hp, if_neg (by decide)]
  have hcmd : cmdAhead d (fs ++ [f]) = cmdAhead d fs := by
    rw [cmdAhead_append, hn, if_neg (by decide)]
  rw [layoutReceivedField_of_not_plain r f hp, layoutField_of_header s f hhead,
    layoutField_of_header r f hhead]
  refine ⟨by rw [ho], ⟨⟨hsf, hrf⟩, ?_, ?_, ?_, ?_, ?_, ?_, ?_, ?_, ?_⟩⟩
  · rw [ho]
  · rw [hh]
  · exact Nat.add_le_add_right hle _
  · rw [htail, htotal, total_nil]
    dsimp only
    rw [ho]
  · rw [htail]
    exact fun hnil => absurd rfl hnil
  · intro _
    dsimp only
    rw [ho]
  · rw [hbehind, hcmd]
    dsimp only
    omega
  · rw [hbehind]
    intro hne
    have h1 := hct hne
    dsimp only
    omega
  · rw [hbehind]
    exact hcn

theorem Passes.field (h : Passes d s r fs) (f : CompMsgField) :
    (layoutReceivedField r f).1 = (layoutField s f).1 ∧
      Passes d (layoutField s f).2 (layoutReceivedField r f).2 (fs ++ [f]) := by
  cases hp : isPlain f with
  | true => exact h.plain f hp
  | false =>
    cases hn : isFiller f with
    | true => exact h.filler f hp hn
    | false => exact h.header f hp hn

theorem Passes.totalLgth_iff (h : Passes d s r fs) :
    r.totalLgth = s.totalLgth ↔
      (plainTail fs ≠ [] → total CompMsgField.fieldLgth (plainTail fs) = totalAhead d fs) := by
  have hsum := h.totalSum
  by_cases hnil : plainTail fs = []
  · exact ⟨fun _ hne => absurd hnil hne, fun _ => (h.totalNone hnil).symm⟩
  · rw [h.totalTail hnil]
    constructor
    · intro heq _
      omega
    · intro heq
      have h1 := heq hnil
      omega

theorem Passes.cmdLgth_iff (h : Passes d s r fs) :
    r.cmdLgth = s.cmdLgth ↔
      (plainBehindFiller fs ≠ [] →
        total CompMsgField.fieldLgth (plainBehindFiller fs) = cmdAhead d fs) := by
  have hsum := h.cmdSum
  by_cases hnil : plainBehindFiller fs = []
  · exact ⟨fun _ hne => absurd hnil hne, fun _ => (h.cmdNone hnil).symm⟩
  · have htail := h.cmdTail hnil
    constructor
    · intro heq _
      omega
    · intro heq
      have h1 := heq hnil
      omega

end Field

/-- Both passes give every field its place and length, and differ in what they make of them. -/
theorem passes (d : CompMsgData) (hd : d.fieldOffset = 0) (hh : d.headerLgth = 0)
    (fs : List CompMsgField) :
    (layoutReceivedFields d fs).1 = (layoutFields d fs).1 ∧
      Passes d (layoutFields d fs).2 (layoutReceivedFields d fs).2 fs := by
  induction fs using List.reverseRecOn with
  | nil =>
    refine ⟨rfl, ⟨⟨rfl, rfl⟩, rfl, rfl, ?_, ?_, ?_, fun _ => rfl, ?_, ?_, fun _ => rfl⟩⟩
    · show d.headerLgth ≤ d.fieldOffset
      omega
    · show d.totalLgth + 0 = d.fieldOffset + d.totalLgth
      omega
    · exact fun hne => absurd rfl hne
    · show d.cmdLgth + d.headerLgth + 0 = d.fieldOffset + d.cmdLgth
      omega
    · exact fun hne => absurd rfl hne
  | append_singleton fs f ih =>
    obtain ⟨hfields, hp⟩ := ih
    obtain ⟨hfield, hp⟩ := hp.field f
    rw [layoutFields_append, layoutReceivedFields_append]
    exact ⟨by rw [hfields]; simp only [layoutFields, layoutReceivedFields, hfield], hp⟩

theorem initReceivedMsg_layout (d : CompMsgData) (h : hasFlag d.flags isInitted = false) :
    let r := layoutReceivedFields { d with fieldOffset := 0, headerLgth := 0 } d.fields
    (initReceivedMsg d).2.fields = r.1 ∧ (initReceivedMsg d).2.headerLgth = r.2.headerLgth ∧
      (initReceivedMsg d).2.cmdLgth = r.2.cmdLgth ∧
      (initReceivedMsg d).2.totalLgth = r.2.totalLgth := by
  rw [initReceivedMsg, if_neg (by rw [h]; decide)]
  dsimp only
  split
  · exact ⟨rfl, rfl, rfl, rfl⟩
  · exact ⟨rfl, rfl, rfl, rfl⟩

theorem initMsg_lgths (d : CompMsgData) (h : hasFlag d.flags isInitted = false) :
    let r := layoutFields { d with fieldOffset := 0, headerLgth := 0 } d.fields
    (initMsg d).2.fields = r.1 ∧ (initMsg d).2.headerLgth = r.2.headerLgth ∧
      (initMsg d).2.cmdLgth = r.2.cmdLgth ∧ (initMsg d).2.totalLgth = r.2.totalLgth := by
  rw [initMsg, if_neg (by rw [h]; decide)]
  dsimp only
  split
  · exact ⟨rfl, rfl, rfl, rfl⟩
  · exact ⟨rfl, rfl, rfl, rfl⟩

/-- The receiver has no code for the lengths of plain fields, so that the two agree when there are
none behind the last field it has code for, or their lengths have been counted there. -/
theorem layoutAgrees_iff (d : CompMsgData) :
    LayoutAgrees d ↔ hasFlag d.flags isInitted = true ∨ CountedAhead d := by
  cases hi : hasFlag d.flags isInitted with
  | true =>
    have hs : (initMsg d).2 = d := by rw [initMsg, if_pos hi]
    have hr : (initReceivedMsg d).2 = d := by rw [initReceivedMsg, if_pos hi]
    refine ⟨fun _ => .inl rfl, fun _ => ?_⟩
    exact ⟨by rw [hs, hr], by rw [hs, hr], by rw [hs, hr], by rw [hs, hr]⟩
  | false =>
    obtain ⟨hsf, hsh, hsc, hst⟩ := initMsg_lgths d hi
    obtain ⟨hrf, hrh, hrc, hrt⟩ := initReceivedMsg_layout d hi
    obtain ⟨hfields, hp⟩ := passes { d with fieldOffset := 0, headerLgth := 0 } rfl rfl d.fields
    -- the start of the passes changes nothing that `totalAhead` and `cmdAhead` read
    have htotal : (initReceivedMsg d).2.totalLgth = (initMsg d).2.totalLgth ↔
        (plainTail d.fields ≠ [] → total CompMsgField.fieldLgth (plainTail d.fields) =
          totalAhead d d.fields) := by
      rw [hst, hrt]
      exact hp.totalLgth_iff
    have hcmd : (initReceivedMsg d).2.cmdLgth = (initMsg d).2.cmdLgth ↔
        (plainBehindFiller d.fields ≠ [] →
          total CompMsgField.fieldLgth (plainBehindFiller d.fields) = cmdAhead d d.fields) := by
      rw [hsc, hrc]
      exact hp.cmdLgth_iff
    constructor
    · intro h
      exact .inr ⟨htotal.mp h.totalLgth, hcmd.mp h.cmdLgth⟩
    · rintro (h | ⟨h1, h2⟩)
      · cases h
      · exact ⟨by rw [hsf, hrf, hfields], by rw [hsh, hrh, hp.headerLgth], hcmd.mpr h2,
          htotal.mpr h1⟩

/-- A message of two header fields and a command key. -/
def keyMsg : CompMsgData :=
  { fields := [⟨specFieldDst, .uint16, 2, 0⟩, ⟨specFieldTotalLgth, .uint16, 2, 0⟩,
      ⟨specFieldCmdKey, .uint16, 2, 0⟩]
    flags := 0
    fieldOffset := 0
    totalLgth := 0
    cmdLgth := 0
    headerLgth := 0
    compMsgDataView := ⟨fun _ => 0, 0⟩
    currHdr := ⟨0, 0, 0, 0, 'U', 'G', 0, []⟩ }

/-- The receiver takes the header for the whole message. -/
theorem keyMsg_not_agrees : ¬ LayoutAgrees keyMsg ∧
    (initMsg keyMsg).2.totalLgth = 6 ∧ (initReceivedMsg keyMsg).2.totalLgth = 4 := by
  have hs : (initMsg keyMsg).2.totalLgth = 6 := by decide
  have hr : (initReceivedMsg keyMsg).2.totalLgth = 4 := by decide
  refine ⟨fun h => ?_, hs, hr⟩
  have heq := h.totalLgth
  rw [hs, hr] at heq
  exact absurd heq (by decide)

end NodeMcu.CompMsg.LayoutAgreement
