import NodeMcu.CompMsg.Layout

namespace NodeMcu.CompMsg.Tiling

open NodeMcu.CompMsg.Codes NodeMcu.CompMsg.View NodeMcu.CompMsg.Fields NodeMcu.CompMsg.Headers
open NodeMcu.CompMsg.Layout NodeMcu.Lib.Intervals

/-- No header field stands behind a field that is none. -/
def HeaderFirst (fields : List CompMsgField) : Prop :=
  fields.Pairwise fun f g => isHeaderField g → isHeaderField f

instance (fields : List CompMsgField) : Decidable (HeaderFirst fields) :=
  inferInstanceAs (Decidable (fields.Pairwise fun f g => isHeaderField g → isHeaderField f))

/-- What `createMsg` leaves for `initMsg`. -/
structure Created (d : CompMsgData) : Prop where
  notInitted : hasFlag d.flags isInitted = false
  totalLgth : d.totalLgth = 0
  cmdLgth : d.cmdLgth = 0

def DeclaredCrcPresent (flags : Nat) (fields : List CompMsgField) : Prop :=
  (hasFlag flags hasCrc → ∃ f ∈ fields, f.fieldNameId = specFieldCrc) ∧
    (hasFlag flags hasTotalCrc → ∃ f ∈ fields, f.fieldNameId = specFieldTotalCrc)

/-- The layout a message is meant to have. -/
structure WellLaidOut (d : CompMsgData) : Prop where
  ordered : d.fields.Pairwise fun f g => f.fieldOffset + f.fieldLgth ≤ g.fieldOffset
  tiled : DeclaredCrcPresent d.flags d.fields →
    Tiles CompMsgField.fieldOffset CompMsgField.fieldLgth d.fields d.totalLgth
  lgths : d.totalLgth = d.headerLgth + d.cmdLgth
  filler : ∀ pre f c post, d.fields = pre ++ f :: c :: post →
    f.fieldNameId = specFieldFiller → c.fieldNameId = specFieldCrc →
    f.fieldLgth < 16 ∧ 16 ∣ c.fieldOffset + c.fieldLgth - d.headerLgth

/-- Every filler in front of a CRC field counts on the width that field has. -/
def FillerFits (flags : Nat) (fields : List CompMsgField) : Prop :=
  ∀ pre f c post, fields = pre ++ f :: c :: post →
    f.fieldNameId = specFieldFiller → c.fieldNameId = specFieldCrc →
    c.fieldLgth % 16 = crcLgth flags

def EndsInFiller (fields : List CompMsgField) : Prop :=
  ∃ f, fields.getLast? = some f ∧ f.fieldNameId = specFieldFiller

theorem crcLgth_le (flags : Nat) : crcLgth flags ≤ 2 := by
  unfold crcLgth
  split
  · split <;> omega
  · omega

/-- A declared CRC always counts as one byte wide: the two flags are the same bit. -/
theorem crcLgth_eq (flags : Nat) : crcLgth flags = if hasFlag flags hasCrc then 1 else 0 := by
  have h : hasCrc = uint8Crc := rfl
  unfold crcLgth
  rw [← h]
  split <;> simp_all

/-- While the lengths are added up, in the header and behind it. -/
structure Sound (d : CompMsgData) : Prop where
  headerLe : d.headerLgth ≤ d.fieldOffset
  lgths : d.totalLgth = d.headerLgth + d.cmdLgth

structure InHeader (d : CompMsgData) : Prop where
  header : d.headerLgth = d.fieldOffset
  total : d.totalLgth = d.fieldOffset
  cmd : d.cmdLgth = 0

theorem InHeader.sound (d : CompMsgData) (h : InHeader d) : Sound d :=
  ⟨h.header.le, by rw [h.total, h.header, h.cmd, Nat.add_zero]⟩

theorem layoutField_header (d : CompMsgData) (f : CompMsgField) (hd : InHeader d)
    (hf : isHeaderField f = true) : InHeader (layoutField d f).2 := by
  have hf' : isHeaderField { f with fieldOffset := d.fieldOffset } = true := hf
  unfold layoutField
  simp only [hf', if_true]
  exact ⟨by simp [hd.header], rfl, hd.cmd⟩

theorem layoutField_body (d : CompMsgData) (f : CompMsgField) (hd : d.headerLgth ≤ d.fieldOffset)
    (hf : isHeaderField f = false) :
    Sound (layoutField d f).2 ∧ (layoutField d f).2.headerLgth = d.headerLgth := by
  have hf' : isHeaderField { f with fieldOffset := d.fieldOffset } = false := hf
  unfold layoutField
  simp only [hf', Bool.false_eq_true, if_false]
  split
  · refine ⟨⟨?_, ?_⟩, rfl⟩
    · exact Nat.le_trans hd (Nat.le_add_right _ _)
    · dsimp only
      omega
  · refine ⟨⟨?_, ?_⟩, rfl⟩
    · exact Nat.le_trans hd (Nat.le_add_right _ _)
    · dsimp only
      omega

theorem layoutFields_body (d : CompMsgData) (fs : List CompMsgField) (hd : Sound d)
    (hfs : ∀ f ∈ fs, isHeaderField f = false) :
    Sound (layoutFields d fs).2 ∧ (layoutFields d fs).2.headerLgth = d.headerLgth := by
  induction fs generalizing d with
  | nil => exact ⟨hd, rfl⟩
  | cons f fs ih =>
    obtain ⟨h1, h2⟩ := layoutField_body d f hd.headerLe (hfs f List.mem_cons_self)
    obtain ⟨h3, h4⟩ := ih (layoutField d f).2 h1 (fun g hg => hfs g (List.mem_cons_of_mem f hg))
    exact ⟨h3, h4.trans h2⟩

theorem HeaderFirst.rest (f : CompMsgField) (fs : List CompMsgField)
    (h : HeaderFirst (f :: fs)) (hf : isHeaderField f = false) :
    ∀ g ∈ fs, isHeaderField g = false := by
  intro g hg
  have hp := (List.pairwise_cons.mp h).1 g hg
  simp only [hf, Bool.false_eq_true, imp_false, Bool.not_eq_true] at hp
  exact hp

theorem layoutFields_sound (d : CompMsgData) (fs : List CompMsgField) (hd : InHeader d)
    (hfs : HeaderFirst fs) : Sound (layoutFields d fs).2 := by
  induction fs generalizing d with
  | nil => exact hd.sound
  | cons f fs ih =>
    cases hf : isHeaderField f with
    | true =>
      exact ih _ (layoutField_header d f hd hf) (List.pairwise_cons.mp hfs).2
    | false =>
      have hs := (layoutField_body d f hd.header.le hf).1
      exact (layoutFields_body _ fs hs (hfs.rest f fs hf)).1

/-- The field that is laid out last decides how far `totalLgth` reaches. -/
theorem layoutField_total (d : CompMsgData) (f : CompMsgField) :
    (layoutField d f).2.totalLgth = (layoutField d f).2.fieldOffset +
      if f.fieldNameId = specFieldFiller then crcLgth d.flags else 0 := by
  unfold layoutField
  dsimp only
  split
  case isTrue h =>
    have hn : f.fieldNameId ≠ specFieldFiller := by
      intro he
      simp [isHeaderField, he, specFieldFiller, specFieldSrc, specFieldDst, specFieldTotalLgth,
        specFieldGuid, specFieldSrcId, specFieldHdrFiller] at h
    simp [hn]
  case isFalse h =>
    split
    case isTrue hf => rfl
    case isFalse hf => rfl

theorem layoutFields_total (d : CompMsgData) (fs : List CompMsgField)
    (hd : d.totalLgth = d.fieldOffset) :
    (layoutFields d fs).2.totalLgth = (layoutFields d fs).2.fieldOffset ↔
      ¬(hasFlag d.flags hasCrc ∧ EndsInFiller fs) := by
  obtain rfl | ⟨gs, g, rfl⟩ := fs.eq_nil_or_concat
  · simpa [layoutFields, EndsInFiller] using hd
  · have ht := layoutField_total (layoutFields d gs).2 g
    rw [layoutFields_flags, crcLgth_eq] at ht
    simp only [layoutFields_append, layoutFields, ht, EndsInFiller, List.concat_eq_append,
      List.getLast?_append, List.getLast?_singleton, Option.some_or, Option.some.injEq,
      exists_eq_left']
    split <;> simp_all

theorem layoutFields_split (d : CompMsgData) (fs as bs : List CompMsgField)
    (h : (layoutFields d fs).1 = as ++ bs) :
    ∃ gs hs, fs = gs ++ hs ∧ (layoutFields d gs).1 = as ∧
      (layoutFields (layoutFields d gs).2 hs).1 = bs := by
  induction as generalizing d fs with
  | nil => exact ⟨[], fs, rfl, rfl, h⟩
  | cons a as ih =>
    cases fs with
    | nil => simp [layoutFields] at h
    | cons f fs =>
      simp only [layoutFields, List.cons_append, List.cons.injEq] at h
      obtain ⟨gs, hs, rfl, h1, h2⟩ := ih _ fs h.2
      exact ⟨f :: gs, hs, rfl, by simp [layoutFields, h.1, h1], h2⟩

/-- The state in which the first loop of `initMsg` starts. -/
def startLayout (d : CompMsgData) : CompMsgData := { d with fieldOffset := 0, headerLgth := 0 }

theorem startLayout_inHeader (d : CompMsgData) (h : Created d) : InHeader (startLayout d) :=
  ⟨rfl, h.totalLgth, h.cmdLgth⟩

/-- Behind the first loop `initMsg` touches only the flags and the message bytes. -/
theorem initMsg_layout (d : CompMsgData) (h : Created d) :
    (initMsg d).2.fields = (layoutFields (startLayout d) d.fields).1 ∧
      (initMsg d).2.totalLgth = (layoutFields (startLayout d) d.fields).2.totalLgth ∧
      (initMsg d).2.cmdLgth = (layoutFields (startLayout d) d.fields).2.cmdLgth ∧
      (initMsg d).2.headerLgth = (layoutFields (startLayout d) d.fields).2.headerLgth ∧
      ((initMsg d).2.flags = d.flags ∨ (initMsg d).2.flags = d.flags ||| isInitted) := by
  have hf := layoutFields_flags (startLayout d) d.fields
  have hd : (startLayout d).flags = d.flags := rfl
  unfold initMsg
  simp only [h.notInitted, Bool.false_eq_true, if_false]
  rw [← startLayout]
  split
  · exact ⟨rfl, rfl, rfl, rfl, Or.inl (hf.trans hd)⟩
  · exact ⟨rfl, rfl, rfl, rfl, Or.inr (by rw [hf, hd])⟩

theorem declaredCrcPresent_iff (d : CompMsgData) (h : Created d) :
    DeclaredCrcPresent (initMsg d).2.flags (initMsg d).2.fields ↔
      DeclaredCrcPresent d.flags d.fields := by
  obtain ⟨hfields, -, -, -, hflags⟩ := initMsg_layout d h
  have hmem : ∀ id, (∃ f ∈ (initMsg d).2.fields, f.fieldNameId = id) ↔
      ∃ f ∈ d.fields, f.fieldNameId = id := by
    intro id
    have hids := layoutFields_nameIds (startLayout d) d.fields
    rw [← hfields] at hids
    simpa only [List.mem_map] using Iff.of_eq (congrArg (id ∈ ·) hids)
  have hcrc : hasFlag (initMsg d).2.flags hasCrc = hasFlag d.flags hasCrc := by
    rcases hflags with hfl | hfl <;> rw [hfl]
    exact hasFlag_or _ _ _ rfl
  have htotal : hasFlag (initMsg d).2.flags hasTotalCrc = hasFlag d.flags hasTotalCrc := by
    rcases hflags with hfl | hfl <;> rw [hfl]
    exact hasFlag_or _ _ _ rfl
  rw [DeclaredCrcPresent, DeclaredCrcPresent, hmem, hmem, hcrc, htotal]

theorem initMsg_tiles (d : CompMsgData) (h : Created d) :
    Tiles CompMsgField.fieldOffset CompMsgField.fieldLgth (initMsg d).2.fields
        (initMsg d).2.totalLgth ↔
      ¬(hasFlag d.flags hasCrc ∧ EndsInFiller d.fields) := by
  obtain ⟨hfields, htotal, -, -, -⟩ := initMsg_layout d h
  obtain ⟨hc, ho⟩ := layoutFields_consecutive (startLayout d) d.fields
  have hz : (startLayout d).fieldOffset = 0 := rfl
  rw [hz] at hc
  rw [hz, Nat.zero_add] at ho
  rw [hfields, htotal, tiles_iff _ _ _ hc, ← ho]
  exact layoutFields_total (startLayout d) d.fields h.totalLgth

theorem layoutField_filler (d : CompMsgData) (f : CompMsgField)
    (hf : f.fieldNameId = specFieldFiller) :
    (layoutField d f).1.fieldLgth =
      padLoop 16 (d.fieldOffset + crcLgth d.flags - d.headerLgth) := by
  have hn : isHeaderField { f with fieldOffset := d.fieldOffset } = false := by
    simp only [isHeaderField, hf]
    rfl
  simp only [layoutField, hn, Bool.false_eq_true, if_false]
  rw [if_pos hf]

theorem layoutField_crc (d : CompMsgData) (f : CompMsgField)
    (hf : f.fieldNameId = specFieldCrc) : (layoutField d f).1.fieldLgth = f.fieldLgth := by
  have hn : isHeaderField { f with fieldOffset := d.fieldOffset } = false := by
    simp only [isHeaderField, hf]
    rfl
  have hc : f.fieldNameId ≠ specFieldFiller := by
    rw [hf]
    decide
  simp only [layoutField, hn, Bool.false_eq_true, if_false]
  rw [if_neg hc]

/-- A filler and the CRC behind it, laid out from any point behind the header. -/
theorem filler_crc_iff (d : CompMsgData) (f c : CompMsgField) (hd : d.headerLgth ≤ d.fieldOffset)
    (hf : f.fieldNameId = specFieldFiller) (hc : c.fieldNameId = specFieldCrc) :
    16 ∣ (layoutField (layoutField d f).2 c).1.fieldOffset +
          (layoutField (layoutField d f).2 c).1.fieldLgth - d.headerLgth ↔
      c.fieldLgth % 16 = crcLgth d.flags := by
  have hpad := padLoop_mod (d.fieldOffset - d.headerLgth) (crcLgth d.flags)
  have hle := crcLgth_le d.flags
  rw [layoutField_crc _ c hc, (layoutField_offset _ c).1, (layoutField_offset d f).2,
    layoutField_filler d f hf]
  have hsub : d.fieldOffset + crcLgth d.flags - d.headerLgth =
      d.fieldOffset - d.headerLgth + crcLgth d.flags := by omega
  rw [hsub]
  generalize padLoop 16 (d.fieldOffset - d.headerLgth + crcLgth d.flags) = pad at hpad ⊢
  omega

/-- The header length does not change any more once a field behind the header is reached. -/
theorem headerLgth_of_body (d : CompMsgData) (pre : List CompMsgField) (f : CompMsgField)
    (post : List CompMsgField) (hd : InHeader d) (hfs : HeaderFirst (pre ++ f :: post))
    (hf : isHeaderField f = false) :
    (layoutFields d (pre ++ f :: post)).2.headerLgth = (layoutFields d pre).2.headerLgth := by
  obtain ⟨hpre, hrest, -⟩ := List.pairwise_append.mp hfs
  have hs := layoutFields_sound d pre hd hpre
  have hbody : ∀ g ∈ f :: post, isHeaderField g = false := by
    intro g hg
    obtain rfl | hg := List.mem_cons.mp hg
    · exact hf
    · exact HeaderFirst.rest f post hrest hf g hg
  rw [layoutFields_append]
  exact (layoutFields_body _ _ hs hbody).2

theorem endsInFiller_iff (d : CompMsgData) (h : Created d) :
    EndsInFiller (initMsg d).2.fields ↔ EndsInFiller d.fields := by
  have hids := congrArg List.getLast? (layoutFields_nameIds (startLayout d) d.fields)
  rw [← (initMsg_layout d h).1, List.getLast?_map, List.getLast?_map] at hids
  have key : ∀ o : Option CompMsgField, (∃ f, o = some f ∧ f.fieldNameId = specFieldFiller) ↔
      o.map CompMsgField.fieldNameId = some specFieldFiller := by
    intro o
    cases o <;> simp
  rw [EndsInFiller, EndsInFiller, key, key, hids]

/-- Where a field behind the header lies in a message that does not end in a filler. -/
theorem initMsg_field (d : CompMsgData) (h : Created d) (hfs : HeaderFirst d.fields)
    (pre : List CompMsgField) (f : CompMsgField) (post : List CompMsgField)
    (he : (initMsg d).2.fields = pre ++ f :: post) (hf : isHeaderField f = false)
    (hend : ¬EndsInFiller (initMsg d).2.fields) :
    (initMsg d).2.headerLgth ≤ f.fieldOffset ∧
      f.fieldOffset + f.fieldLgth + total CompMsgField.fieldLgth post = (initMsg d).2.totalLgth ∧
      (initMsg d).2.totalLgth = (initMsg d).2.headerLgth + (initMsg d).2.cmdLgth := by
  obtain ⟨hfields, htotal, hcmd, hheader, -⟩ := initMsg_layout d h
  have hin := startLayout_inHeader d h
  have hsound := layoutFields_sound _ d.fields hin hfs
  have hcons := (layoutFields_consecutive (startLayout d) d.fields).1
  rw [← hfields] at hcons
  have htiles := (initMsg_tiles d h).mpr
    (fun hc => hend ((endsInFiller_iff d h).mpr hc.2))
  rw [tiles_iff _ _ _ hcons, he] at htiles
  rw [he, consecutive_append] at hcons
  have hoff : f.fieldOffset = total CompMsgField.fieldLgth pre :=
    hcons.2.1.trans (Nat.zero_add _)
  refine ⟨?_, ?_, ?_⟩
  · obtain ⟨gs, hs, hgs, rfl, h2⟩ := layoutFields_split _ _ _ _ (hfields.symm.trans he)
    cases hs with
    | nil => simp [layoutFields] at h2
    | cons f0 hs =>
      simp only [layoutFields, List.cons.injEq] at h2
      obtain ⟨rfl, -⟩ := h2
      rw [hgs] at hfs
      obtain ⟨hpre, -, -⟩ := List.pairwise_append.mp hfs
      have hle := (layoutFields_sound _ gs hin hpre).headerLe
      have hn : isHeaderField f0 = false := by
        rw [isHeaderField, layoutField_nameId] at hf
        exact hf
      rw [hheader, hgs, headerLgth_of_body _ gs f0 hs hin hfs hn, (layoutField_offset _ f0).1]
      exact hle
  · rw [htiles, hoff, total_append, total_cons, Nat.add_assoc]
  · rw [htotal, hheader, hcmd]
    exact hsound.lgths

/-- The padding property of the filler in front of a CRC field, read off the fields as given. -/
theorem initMsg_filler (d : CompMsgData) (h : Created d) (hfs : HeaderFirst d.fields) :
    (∀ pre f c post, (initMsg d).2.fields = pre ++ f :: c :: post →
        f.fieldNameId = specFieldFiller → c.fieldNameId = specFieldCrc →
        f.fieldLgth < 16 ∧ 16 ∣ c.fieldOffset + c.fieldLgth - (initMsg d).2.headerLgth) ↔
      FillerFits d.flags d.fields := by
  obtain ⟨hfields, -, -, hheader, -⟩ := initMsg_layout d h
  have hin := startLayout_inHeader d h
  have hflags : ∀ pre, (layoutFields (startLayout d) pre).2.flags = d.flags :=
    fun pre => layoutFields_flags (startLayout d) pre
  rw [hfields, hheader]
  constructor
  · intro hall pre f c post he hf hc
    rw [he] at hfs hall
    obtain ⟨hpre, -, -⟩ := List.pairwise_append.mp hfs
    have hle := (layoutFields_sound _ pre hin hpre).headerLe
    have hn : isHeaderField f = false := by simp only [isHeaderField, hf]; rfl
    have hhl := headerLgth_of_body _ pre f (c :: post) hin hfs hn
    have h16 := hall (layoutFields (startLayout d) pre).1 _ _ _
      (by rw [layoutFields_append]; rfl) (by rwa [layoutField_nameId])
      (by rwa [layoutField_nameId])
    rw [hhl, filler_crc_iff _ f c hle hf hc, hflags] at h16
    exact h16.2
  · intro hfit pre f c post he hf hc
    obtain ⟨gs, hs, hgs, rfl, h2⟩ := layoutFields_split _ _ _ _ he
    obtain _ | ⟨f0, _ | ⟨c0, hs⟩⟩ := hs
    · simp [layoutFields] at h2
    · simp [layoutFields] at h2
    · simp only [layoutFields, List.cons.injEq] at h2
      obtain ⟨rfl, rfl, -⟩ := h2
      rw [layoutField_nameId] at hf hc
      rw [hgs] at hfs ⊢
      obtain ⟨hpre, -, -⟩ := List.pairwise_append.mp hfs
      have hle := (layoutFields_sound _ gs hin hpre).headerLe
      have hn : isHeaderField f0 = false := by simp only [isHeaderField, hf]; rfl
      refine ⟨?_, ?_⟩
      · rw [layoutField_filler _ f0 hf]
        exact padLoop_lt _
      · rw [headerLgth_of_body _ gs f0 (c0 :: hs) hin hfs hn,
          filler_crc_iff _ f0 c0 hle hf hc, hflags]
        exact hfit gs f0 c0 hs hgs hf hc

/-- `initMsg` lays a message out as it should exactly when its fillers count on the CRC width
that follows and no counted CRC is missing behind the last field. -/
theorem initMsg_wellLaidOut_iff (d : CompMsgData) (h : Created d) (hfs : HeaderFirst d.fields) :
    WellLaidOut (initMsg d).2 ↔
      FillerFits d.flags d.fields ∧
        ¬(hasFlag d.flags hasCrc ∧ DeclaredCrcPresent d.flags d.fields ∧
          EndsInFiller d.fields) := by
  obtain ⟨hfields, htotal, hcmd, hheader, -⟩ := initMsg_layout d h
  have hsound := layoutFields_sound (startLayout d) d.fields (startLayout_inHeader d h) hfs
  have hcons := (layoutFields_consecutive (startLayout d) d.fields).1
  constructor
  · intro hw
    refine ⟨(initMsg_filler d h hfs).mp hw.filler, ?_⟩
    rintro ⟨hc, hp, he⟩
    exact (initMsg_tiles d h).mp (hw.tiled ((declaredCrcPresent_iff d h).mpr hp)) ⟨hc, he⟩
  · rintro ⟨hfit, hend⟩
    refine ⟨?_, ?_, ?_, (initMsg_filler d h hfs).mpr hfit⟩
    · rw [hfields]
      exact pairwise_of_consecutive _ _ _ _ hcons
    · intro hp
      apply (initMsg_tiles d h).mpr
      rintro ⟨hc, he⟩
      exact hend ⟨hc, (declaredCrcPresent_iff d h).mp hp, he⟩
    · rw [htotal, hheader, hcmd]
      exact hsound.lgths

/-- A message with a filler in front of its CRC, the CRC being `width` bytes wide. -/
def paddedMsg (flags width : Nat) : CompMsgData where
  fields := [⟨specFieldDst, .uint16, 2, 0⟩, ⟨specFieldSrc, .uint16, 2, 0⟩,
    ⟨specFieldTotalLgth, .uint16, 2, 0⟩, ⟨specFieldCmdKey, .uint16, 2, 0⟩,
    ⟨specFieldFiller, .uint8Vector, 0, 0⟩, ⟨specFieldCrc, .uint16, width, 0⟩]
  flags := flags
  fieldOffset := 0
  totalLgth := 0
  cmdLgth := 0
  headerLgth := 0
  compMsgDataView := ⟨fun _ => 0, 0⟩
  currHdr := ⟨0, 0, 0, 0, 'U', 'G', 0, []⟩

theorem paddedMsg_wellLaidOut : WellLaidOut (initMsg (paddedMsg hasCrc 1)).2 := by
  refine (initMsg_wellLaidOut_iff (paddedMsg hasCrc 1) ⟨by decide, rfl, rfl⟩ (by decide)).mpr
    ⟨?_, ?_⟩
  · intro pre f c post he hf hc
    have hm : c ∈ (paddedMsg hasCrc 1).fields := by simp [he]
    have hall : ∀ g ∈ (paddedMsg hasCrc 1).fields,
        g.fieldNameId = specFieldCrc → g.fieldLgth % 16 = crcLgth hasCrc := by decide
    exact hall c hm hc
  · rintro ⟨-, -, f, hf, hid⟩
    have hlast : (paddedMsg hasCrc 1).fields.getLast? =
        some ⟨specFieldCrc, .uint16, 1, 0⟩ := rfl
    rw [hlast, Option.some.injEq] at hf
    subst hf
    exact absurd hid (by decide)

/-- A CRC of two bytes makes the padded part one byte too long. -/
theorem paddedMsg_not_wellLaidOut :
    ¬(∀ d, Created d → HeaderFirst d.fields → WellLaidOut (initMsg d).2) := by
  intro h
  have hw := h (paddedMsg hasCrc 2) ⟨by decide, rfl, rfl⟩ (by decide)
  have hf : (initMsg (paddedMsg hasCrc 2)).2.fields =
      [⟨specFieldDst, .uint16, 2, 0⟩, ⟨specFieldSrc, .uint16, 2, 2⟩,
        ⟨specFieldTotalLgth, .uint16, 2, 4⟩, ⟨specFieldCmdKey, .uint16, 2, 6⟩] ++
      ⟨specFieldFiller, .uint8Vector, 13, 8⟩ :: ⟨specFieldCrc, .uint16, 2, 21⟩ :: [] := by
    decide +kernel
  have hp := (hw.filler _ _ _ _ hf rfl rfl).2
  have hh : (initMsg (paddedMsg hasCrc 2)).2.headerLgth = 6 := by decide +kernel
  rw [hh] at hp
  exact absurd hp (by decide)

end NodeMcu.CompMsg.Tiling
