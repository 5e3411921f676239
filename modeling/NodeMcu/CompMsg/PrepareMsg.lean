import NodeMcu.CompMsg.Crc
import NodeMcu.CompMsg.Tiling

namespace NodeMcu.CompMsg.PrepareMsg

open NodeMcu.Lib.Memory NodeMcu.Lib.ByteSum NodeMcu.Lib.Intervals
open NodeMcu.CompMsg.Codes NodeMcu.CompMsg.View NodeMcu.CompMsg.Fields NodeMcu.CompMsg.Headers
open NodeMcu.CompMsg.Layout NodeMcu.CompMsg.Tiling NodeMcu.CompMsg.Crc

/-- What `prepareMsg` reads and changes outside the message. -/
structure Counters where
  rand : Rand
  sequenceNum : Nat
  useSavedSequenceNum : Bool
  clientSequenceNum : Nat

/-- The range `setCrc` sums for the field `f`: start and end. -/
def crcRange (infos : MsgHeaderInfos) (d : CompMsgData) (f : CompMsgField) : Nat × Nat :=
  let headerLgth := if d.currHdr.hdrEncryption = 'E' then infos.headerLgth else 0
  let lgth := sizeSub (d.headerLgth + d.cmdLgth) f.fieldLgth
  let useHeader := hasFlag d.flags crcUseHeaderLgth
  -- The header length goes through a uint8_t here.
  let headerLgth := if useHeader then d.headerLgth % 256 else headerLgth
  let lgth := if useHeader then sizeSub lgth headerLgth else lgth
  let lgth :=
    if hasFlag d.flags hasTotalCrc then
      (if hasFlag d.flags uint8TotalCrc then sizeSub lgth 1 else sizeSub lgth 2)
    else lgth
  (headerLgth, lgth)

def withView (c : Counters) (r : Result × DataView) : Result × (DataView × Counters) :=
  (r.1, (r.2, c))

/-- One round of the loop of `prepareMsg`. -/
def prepareField (infos : MsgHeaderInfos) (d : CompMsgData) (s : DataView × Counters)
    (f : CompMsgField) : Result × (DataView × Counters) :=
  let (v, c) := s
  if f.fieldNameId = specFieldRandomNum then
    withView { c with rand := c.rand.next } (setRandomNum c.rand v f)
  else if f.fieldNameId = specFieldSequenceNum then
    if c.useSavedSequenceNum then
      withView { c with sequenceNum := c.clientSequenceNum, useSavedSequenceNum := false }
        (setUint32 v (toInt f.fieldOffset) c.clientSequenceNum)
    else
      withView { c with sequenceNum := c.sequenceNum + 1 }
        (setUint32 v (toInt f.fieldOffset) c.sequenceNum)
  else if f.fieldNameId = specFieldHdrFiller then
    withView c (setZeroFiller v f)
  else if f.fieldNameId = specFieldFiller then
    withView { c with rand := fun n => c.rand (fillerCalls f + n) } (setFiller c.rand v f)
  else if f.fieldNameId = specFieldCrc then
    withView c (setCrc v f (crcRange infos d f).1 (crcRange infos d f).2)
  else
    (.ok (), s)

def prepareFields (infos : MsgHeaderInfos) (d : CompMsgData) (s : DataView × Counters) :
    List CompMsgField → Result × (DataView × Counters)
  | [] => (.ok (), s)
  | f :: fs => checkErrOK (prepareField infos d s f) fun s => prepareFields infos d s fs

def prepareMsg (infos : MsgHeaderInfos) (c : Counters) (d : CompMsgData) :
    Result × (CompMsgData × Counters) :=
  if hasFlag d.flags isInitted = false then (.error .notYetInitted, (d, c))
  else
    let r := prepareFields infos d (d.compMsgDataView, c) d.fields
    match r.1 with
    | .error e => (.error e, ({ d with compMsgDataView := r.2.1 }, r.2.2))
    | .ok _ => (.ok (), ({ d with
        compMsgDataView := r.2.1
        flags := d.flags ||| isPrepared }, r.2.2))

theorem prepareFields_append (infos : MsgHeaderInfos) (d : CompMsgData) (s : DataView × Counters)
    (fs gs : List CompMsgField) :
    prepareFields infos d s (fs ++ gs) =
      checkErrOK (prepareFields infos d s fs) fun s => prepareFields infos d s gs := by
  induction fs generalizing s with
  | nil => rfl
  | cons f fs ih =>
    simp only [List.cons_append, prepareFields]
    rcases h : prepareField infos d s f with ⟨_ | _, s'⟩
    · rfl
    · simp only [checkErrOK, ih]

theorem prepareField_lgth (infos : MsgHeaderInfos) (d : CompMsgData) (s : DataView × Counters)
    (f : CompMsgField) : (prepareField infos d s f).2.1.lgth = s.1.lgth := by
  obtain ⟨v, c⟩ := s
  unfold prepareField
  dsimp only
  split
  · simp only [withView, setRandomNum, setUint32, put_lgth]
  split
  · split <;> simp only [withView, setUint32, put_lgth]
  split
  · simp only [withView, setZeroFiller, setZeros_lgth]
  split
  · simp only [withView, setFiller_lgth]
  split
  · simp only [withView, setCrc_eq, put_lgth]
  · rfl

theorem prepareFields_lgth (infos : MsgHeaderInfos) (d : CompMsgData) (s : DataView × Counters)
    (fs : List CompMsgField) : (prepareFields infos d s fs).2.1.lgth = s.1.lgth := by
  induction fs generalizing s with
  | nil => rfl
  | cons f fs ih =>
    have h1 := prepareField_lgth infos d s f
    rw [prepareFields]
    rcases h : prepareField infos d s f with ⟨_ | _, s'⟩
    · rw [h] at h1
      exact h1
    · rw [h] at h1
      exact (ih s').trans h1

/-- The end of a message with a CRC: the CRC field and perhaps a total CRC, on which sender,
receiver and flags agree. -/
structure CrcTail (flags : Nat) (hdr : HeaderPart) (crc : CompMsgField)
    (rest : List CompMsgField) : Prop where
  crcId : crc.fieldNameId = specFieldCrc
  crcLgth : crc.fieldLgth = 1 ∨ crc.fieldLgth = 2
  totalCrc : rest = [] ∧ hasFlag flags hasTotalCrc = false ∧
      hasFlag hdr.hdrFlags dispTotalCrc = false ∨
    ∃ t, rest = [t] ∧ t.fieldNameId = specFieldTotalCrc ∧ hasFlag flags hasTotalCrc = true ∧
      hasFlag hdr.hdrFlags dispTotalCrc = true ∧
      (t.fieldLgth = 1 ∧ hasFlag flags uint8TotalCrc = true ∧ hdr.u8TotalCrc = true ∨
        t.fieldLgth = 2 ∧ hasFlag flags uint8TotalCrc = false ∧ hdr.u8TotalCrc = false)

/-- For the bytes `m` of a message with header length `h` on the receiver's side: what one end
sums and the other does not has to be zero modulo the CRC. -/
def CrcAgrees (infos : MsgHeaderInfos) (d : CompMsgData) (m : Mem) (crc : CompMsgField) : Prop :=
  let h := infos.headerLgth
  let e := crc.fieldOffset
  if hasFlag d.flags crcUseHeaderLgth then
    let a := d.headerLgth % 256
    byteSum m a (min h (e - a)) ≡ byteSum m h a + byteSum m (max (max h a) (e - a)) e
      [MOD 256 ^ crcWidth crc]
  else d.currHdr.hdrEncryption = 'E' ∨ byteSum m 0 (min h e) ≡ 0 [MOD 256 ^ crcWidth crc]

/-- A message as `initMsg` leaves it, its fields filled with the values `m`. -/
def filledMsg (d : CompMsgData) (m : Mem) : CompMsgData :=
  { (initMsg d).2 with compMsgDataView := ⟨m, (initMsg d).2.totalLgth⟩ }

/-- The message bytes when the loop of `prepareMsg` has done the fields `pre`. -/
def preparedBytes (infos : MsgHeaderInfos) (c : Counters) (d : CompMsgData)
    (pre : List CompMsgField) : Mem :=
  (prepareFields infos d (d.compMsgDataView, c) pre).2.1.data

theorem CrcTail.notFiller (flags : Nat) (hdr : HeaderPart) (pre : List CompMsgField)
    (crc : CompMsgField) (rest : List CompMsgField) (h : CrcTail flags hdr crc rest) :
    ¬EndsInFiller (pre ++ crc :: rest) := by
  rintro ⟨f, hf, hid⟩
  obtain ⟨rfl, -, -⟩ | ⟨t, rfl, ht, -⟩ := h.totalCrc
  · have hlast : (pre ++ [crc]).getLast? = some crc := by simp
    rw [hlast, Option.some.injEq] at hf
    rw [← hf, h.crcId] at hid
    exact absurd hid (by decide)
  · have hlast : (pre ++ [crc, t]).getLast? = some t := by simp
    rw [hlast, Option.some.injEq] at hf
    rw [← hf, ht] at hid
    exact absurd hid (by decide)

theorem CrcTail.width (flags : Nat) (hdr : HeaderPart) (crc : CompMsgField)
    (rest : List CompMsgField) (h : CrcTail flags hdr crc rest) :
    crcWidth crc = crc.fieldLgth := by
  rw [crcWidth]
  rcases h.crcLgth with hw | hw <;> simp [hw]

/-- The receiver looks for the CRC where the sender has put it. -/
theorem headerCrcField_offset (flags : Nat) (hdr : HeaderPart) (crc : CompMsgField)
    (rest : List CompMsgField) (h : CrcTail flags hdr crc rest) (totalLgth : Nat)
    (ht : crc.fieldOffset + crc.fieldLgth + total CompMsgField.fieldLgth rest = totalLgth)
    (hsmall : totalLgth < 65536) :
    (headerCrcField hdr hdr.u8TotalCrc totalLgth crc.fieldLgth).fieldOffset = crc.fieldOffset := by
  have hs := sizeSub_of_le totalLgth crc.fieldLgth (by omega) (by omega)
  simp only [headerCrcField, hs]
  obtain ⟨rfl, -, hf⟩ | ⟨t, rfl, -, -, hf, ⟨hl, -, hu⟩ | ⟨hl, -, hu⟩⟩ := h.totalCrc
  · simp only [hf, Bool.false_eq_true, if_false]
    simp only [total_nil] at ht
    omega
  · simp only [total_cons, total_nil, hl] at ht
    simp only [hf, hu, if_true]
    rw [sizeSub_of_le _ _ (by omega) (by omega)]
    omega
  · simp only [total_cons, total_nil, hl] at ht
    simp only [hf, hu, if_true, Bool.false_eq_true, if_false]
    rw [sizeSub_of_le _ _ (by omega) (by omega)]
    omega

theorem crcRange_eq (infos : MsgHeaderInfos) (d : CompMsgData) (hdr : HeaderPart)
    (crc : CompMsgField) (rest : List CompMsgField) (h : CrcTail d.flags hdr crc rest)
    (hle : d.headerLgth ≤ crc.fieldOffset)
    (ht : crc.fieldOffset + crc.fieldLgth + total CompMsgField.fieldLgth rest = d.totalLgth)
    (hl : d.totalLgth = d.headerLgth + d.cmdLgth) (hsmall : d.totalLgth < 65536) :
    crcRange infos d crc =
      if hasFlag d.flags crcUseHeaderLgth then
        (d.headerLgth % 256, crc.fieldOffset - d.headerLgth % 256)
      else (if d.currHdr.hdrEncryption = 'E' then infos.headerLgth else 0, crc.fieldOffset) := by
  have hs := sizeSub_of_le (d.headerLgth + d.cmdLgth) crc.fieldLgth (by omega) (by omega)
  have hm := Nat.mod_le d.headerLgth 256
  simp only [crcRange, hs]
  obtain ⟨rfl, hf, -⟩ | ⟨t, rfl, -, hf, -, ⟨hw, hu, -⟩ | ⟨hw, hu, -⟩⟩ := h.totalCrc
  · simp only [total_nil] at ht
    simp only [hf, Bool.false_eq_true, if_false]
    split
    · rw [sizeSub_of_le _ _ (by omega) (by omega)]
      congr 1
      omega
    · congr 1
      omega
  · simp only [total_cons, total_nil, hw] at ht
    simp only [hf, hu, if_true]
    split
    · rw [sizeSub_of_le (_ - _) (_ % _) (by omega) (by omega),
        sizeSub_of_le _ _ (by omega) (by omega)]
      congr 1
      omega
    · rw [sizeSub_of_le _ _ (by omega) (by omega)]
      congr 1
      omega
  · simp only [total_cons, total_nil, hw] at ht
    simp only [hf, hu, if_true, Bool.false_eq_true, if_false]
    split
    · rw [sizeSub_of_le (_ - _) (_ % _) (by omega) (by omega),
        sizeSub_of_le _ _ (by omega) (by omega)]
      congr 1
      omega
    · rw [sizeSub_of_le _ _ (by omega) (by omega)]
      congr 1
      omega

theorem prepareMsg_ok (infos : MsgHeaderInfos) (c c' : Counters) (d d' : CompMsgData)
    (h : prepareMsg infos c d = (.ok (), (d', c'))) :
    prepareFields infos d (d.compMsgDataView, c) d.fields = (.ok (), (d'.compMsgDataView, c')) ∧
      d'.totalLgth = d.totalLgth := by
  unfold prepareMsg at h
  split at h
  · simp at h
  · rcases hr : prepareFields infos d (d.compMsgDataView, c) d.fields with ⟨_ | u, s⟩
    · rw [hr] at h
      simp at h
    · rw [hr] at h
      simp only [Prod.mk.injEq, true_and] at h
      obtain ⟨rfl, rfl⟩ := h
      exact ⟨rfl, rfl⟩

/-- Behind the CRC field the loop of `prepareMsg` does nothing more. -/
theorem prepareFields_crc (infos : MsgHeaderInfos) (d : CompMsgData) (s t : DataView × Counters)
    (hdr : HeaderPart) (crc : CompMsgField) (rest : List CompMsgField)
    (h : CrcTail d.flags hdr crc rest)
    (hok : prepareFields infos d s (crc :: rest) = (.ok (), t)) :
    t.1 = (setCrc s.1 crc (crcRange infos d crc).1 (crcRange infos d crc).2).2 := by
  have hcrc : prepareField infos d s crc = withView s.2
      (setCrc s.1 crc (crcRange infos d crc).1 (crcRange infos d crc).2) := by
    simp only [prepareField, h.crcId]
    rfl
  have hrest : ∀ s', prepareFields infos d s' rest = (.ok (), s') := by
    intro s'
    obtain ⟨rfl, -⟩ | ⟨u, rfl, hu, -⟩ := h.totalCrc
    · rfl
    · simp only [prepareFields, prepareField, hu]
      rfl
  rw [prepareFields, hcrc, setCrc_eq, withView, checkErrOK_ok, hrest, Prod.mk.injEq] at hok
  rw [← hok.2, setCrc_eq]

/-- The receiver accepts the CRC of a prepared message exactly when the bytes that only one of
the two sums covers make no difference. -/
theorem headerCrc_ok_iff (infos : MsgHeaderInfos) (c c' : Counters) (d d' : CompMsgData) (m : Mem)
    (hdr : HeaderPart) (pre : List CompMsgField) (crc : CompMsgField) (rest : List CompMsgField)
    (r : DataView) (hnew : Created d) (hfirst : HeaderFirst d.fields)
    (hfields : (filledMsg d m).fields = pre ++ crc :: rest)
    (htail : CrcTail (filledMsg d m).flags hdr crc rest)
    (hsmall : (filledMsg d m).totalLgth < 65536)
    (hprep : prepareMsg infos c (filledMsg d m) = (.ok (), (d', c')))
    (hlgth : r.lgth = d'.totalLgth)
    (hsame : ∀ i : Nat, i < crc.fieldOffset + crc.fieldLgth →
      r.data i = d'.compMsgDataView.data i) :
    headerCrc infos hdr hdr.u8TotalCrc d'.totalLgth crc.fieldLgth r = .ok () ↔
      CrcAgrees infos (filledMsg d m) (preparedBytes infos c (filledMsg d m) pre) crc := by
  have hw := htail.width
  have hbody : isHeaderField crc = false := by
    simp only [isHeaderField, htail.crcId]
    rfl
  have hend : ¬EndsInFiller (initMsg d).2.fields := by
    have hn := htail.notFiller (filledMsg d m).flags hdr pre crc rest
    rwa [← hfields] at hn
  obtain ⟨hle, htot, hlen⟩ := initMsg_field d hnew hfirst pre crc rest hfields hbody hend
  obtain ⟨hloop, htl⟩ := prepareMsg_ok infos c c' _ d' hprep
  have hoff := headerCrcField_offset _ hdr crc rest htail _ htot hsmall
  have hrange := crcRange_eq infos (filledMsg d m) hdr crc rest htail hle htot hlen hsmall
  rw [hfields, prepareFields_append] at hloop
  obtain ⟨-, hcrc⟩ := checkErrOK_eq_ok _ _ _ hloop
  have hview : d'.compMsgDataView = _ :=
    prepareFields_crc infos _ _ (d'.compMsgDataView, c') hdr crc rest htail hcrc
  have hvl : (prepareFields infos (filledMsg d m) ((filledMsg d m).compMsgDataView, c)
      pre).2.1.lgth = (initMsg d).2.totalLgth :=
    prepareFields_lgth infos (filledMsg d m) ((filledMsg d m).compMsgDataView, c) pre
  have hti : (filledMsg d m).totalLgth = (initMsg d).2.totalLgth := rfl
  rw [hti] at htl hsmall
  unfold preparedBytes
  generalize (prepareFields infos (filledMsg d m) ((filledMsg d m).compMsgDataView, c) pre).2.1 =
    v at hview hvl ⊢
  rw [hview] at hsame
  rw [headerCrc, htl, hoff, getCrc_setCrc v r crc _ _ _ _ _ (by omega) (by omega) hoff
    (by rw [crcWidth, crcWidth]; rfl) (by omega) le_rfl (fun i hi => hsame i (by omega)), hrange,
    CrcAgrees]
  have hm := Nat.mod_le (initMsg d).2.headerLgth 256
  dsimp only
  split
  case isTrue hu =>
    exact byteSum_modEq_iff v.data _ infos.headerLgth ((initMsg d).2.headerLgth % 256) _ _
      (by omega) (Nat.sub_le _ _)
  case isFalse hu =>
    by_cases hE : (filledMsg d m).currHdr.hdrEncryption = 'E'
    · simp only [hE, if_true, true_or, iff_true]
      exact Nat.ModEq.refl _
    · have hdiff := byteSum_modEq_iff v.data (256 ^ crcWidth crc) infos.headerLgth 0
        crc.fieldOffset crc.fieldOffset (Nat.zero_le _) le_rfl
      rw [byteSum_of_le _ infos.headerLgth 0 (Nat.zero_le _),
        byteSum_of_le _ (max _ _) _ (Nat.le_max_right _ _)] at hdiff
      simpa only [hE, if_false, false_or] using hdiff

def shortHdr (encryption : Char) : HeaderPart :=
  ⟨0, 1, 9, 0, encryption, 'G', 0, [.u16Dst, .u16Src, .u16TotalLgth, .u16CmdKey, .u8Crc]⟩

def shortInfos (encryption : Char) : MsgHeaderInfos :=
  ⟨[.u16Dst, .u16Src, .u16TotalLgth], 6, [shortHdr encryption]⟩

/-- Nine bytes: destination, source, length, command key and a CRC of one byte. -/
def shortMsg (encryption : Char) : CompMsgData where
  fields := [⟨specFieldDst, .uint16, 2, 0⟩, ⟨specFieldSrc, .uint16, 2, 0⟩,
    ⟨specFieldTotalLgth, .uint16, 2, 0⟩, ⟨specFieldCmdKey, .uint16, 2, 0⟩,
    ⟨specFieldCrc, .uint8, 1, 0⟩]
  flags := hasCrc
  fieldOffset := 0
  totalLgth := 0
  cmdLgth := 0
  headerLgth := 0
  compMsgDataView := ⟨fun _ => 0, 0⟩
  currHdr := shortHdr encryption

/-- The message goes to destination 1. -/
def shortBytes : Mem := fun i => if i = 1 then 1 else 0

def shortCounters : Counters := ⟨fun _ => 0, 0, false, 0⟩

def shortPrepared (encryption : Char) : CompMsgData :=
  (prepareMsg (shortInfos encryption) shortCounters
    (filledMsg (shortMsg encryption) shortBytes)).2.1

theorem shortMsg_accepted :
    headerCrc (shortInfos 'E') (shortHdr 'E') (shortHdr 'E').u8TotalCrc
      (shortPrepared 'E').totalLgth 1 (shortPrepared 'E').compMsgDataView = .ok () := by
  have h := headerCrc_ok_iff (shortInfos 'E') shortCounters _ (shortMsg 'E') (shortPrepared 'E')
    shortBytes (shortHdr 'E') ((filledMsg (shortMsg 'E') shortBytes).fields.take 4)
    ⟨specFieldCrc, .uint8, 1, 8⟩ [] (shortPrepared 'E').compMsgDataView
    ⟨by decide, rfl, rfl⟩ (by decide) (by decide +kernel)
    ⟨rfl, Or.inl rfl, Or.inl ⟨rfl, by decide +kernel, by decide⟩⟩ (by decide +kernel)
    (Prod.ext (by rfl) (Prod.ext rfl rfl)) (by decide +kernel) (fun i _ => rfl)
  exact h.mpr (Or.inl rfl)

/-- The same message without encryption: the sender counts the destination, the receiver does
not. -/
theorem shortMsg_rejected :
    ¬∀ (infos : MsgHeaderInfos) (c c' : Counters) (d d' : CompMsgData) (m : Mem)
      (hdr : HeaderPart) (pre : List CompMsgField) (crc : CompMsgField)
      (rest : List CompMsgField) (r : DataView), Created d → HeaderFirst d.fields →
      (filledMsg d m).fields = pre ++ crc :: rest → CrcTail (filledMsg d m).flags hdr crc rest →
      (filledMsg d m).totalLgth < 65536 →
      prepareMsg infos c (filledMsg d m) = (.ok (), (d', c')) → r.lgth = d'.totalLgth →
      (∀ i : Nat, i < crc.fieldOffset + crc.fieldLgth →
        r.data i = d'.compMsgDataView.data i) →
      headerCrc infos hdr hdr.u8TotalCrc d'.totalLgth crc.fieldLgth r = .ok () := by
  intro h
  have hok := h (shortInfos 'U') shortCounters _ (shortMsg 'U') (shortPrepared 'U')
    shortBytes (shortHdr 'U') ((filledMsg (shortMsg 'U') shortBytes).fields.take 4)
    ⟨specFieldCrc, .uint8, 1, 8⟩ [] (shortPrepared 'U').compMsgDataView
    ⟨by decide, rfl, rfl⟩ (by decide) (by decide +kernel)
    ⟨rfl, Or.inl rfl, Or.inl ⟨rfl, by decide +kernel, by decide⟩⟩ (by decide +kernel)
    (Prod.ext (by rfl) (Prod.ext rfl rfl)) (by decide +kernel) (fun i _ => rfl)
  have hbad : (headerCrc (shortInfos 'U') (shortHdr 'U') (shortHdr 'U').u8TotalCrc
      (shortPrepared 'U').totalLgth 1 (shortPrepared 'U').compMsgDataView).toBool = false := by
    decide +kernel
  rw [hok] at hbad
  exact Bool.noConfusion hbad

end NodeMcu.CompMsg.PrepareMsg
