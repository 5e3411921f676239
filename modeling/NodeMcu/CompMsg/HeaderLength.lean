import NodeMcu.CompMsg.Layout
import NodeMcu.CompMsg.MsgDesc

namespace NodeMcu.CompMsg.HeaderLength

open NodeMcu.Lib.Intervals
open NodeMcu.CompMsg.Codes NodeMcu.CompMsg.Fields NodeMcu.CompMsg.Layout NodeMcu.CompMsg.MsgDesc
open NodeMcu.CompMsg.TypesAndNames (initTypesAndNames)

/-- The header that a description file makes, as the fields of a message. -/
def headerFields (unset : Nat → Unset) (cmdKey : Nat) (file : DescFile) (d : CompMsgMsgDesc) :
    List CompMsgField :=
  describedFields unset ⟨.header, cmdKey⟩ 0 file.lines
    { d with expectedLines := file.expectedLines, currLineNo := 0 }

/-- The fields that `initMsg` does not count for the header have no length, as far as a 16 bit
sum shows it, and those it counts fit into such a sum. -/
def AllCounted (fs : List CompMsgField) : Prop :=
  65536 ∣ total CompMsgField.fieldLgth (fs.filter fun f => !isHeaderField f) ∧
    total CompMsgField.fieldLgth (fs.filter isHeaderField) < 65536

theorem total_filter (fs : List CompMsgField) :
    total CompMsgField.fieldLgth fs = total CompMsgField.fieldLgth (fs.filter isHeaderField) +
      total CompMsgField.fieldLgth (fs.filter fun f => !isHeaderField f) := by
  induction fs with
  | nil => rfl
  | cons f fs ih =>
    cases hf : isHeaderField f with
    | true =>
      simp only [List.filter_cons, hf, if_true, Bool.not_true, Bool.false_eq_true, if_false,
        total_cons]
      omega
    | false =>
      simp only [List.filter_cons, hf, if_true, Bool.not_false, Bool.false_eq_true, if_false,
        total_cons]
      omega

theorem layoutField_headerLgth (d : CompMsgData) (f : CompMsgField) :
    (layoutField d f).2.headerLgth =
      d.headerLgth + (if isHeaderField f then f.fieldLgth else 0) := by
  have hid : isHeaderField { f with fieldOffset := d.fieldOffset } = isHeaderField f := rfl
  rw [layoutField]
  dsimp only
  rw [hid]
  cases isHeaderField f with
  | true => rfl
  | false =>
    simp only [Bool.false_eq_true, if_false, Nat.add_zero]
    split <;> rfl

/-- The sender counts the fields with one of the six ids. -/
theorem layoutFields_headerLgth (d : CompMsgData) (fs : List CompMsgField) :
    (layoutFields d fs).2.headerLgth =
      d.headerLgth + total CompMsgField.fieldLgth (fs.filter isHeaderField) := by
  induction fs generalizing d with
  | nil => rfl
  | cons f fs ih =>
    rw [layoutFields, ih, layoutField_headerLgth, List.filter_cons]
    cases isHeaderField f with
    | true => simp only [if_true, total_cons, Nat.add_assoc]
    | false => simp only [Bool.false_eq_true, if_false, Nat.add_zero]

theorem initMsg_headerLgth (m : CompMsgData) (h : hasFlag m.flags isInitted = false) :
    (initMsg m).2.headerLgth = total CompMsgField.fieldLgth (m.fields.filter isHeaderField) := by
  have hl := layoutFields_headerLgth { m with fieldOffset := 0, headerLgth := 0 } m.fields
  rw [Nat.zero_add] at hl
  rw [initMsg, if_neg (by rw [h]; decide)]
  dsimp only
  split
  · exact hl
  · exact hl

theorem setMsgFieldDescInfo_header (d : CompMsgMsgDesc) (idx : Nat) (info : FieldDescInfo) :
    (setMsgFieldDescInfo d idx info).2.msgHeaderInfo = d.msgHeaderInfo := by
  rw [setMsgFieldDescInfo]
  split <;> rfl

/-- A header line that is accepted adds its length to the length of the header. -/
theorem describeLine_header (unset : Unset) (line : Line) (d : CompMsgMsgDesc)
    (h : (describeLine unset .header line d).1 = .ok) :
    (describeLine unset .header line d).2.2.msgHeaderInfo.lgth =
      (d.msgHeaderInfo.lgth + line.fieldLgth % 65536) % 65536 := by
  revert h
  rw [describeLine]
  dsimp only
  split
  · exact fun h => absurd h (by simp)
  · split
    · exact fun h => absurd h (by simp)
    · exact fun h => absurd h (by simp)
    · exact fun h => absurd h (by simp)
    · rw [describeField]
      dsimp only
      split
      · exact fun h => absurd h (by simp)
      · intro _
        rw [setMsgFieldDescInfo_header]
        rfl

theorem handleMsgCommonLine_header (unset : Unset) (cmdKey : Nat) (line : Line)
    (d : CompMsgMsgDesc) (h : (handleMsgCommonLine unset ⟨.header, cmdKey⟩ line d).1 = .ok) :
    (handleMsgCommonLine unset ⟨.header, cmdKey⟩ line d).2.msgHeaderInfo.lgth =
      (d.msgHeaderInfo.lgth + line.fieldLgth % 65536) % 65536 := by
  rw [handleMsgCommonLine] at h ⊢
  obtain ⟨hok, heq⟩ := checkRetOK_eq_ok _ _ h
  rw [heq]
  exact describeLine_header unset line d hok

/-- The parser counts every field of the header. -/
theorem handleLines_header (unset : Nat → Unset) (cmdKey numLines : Nat) (lines : List Line)
    (d : CompMsgMsgDesc) (hlt : d.msgHeaderInfo.lgth < 65536)
    (h : (handleLines unset ⟨.header, cmdKey⟩ numLines lines d).1 = .ok) :
    (handleLines unset ⟨.header, cmdKey⟩ numLines lines d).2.msgHeaderInfo.lgth =
      (d.msgHeaderInfo.lgth + total CompMsgField.fieldLgth
        (describedFields unset ⟨.header, cmdKey⟩ numLines lines d)) % 65536 := by
  induction lines generalizing numLines d with
  | nil => exact (Nat.mod_eq_of_lt hlt).symm
  | cons line lines ih =>
    rw [handleLines] at h ⊢
    split at h
    · cases h
    · rename_i hle
      obtain ⟨hok, heq⟩ := checkRetOK_eq_ok _ _ h
      rw [if_neg hle, heq]
      rw [heq] at h
      have hline := handleMsgCommonLine_header _ _ _ _ hok
      have hrest := ih _ _ (by rw [hline]; omega) h
      rw [hrest, hline, describedFields, total_cons]
      dsimp only
      omega

/-- The two header lengths agree for the header of a file that is accepted exactly if the fields
of other ids than the six that `initMsg` takes for header fields add nothing to it. -/
theorem headerLgth_agrees_iff (unset : Nat → Unset) (cmdKey : Nat) (file : DescFile)
    (d : CompMsgMsgDesc) (m : CompMsgData) (rest : List CompMsgField)
    (hd : d.msgHeaderInfo = ⟨0, []⟩)
    (hok : (handleMsgFileInternal unset ⟨.header, cmdKey⟩ file d).1 = .ok)
    (hfields : m.fields = headerFields unset cmdKey file d ++ rest)
    (hrest : ∀ f ∈ rest, isHeaderField f = false)
    (hm : hasFlag m.flags isInitted = false) :
    (initMsg m).2.headerLgth =
        (handleMsgFileInternal unset ⟨.header, cmdKey⟩ file d).2.msgHeaderInfo.lgth ↔
      AllCounted (headerFields unset cmdKey file d) := by
  have hnone : rest.filter isHeaderField = [] :=
    List.filter_eq_nil_iff.mpr fun f hf => by rw [hrest f hf]; decide
  have hsend := initMsg_headerLgth m hm
  rw [hfields, List.filter_append, hnone, List.append_nil] at hsend
  have hzero : d.msgHeaderInfo.lgth = 0 := by rw [hd]
  have hread := handleLines_header unset cmdKey 0 file.lines
    { d with expectedLines := file.expectedLines, currLineNo := 0 }
    (by dsimp only; omega) hok
  dsimp only at hread
  rw [hzero, Nat.zero_add] at hread
  have hall := total_filter (headerFields unset cmdKey file d)
  rw [hsend, handleMsgFileInternal, hread]
  rw [headerFields] at hall ⊢
  rw [hall]
  constructor
  · intro heq
    refine ⟨Nat.dvd_of_mod_eq_zero ?_, ?_⟩
    · omega
    · omega
  · rintro ⟨hdvd, hlt⟩
    have hmod := Nat.mod_eq_zero_of_dvd hdvd
    omega

/-- The state in front of the first description file. -/
def initMsgDesc : CompMsgMsgDesc :=
  { typesAndNames := initTypesAndNames
    fieldDescInfos := fun _ => none
    msgHeaderInfo := ⟨0, []⟩
    msgMidPartInfo := ⟨0, []⟩
    msgTrailerInfo := ⟨0, []⟩
    msgDescriptions := []
    expectedLines := 0
    currLineNo := 0
    inBounds := true }

/-- The header file that belongs to the firmware. -/
def headerFile : DescFile :=
  { expectedLines := 6
    lines := [⟨4, "@src", "uint8_t", 1, 1⟩, ⟨4, "@grp", "uint8_t", 1, 1⟩,
      ⟨4, "@dst", "uint8_t", 1, 1⟩, ⟨4, "@totalLgth", "uint16_t", 2, 2⟩,
      ⟨4, "@ipAddr", "uint32_t", 4, 0⟩, ⟨4, "@hdrFiller", "uint8_t*", 7, 0⟩] }

/-- A message of that header and a command key. -/
def headerMsg : CompMsgData :=
  { fields := headerFields (fun _ => zeroLocals) 0 headerFile initMsgDesc ++
      [⟨specFieldCmdKey, .uint16, 2, 0⟩]
    flags := 0
    fieldOffset := 0
    totalLgth := 0
    cmdLgth := 0
    headerLgth := 0
    compMsgDataView := ⟨fun _ => 0, 0⟩
    currHdr := ⟨0, 0, 0, 0, 'U', 'G', 0, []⟩ }

theorem headerMsg_header : (initMsg headerMsg).2.headerLgth =
      (handleMsgFileInternal (fun _ => zeroLocals) ⟨.header, 0⟩ headerFile
        initMsgDesc).2.msgHeaderInfo.lgth ↔
    AllCounted (headerFields (fun _ => zeroLocals) 0 headerFile initMsgDesc) :=
  headerLgth_agrees_iff (fun _ => zeroLocals) 0 headerFile initMsgDesc headerMsg
    [⟨specFieldCmdKey, .uint16, 2, 0⟩] rfl (by decide +kernel) rfl (by decide) (by decide)

/-- The parser counts `@grp` and `@ipAddr`, the sender does not. -/
theorem headerFile_not_agrees :
    (handleMsgFileInternal (fun _ => zeroLocals) ⟨.header, 0⟩ headerFile initMsgDesc).1 = .ok ∧
      (handleMsgFileInternal (fun _ => zeroLocals) ⟨.header, 0⟩ headerFile
        initMsgDesc).2.msgHeaderInfo.lgth = 16 ∧
      (initMsg headerMsg).2.headerLgth = 11 := by
  refine ⟨?_, ?_, ?_⟩
  · decide +kernel
  · decide +kernel
  · decide +kernel

end NodeMcu.CompMsg.HeaderLength
