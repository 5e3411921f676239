import NodeMcu.CompMsg.FieldSequence

namespace NodeMcu.CompMsg.DescriptionLookup

open NodeMcu.Lib.Filling
open NodeMcu.CompMsg.Codes NodeMcu.CompMsg.MsgDesc NodeMcu.CompMsg.DescLines
open NodeMcu.CompMsg.FieldSequence

def fieldAt (m : MsgDescription) (i : Nat) : Option Nat :=
  m.sequence.bind fun s => s.fieldSequence[i]?

/-- The ids stand in the description at `idx`, behind the header and the mid part. -/
def Appended (idx : Nat) (own : List Nat) (d : CompMsgMsgDesc) : Prop :=
  ∃ m, d.msgDescriptions[idx]? = some m ∧ ∀ i, i < own.length →
    fieldAt m ((d.msgHeaderInfo.fieldIds ++ midPartIds d m.fieldFlags).length + i) = own[i]?

/-- The fields of the file go to the description with its command key and nowhere else. -/
structure AppendedTo (idx : Nat) (own : List Nat) (d d' : CompMsgMsgDesc) : Prop where
  others : ∀ j, j ≠ idx → d'.msgDescriptions[j]? = d.msgDescriptions[j]?
  inBounds : d'.inBounds = true
  appended : Appended idx own d'

/-- An error is returned, and nothing is written to any description. -/
structure Refused (r : Ret × CompMsgMsgDesc) (d : CompMsgMsgDesc) : Prop where
  error : ∃ e, r.1 = .error e
  unchanged : r.2.msgDescriptions = d.msgDescriptions
  inBounds : r.2.inBounds = true

/-- Whatever the locals of the calls hold that they do not set, the command key decides what the
file changes. -/
def LookupByKey (cmdKey : Nat) (file : DescFile) (d : CompMsgMsgDesc) : Prop :=
  ∀ unset : Nat → Unset,
    (∀ idx, findDescription cmdKey d.msgDescriptions = some idx →
      AppendedTo idx (ownIds unset cmdKey file d) d
        (handleMsgFileInternal unset ⟨.desc, cmdKey⟩ file d).2) ∧
    (findDescription cmdKey d.msgDescriptions = none →
      Refused (handleMsgFileInternal unset ⟨.desc, cmdKey⟩ file d) d)

/-- The file is refused before the search: for the number of lines it announces, or for the name,
the type or the number of fields of its first line. -/
def RefusedEarly (file : DescFile) (d : CompMsgMsgDesc) : Prop :=
  (file.lines = [] ∧ file.expectedLines < 0) ∨ ∃ line lines, file.lines = line :: lines ∧
    (file.expectedLines < 1 ∨
      ∃ e, (describeLine zeroLocals .desc line (firstLineState file d)).1 = .error e)

/-- The lines of the file need nothing of the search: it is not reached, or it finds the
description and has to be made once only. -/
def KeyFound (cmdKey : Nat) (file : DescFile) (d : CompMsgMsgDesc) : Prop :=
  (∃ idx m, findDescription cmdKey d.msgDescriptions = some idx ∧
      d.msgDescriptions[idx]? = some m ∧ OneField file m) ∨
    (findDescription cmdKey d.msgDescriptions = none ∧ RefusedEarly file d)

/-- A description that has its arrays keeps them. -/
def HasSequence (idx : Nat) (d : CompMsgMsgDesc) : Prop :=
  ∃ m, d.msgDescriptions[idx]? = some m ∧ m.sequence ≠ none

theorem storeDescription_hasSequence (d : CompMsgMsgDesc) (idx j : Nat) (m : MsgDescription)
    (w : Writer) (h : HasSequence j d) : HasSequence j (storeDescription d idx m w) := by
  obtain ⟨m', hm', hs⟩ := h
  have hlt : j < d.msgDescriptions.length := (List.getElem?_eq_some_iff.mp hm').1
  by_cases hj : idx = j
  · subst hj
    exact ⟨_, storeDescription_entry d idx m w hlt, Option.some_ne_none _⟩
  · exact ⟨m', (List.getElem?_set_ne hj).trans hm', hs⟩

theorem handleMsgCommonLine_hasSequence (unset : Unset) (cmdKey j : Nat) (line : Line)
    (d : CompMsgMsgDesc) (h : HasSequence j d) :
    HasSequence j (handleMsgCommonLine unset ⟨.desc, cmdKey⟩ line d).2 := by
  have hd : HasSequence j (describeLine unset .desc line d).2.2 := by
    rw [HasSequence, describeLine_msgDescriptions]
    exact h
  rw [handleMsgCommonLine]
  refine checkRetOK_keeps (HasSequence j) _ _ hd ?_
  intro d' hd'
  dsimp only
  rw [if_pos rfl, addToDescription]
  split
  · exact hd'
  · split
    · exact hd'
    · exact storeDescription_hasSequence _ _ _ _ _ hd'

theorem handleLines_hasSequence (unset : Nat → Unset) (cmdKey j numLines : Nat)
    (lines : List Line) (d : CompMsgMsgDesc) (h : HasSequence j d) :
    HasSequence j (handleLines unset ⟨.desc, cmdKey⟩ numLines lines d).2 := by
  induction lines generalizing numLines d with
  | nil => exact h
  | cons line lines ih =>
    rw [handleLines]
    split
    · exact h
    · exact checkRetOK_keeps (HasSequence j) _ _
        (handleMsgCommonLine_hasSequence _ _ _ _ _ h) (ih _)

theorem handleLines_selected_hasSequence (unset : Nat → Unset) (cmdKey idx numLines : Nat)
    (line : Line) (lines : List Line) (d : CompMsgMsgDesc) (m : MsgDescription)
    (hs : searchDescription cmdKey none 0 d.msgDescriptions = some idx)
    (hm : d.msgDescriptions[idx]? = some m) (hexp : ¬ d.expectedLines < numLines + 1)
    (hok : (describeLine (unset numLines) .desc line
      { d with currLineNo := d.currLineNo + 1 }).1 = .ok) :
    HasSequence idx (handleLines unset ⟨.desc, cmdKey⟩ numLines (line :: lines) d).2 := by
  have hlt : idx < d.msgDescriptions.length := (List.getElem?_eq_some_iff.mp hm).1
  rw [handleLines, if_neg hexp]
  refine checkRetOK_keeps (HasSequence idx) _ _ ?_
    (handleLines_hasSequence unset cmdKey idx (numLines + 1) lines)
  rw [handleMsgCommonLine_selected (unset numLines) cmdKey idx line
    { d with currLineNo := d.currLineNo + 1 } m hs hm hok]
  exact ⟨_, storeDescription_entry _ _ _ _ (by rwa [describeLine_msgDescriptions]),
    Option.some_ne_none _⟩

/-- Without any description the search ends in a null pointer. -/
theorem handleLines_noDescription (unset : Nat → Unset) (cmdKey numLines : Nat) (line : Line)
    (lines : List Line) (d : CompMsgMsgDesc) (hds : d.msgDescriptions = [])
    (hexp : ¬ d.expectedLines < numLines + 1)
    (hok : (describeLine (unset numLines) .desc line
      { d with currLineNo := d.currLineNo + 1 }).1 = .ok) :
    (handleLines unset ⟨.desc, cmdKey⟩ numLines (line :: lines) d).1 = .crash := by
  have hsame := describeLine_msgDescriptions (unset numLines) line
    { d with currLineNo := d.currLineNo + 1 }
  have hcrash : (handleMsgCommonLine (unset numLines) ⟨.desc, cmdKey⟩ line
      { d with currLineNo := d.currLineNo + 1 }).1 = .crash := by
    rw [handleMsgCommonLine, hok, checkRetOK_ok, if_pos rfl, addToDescription, hsame, hds]
    rfl
  rw [handleLines, if_neg hexp, checkRetOK_of_ne _ _ (by rw [hcrash]; decide), hcrash]

/-- A first line that gets as far as the search changes a description that the file is not for:
the last one. -/
theorem missing_not_refused (unset : Nat → Unset) (cmdKey : Nat) (line : Line)
    (lines : List Line) (d : CompMsgMsgDesc)
    (hmiss : findDescription cmdKey d.msgDescriptions = none)
    (hneg : (unset 0).fieldIdx < 0)
    (hok : (describeLine (unset 0) .desc line { d with currLineNo := d.currLineNo + 1 }).1 = .ok)
    (hexp : ¬ d.expectedLines < 1) :
    ¬ Refused (handleLines unset ⟨.desc, cmdKey⟩ 0 (line :: lines) d) d := by
  intro h
  have hexp : ¬ d.expectedLines < ((0 : Nat) : Int) + 1 := by omega
  cases hds : d.msgDescriptions with
  | nil =>
    obtain ⟨e, he⟩ := h.error
    rw [handleLines_noDescription unset cmdKey 0 line lines d hds hexp hok] at he
    cases he
  | cons m ms =>
    rw [hds] at hmiss
    have hs := searchDescription_missing cmdKey none 0 m ms hmiss
    rw [Nat.zero_add, ← hds] at hs
    obtain ⟨last, hlast⟩ : ∃ last, d.msgDescriptions[ms.length]? = some last := by
      rw [hds]
      exact ⟨_, List.getElem?_eq_getElem (Nat.lt_succ_self ms.length)⟩
    by_cases hseq : last.sequence = none
    · obtain ⟨m', hm', hs'⟩ :=
        handleLines_selected_hasSequence unset cmdKey _ 0 line lines d last hs hlast hexp hok
      rw [h.unchanged, hlast] at hm'
      cases hm'
      exact hs' hseq
    · have hout := handleLines_selected_outside unset cmdKey _ 0 line lines d last hs hlast hseq
        hneg hexp hok
      rw [h.inBounds] at hout
      cases hout

theorem refusedEarly_refused (unset : Nat → Unset) (cmdKey : Nat) (file : DescFile)
    (d : CompMsgMsgDesc) (hb : d.inBounds = true) (h : RefusedEarly file d) :
    Refused (handleMsgFileInternal unset ⟨.desc, cmdKey⟩ file d) d := by
  rw [handleMsgFileInternal]
  obtain ⟨hlines, hexp⟩ | ⟨line, lines, hlines, h⟩ := h
  · rw [hlines, handleLines]
    exact ⟨⟨.badNumDescFileLines, if_pos hexp⟩, rfl, hb⟩
  · rw [hlines, handleLines]
    by_cases hexp : file.expectedLines < 1
    · rw [if_pos (by dsimp only; omega)]
      exact ⟨⟨.badNumDescFileLines, rfl⟩, rfl, hb⟩
    · obtain ⟨e, he⟩ := h.resolve_left hexp
      rw [describeLine_ret zeroLocals (unset 0)] at he
      have hr := handleMsgCommonLine_rejected (unset 0) cmdKey line (firstLineState file d)
        (by rw [he]; simp)
      rw [firstLineState] at he hr
      rw [if_neg (by dsimp only; omega), hr, he, checkRetOK_error]
      exact ⟨⟨e, rfl⟩, describeLine_msgDescriptions _ _ _,
        (describeLine_inBounds _ _ _).trans hb⟩

/-- The file of one line for a new description adds its field to that description only. -/
theorem oneField_appended (unset : Nat → Unset) (cmdKey idx : Nat) (file : DescFile)
    (d : CompMsgMsgDesc) (m : MsgDescription)
    (hplace : findDescription cmdKey d.msgDescriptions = some idx)
    (hm : d.msgDescriptions[idx]? = some m) (hb : d.inBounds = true) (h : OneField file m)
    (hok : (handleMsgFileInternal unset ⟨.desc, cmdKey⟩ file d).1 = .ok) :
    AppendedTo idx (ownIds unset cmdKey file d) d
      (handleMsgFileInternal unset ⟨.desc, cmdKey⟩ file d).2 := by
  obtain hlines | ⟨hseq, line, hline⟩ := h
  · rw [ownIds, handleMsgFileInternal, hlines]
    exact ⟨fun _ _ => rfl, hb, m, hm, fun i hi => absurd hi (Nat.not_lt_zero i)⟩
  · obtain ⟨hcommon, hstate⟩ := handleMsgFileInternal_single unset _ line file d hline hok
    obtain ⟨hext, hafter⟩ := handleMsgCommonLine_ok (unset 0) cmdKey idx line
      (firstLineState file d) m hplace hm hcommon
    have hw := extendDescription_first (unset 0) _ m _ hseq hext
    have hsame := describeLine_msgDescriptions (unset 0) line (firstLineState file d)
    have hbounds := describeLine_inBounds (unset 0) line (firstLineState file d)
    rw [hstate, hafter, ownIds_single unset cmdKey line file d hline]
    generalize describeLine (unset 0) .desc line (firstLineState file d) = r at *
    rw [hw]
    have hlt : idx < r.2.2.msgDescriptions.length := by
      rw [hsame]
      exact findDescription_lt _ _ _ hplace
    refine ⟨fun j hj => ?_, hbounds.trans hb, _, storeDescription_entry _ _ _ _ hlt, ?_⟩
    · rw [storeDescription, List.getElem?_set_ne (Ne.symm hj), hsame]
      rfl
    · intro i hi
      obtain rfl : i = 0 := Nat.lt_one_iff.mp hi
      show (fill (sequenceLgth r.2.2) 0 (r.2.2.msgHeaderInfo.fieldIds ++
          midPartIds r.2.2 m.fieldFlags ++ [r.2.1] ++
            if r.2.2.expectedLines = r.2.2.currLineNo then trailerIds r.2.2 m.fieldFlags
            else []))[(r.2.2.msgHeaderInfo.fieldIds ++
          midPartIds r.2.2 m.fieldFlags).length + 0]? = some r.2.1
      rw [fill_getElem? _ _ _ _ (by simp only [List.length_append, List.length_singleton]; omega),
        List.append_assoc, List.getElem?_append_right (Nat.le_add_right _ _), Nat.add_zero,
        Nat.sub_self]
      rfl

theorem refusedEarly_of_refused (cmdKey : Nat) (file : DescFile) (d : CompMsgMsgDesc)
    (hmiss : findDescription cmdKey d.msgDescriptions = none)
    (h : Refused (handleMsgFileInternal beforeArray ⟨.desc, cmdKey⟩ file d) d) :
    RefusedEarly file d := by
  obtain ⟨e, he⟩ := h.error
  rw [handleMsgFileInternal] at h he
  cases hlines : file.lines with
  | nil =>
    rw [hlines, handleLines] at he
    refine .inl ⟨hlines, ?_⟩
    by_contra hexp
    rw [if_neg (by dsimp only; omega)] at he
    cases he
  | cons line lines =>
    rw [hlines] at h he
    refine .inr ⟨line, lines, hlines, ?_⟩
    by_cases hexp : file.expectedLines < 1
    · exact .inl hexp
    · rw [describeLine_ret zeroLocals (beforeArray 0)]
      cases hret : (describeLine (beforeArray 0) .desc line (firstLineState file d)).1 with
      | error e' => exact .inr ⟨e', rfl⟩
      | crash =>
        have hr := handleMsgCommonLine_rejected (beforeArray 0) cmdKey line
          (firstLineState file d) (by rw [hret]; decide)
        rw [hret, firstLineState] at hr
        rw [handleLines, if_neg (by dsimp only; omega), hr] at he
        cases he
      | ok =>
        exact absurd ⟨h.error, h.unchanged, h.inBounds⟩
          (missing_not_refused beforeArray cmdKey line lines
            { d with expectedLines := file.expectedLines, currLineNo := 0 } hmiss (by decide)
            hret hexp)

/-- The fields of an accepted file go where the command key says exactly if the key is known and
the file is the only one for its description and has one field, or the first line of a file with
an unknown key is refused before the search. -/
theorem lookupByKey_iff (cmdKey : Nat) (file : DescFile) (d : CompMsgMsgDesc)
    (hb : d.inBounds = true)
    (hok : findDescription cmdKey d.msgDescriptions ≠ none →
      ∀ unset, (handleMsgFileInternal unset ⟨.desc, cmdKey⟩ file d).1 = .ok) :
    LookupByKey cmdKey file d ↔ KeyFound cmdKey file d := by
  constructor
  · intro h
    cases hfind : findDescription cmdKey d.msgDescriptions with
    | none => exact .inr ⟨hfind, refusedEarly_of_refused cmdKey file d hfind
        ((h beforeArray).2 hfind)⟩
    | some idx =>
      have hm := List.getElem?_eq_getElem (findDescription_lt _ _ _ hfind)
      have hin := ((h beforeArray).1 idx hfind).inBounds
      exact .inl ⟨idx, _, hfind, hm, oneField_of_inBounds cmdKey idx file d _ hfind hm
        (hok (by rw [hfind]; simp) beforeArray) hin⟩
  · rintro (⟨idx, m, hfind, hm, hone⟩ | ⟨hfind, href⟩) unset
    · refine ⟨fun i hi => ?_, fun hnone => absurd (hfind.symm.trans hnone) (by simp)⟩
      obtain rfl : idx = i := Option.some.inj (hfind.symm.trans hi)
      exact oneField_appended unset cmdKey idx file d m hfind hm hb hone
        (hok (by rw [hfind]; simp) unset)
    · exact ⟨fun idx hidx => absurd (hfind.symm.trans hidx) (by simp),
        fun _ => refusedEarly_refused unset cmdKey file d hb href⟩

theorem oneLineFile_lookup :
    LookupByKey 0x5032 oneLineFile keyDesc ↔ KeyFound 0x5032 oneLineFile keyDesc :=
  lookupByKey_iff 0x5032 oneLineFile keyDesc rfl (fun _ _ => rfl)

/-- A file with a key that is not known: its field is added to the description of `P2`. -/
theorem unknownKey_not_lookup :
    findDescription 0x5051 keyDesc.msgDescriptions = none ∧
      (handleMsgFileInternal (fun _ => zeroLocals) ⟨.desc, 0x5051⟩ oneLineFile keyDesc).1 = .ok ∧
      ¬ LookupByKey 0x5051 oneLineFile keyDesc := by
  have hok : (handleMsgFileInternal (fun _ => zeroLocals) ⟨.desc, 0x5051⟩ oneLineFile
      keyDesc).1 = .ok := by decide +kernel
  refine ⟨by decide, hok, fun h => ?_⟩
  obtain ⟨e, he⟩ := ((h fun _ => zeroLocals).2 (by decide)).error
  rw [hok] at he
  cases he

end NodeMcu.CompMsg.DescriptionLookup
