import NodeMcu.CompMsg.MsgDesc

namespace NodeMcu.CompMsg.DescLines

open NodeMcu.CompMsg.Codes NodeMcu.CompMsg.MsgDesc NodeMcu.CompMsg.TypesAndNames

/-- The place of the first description with the command key. -/
def findDescription (cmdKey : Nat) (ms : List MsgDescription) : Option Nat :=
  ms.findIdx? fun m => m.cmdKey == cmdKey

theorem searchDescription_found (cmdKey : Nat) (selected : Option Nat) (n idx : Nat)
    (ms : List MsgDescription) (h : findDescription cmdKey ms = some idx) :
    searchDescription cmdKey selected n ms = some (n + idx) := by
  induction ms generalizing selected n idx with
  | nil => simp [findDescription] at h
  | cons m ms ih =>
    rw [findDescription, List.findIdx?_cons] at h
    rw [searchDescription]
    by_cases hm : m.cmdKey = cmdKey
    · rw [if_pos hm.symm]
      rw [if_pos (beq_iff_eq.mpr hm)] at h
      cases h
      rfl
    · rw [if_neg (Ne.symm hm)]
      rw [if_neg (by simpa using hm)] at h
      obtain ⟨i, hi, rfl⟩ := Option.map_eq_some_iff.mp h
      rw [ih _ _ i hi]
      congr 1
      omega

/-- Nothing matches, and the last description is left selected. -/
theorem searchDescription_missing (cmdKey : Nat) (selected : Option Nat) (n : Nat)
    (m : MsgDescription) (ms : List MsgDescription)
    (h : findDescription cmdKey (m :: ms) = none) :
    searchDescription cmdKey selected n (m :: ms) = some (n + ms.length) := by
  induction ms generalizing selected n m with
  | nil =>
    rw [findDescription, List.findIdx?_eq_none_iff] at h
    have hm := h m (List.mem_singleton_self m)
    rw [searchDescription, if_neg (by rintro rfl; simp at hm), searchDescription]
    rfl
  | cons m' ms ih =>
    rw [findDescription, List.findIdx?_eq_none_iff] at h
    have hm := h m List.mem_cons_self
    rw [searchDescription, if_neg (by rintro rfl; simp at hm), ih _ _ m']
    · rw [List.length_cons]
      congr 1
      omega
    · rw [findDescription, List.findIdx?_eq_none_iff]
      exact fun x hx => h x (List.mem_cons_of_mem m hx)

theorem findDescription_lt (cmdKey idx : Nat) (ms : List MsgDescription)
    (h : findDescription cmdKey ms = some idx) : idx < ms.length :=
  (List.findIdx?_eq_some_iff_findIdx_eq.mp h).1

theorem findDescription_map (cmdKey : Nat) (ms : List MsgDescription) :
    findDescription cmdKey ms =
      (ms.map MsgDescription.cmdKey).findIdx? fun k => k == cmdKey := by
  rw [findDescription, List.findIdx?_map]
  rfl

/-- The search reads no more of the descriptions than their command keys. -/
theorem findDescription_set (cmdKey idx : Nat) (ms : List MsgDescription) (m m' : MsgDescription)
    (hm : ms[idx]? = some m) (h : m'.cmdKey = m.cmdKey) :
    findDescription cmdKey (ms.set idx m') = findDescription cmdKey ms := by
  obtain ⟨hlt, hget⟩ := List.getElem?_eq_some_iff.mp hm
  rw [findDescription_map, findDescription_map, List.map_set, h, ← hget, ← List.map_set,
    List.set_getElem_self]

/-- A line changes nothing but the names and the field descriptions before it comes to the
descriptions of the messages. -/
theorem describeLine_frame (unset : Unset) (line : Line) (d : CompMsgMsgDesc) :
    ∃ typesAndNames fieldDescInfos, (describeLine unset .desc line d).2.2 =
      { d with typesAndNames := typesAndNames, fieldDescInfos := fieldDescInfos } := by
  rw [describeLine]
  split
  · exact ⟨d.typesAndNames, d.fieldDescInfos, rfl⟩
  · dsimp only
    split
    · exact ⟨_, _, rfl⟩
    · exact ⟨_, _, rfl⟩
    · exact ⟨_, _, rfl⟩
    · rw [describeField]
      dsimp only
      rw [setMsgFieldDescInfo]
      split
      · exact ⟨_, _, rfl⟩
      · exact ⟨_, _, rfl⟩

theorem describeLine_msgDescriptions (unset : Unset) (line : Line) (d : CompMsgMsgDesc) :
    (describeLine unset .desc line d).2.2.msgDescriptions = d.msgDescriptions := by
  obtain ⟨typesAndNames, fieldDescInfos, h⟩ := describeLine_frame unset line d
  rw [h]

theorem describeLine_inBounds (unset : Unset) (line : Line) (d : CompMsgMsgDesc) :
    (describeLine unset .desc line d).2.2.inBounds = d.inBounds := by
  obtain ⟨typesAndNames, fieldDescInfos, h⟩ := describeLine_frame unset line d
  rw [h]

/-- A name that is added gets an id. -/
theorem getFieldNameIdFromStr_isSome (heap : Heap) (s : CompMsgTypesAndNames) (fieldName : String)
    (h : (getFieldNameIdFromStr heap s fieldName incr).1 = .ok) :
    ∃ fieldNameId, (getFieldNameIdFromStr heap s fieldName incr).2.1 = some fieldNameId := by
  have hincr : incr % 256 = 1 := by decide
  revert h
  rw [getFieldNameIdFromStr]
  dsimp only
  split
  · split
    · exact fun _ => ⟨_, rfl⟩
    · exact fun h => absurd h (by simp)
  · split
    · exact fun h => absurd h (by simp)
    · rw [findName, hincr]
      dsimp only
      split
      · exact fun h => absurd h (by simp)
      · split
        · exact fun _ => ⟨_, rfl⟩
        · rw [if_neg (by decide), if_neg (by decide)]
          split
          · exact fun _ => ⟨_, rfl⟩
          · rw [addEntry]
            dsimp only
            split
            · exact fun h => absurd h (by simp)
            · exact fun h => absurd h (by simp)
            · exact fun _ => ⟨_, rfl⟩

/-- A line that gets as far as the descriptions has an id and a description of its field. The
locals that are not set show in the offset only. -/
theorem describeLine_ok (unset : Unset) (line : Line) (d : CompMsgMsgDesc)
    (h : (describeLine unset .desc line d).1 = .ok) :
    ∃ (fieldNameId : Nat) (typesAndNames : CompMsgTypesAndNames)
      (fieldDescInfos : Nat → Option FieldDescInfo) (info : FieldDescInfo), ∀ unset' : Unset,
      describeLine unset' .desc line d = (.ok, fieldNameId, { d with
        typesAndNames := typesAndNames
        fieldDescInfos := Function.update fieldDescInfos fieldNameId
          (some { info with fieldOffset := unset'.fieldOffset }) }) := by
  revert h
  simp only [describeLine, addFieldName]
  by_cases hn : line.numLineFields < 3
  · rw [if_pos hn]
    exact fun h => absurd h (by simp)
  · simp only [if_neg hn]
    cases hret : (getFieldNameIdFromStr allocated d.typesAndNames line.fieldName incr).1 with
    | error e => exact fun h => absurd h (by simp)
    | crash => exact fun h => absurd h (by simp)
    | ok =>
      obtain ⟨fieldNameId, hid⟩ := getFieldNameIdFromStr_isSome _ _ _ hret
      simp only [hid, Option.getD_some]
      cases htype : getFieldTypeIdFromStr line.fieldType with
      | none => exact fun h => absurd h (by simp)
      | some fieldTypeId =>
        simp only [describeField, setMsgFieldDescInfo]
        split
        · exact fun h => absurd h (by simp)
        · intro h
          exact ⟨fieldNameId, _, _, ⟨_, fieldTypeId, line.fieldLgth % 65536, 0⟩,
            fun unset' => Prod.ext h (Prod.ext rfl rfl)⟩

/-- The locals that are not set do not show in the result of a line. -/
theorem describeLine_ret (unset unset' : Unset) (line : Line) (d : CompMsgMsgDesc) :
    (describeLine unset .desc line d).1 = (describeLine unset' .desc line d).1 := by
  simp only [describeLine, addFieldName]
  by_cases hn : line.numLineFields < 3
  · rw [if_pos hn, if_pos hn]
  · rw [if_neg hn, if_neg hn]
    cases hret : (getFieldNameIdFromStr allocated d.typesAndNames line.fieldName incr).1 with
    | error e => rfl
    | crash => rfl
    | ok =>
      obtain ⟨fieldNameId, hid⟩ := getFieldNameIdFromStr_isSome _ _ _ hret
      simp only [hid, Option.getD_some]
      cases getFieldTypeIdFromStr line.fieldType with
      | none => rfl
      | some fieldTypeId =>
        simp only [describeField, setMsgFieldDescInfo]
        split <;> rfl

/-- What such a line does to the description that the search leaves selected. -/
theorem handleMsgCommonLine_selected (unset : Unset) (cmdKey idx : Nat) (line : Line)
    (d : CompMsgMsgDesc) (m : MsgDescription)
    (hs : searchDescription cmdKey none 0 d.msgDescriptions = some idx)
    (hm : d.msgDescriptions[idx]? = some m)
    (hok : (describeLine unset .desc line d).1 = .ok) :
    let r := describeLine unset .desc line d
    let e := extendDescription unset r.2.2 m r.2.1
    handleMsgCommonLine unset ⟨.desc, cmdKey⟩ line d =
      (e.1, storeDescription r.2.2 idx m e.2) := by
  obtain ⟨typesAndNames, fieldDescInfos, hd⟩ := describeLine_frame unset line d
  dsimp only
  simp only [handleMsgCommonLine, hok, checkRetOK_ok, if_true, addToDescription, hd, hs, hm]

/-- The description that the file is for, behind a line for it. -/
theorem storeDescription_entry (d : CompMsgMsgDesc) (idx : Nat) (m : MsgDescription) (w : Writer)
    (h : idx < d.msgDescriptions.length) :
    (storeDescription d idx m w).msgDescriptions[idx]? =
      some { m with sequence := some w.sequence, lastFieldOffset := w.lastFieldOffset } :=
  List.getElem?_set_self h

theorem findDescription_store (cmdKey idx : Nat) (d : CompMsgMsgDesc) (m : MsgDescription)
    (w : Writer) (hm : d.msgDescriptions[idx]? = some m) :
    findDescription cmdKey (storeDescription d idx m w).msgDescriptions =
      findDescription cmdKey d.msgDescriptions :=
  findDescription_set cmdKey idx d.msgDescriptions m _ hm rfl

theorem handleMsgCommonLine_rejected (unset : Unset) (cmdKey : Nat) (line : Line)
    (d : CompMsgMsgDesc) (h : (describeLine unset .desc line d).1 ≠ .ok) :
    handleMsgCommonLine unset ⟨.desc, cmdKey⟩ line d =
      ((describeLine unset .desc line d).1, (describeLine unset .desc line d).2.2) := by
  rw [handleMsgCommonLine]
  exact checkRetOK_of_ne _ _ h

theorem handleMsgCommonLine_described (unset : Unset) (g : MsgFieldGroupInfo) (line : Line)
    (d : CompMsgMsgDesc) (h : (handleMsgCommonLine unset g line d).1 = .ok) :
    (describeLine unset g.fieldGroupId line d).1 = .ok :=
  (checkRetOK_eq_ok _ _ h).1

theorem putId_outside (w : Writer) (fldId : Nat) (h : w.inBounds = false ∨ w.fieldIdx < 0) :
    (w.putId fldId).inBounds = false := by
  rw [Writer.putId]
  obtain h | h := h
  · simp [h]
  · simp [Int.not_le.mpr h]

theorem appendId_outside (d : CompMsgMsgDesc) (fldId : Nat) (w : Writer)
    (h : w.inBounds = false ∨ w.fieldIdx < 0) : (appendId d fldId w).2.inBounds = false := by
  rw [appendId]
  split
  · exact putId_outside w fldId h
  · exact putId_outside w fldId h

/-- A write outside the arrays is never made undone. -/
theorem appendIds_outside (d : CompMsgMsgDesc) (keep : Nat → Ret × Bool) (xs : List Nat)
    (w : Writer) (h : w.inBounds = false) : (appendIds d keep xs w).2.inBounds = false := by
  induction xs generalizing w with
  | nil => exact h
  | cons x xs ih =>
    rw [appendIds]
    split
    · exact h
    · exact h
    · exact ih w h
    · exact checkRetOK_keeps (fun w : Writer => w.inBounds = false) _ _
        (appendId_outside d x w (.inl h)) ih

theorem appendField_outside (d : CompMsgMsgDesc) (m : MsgDescription) (fieldNameId : Nat)
    (w : Writer) (h : w.inBounds = false ∨ w.fieldIdx < 0) :
    (appendField d m fieldNameId w).2.inBounds = false := by
  rw [appendField]
  split
  · exact putId_outside w fieldNameId h
  · refine checkRetOK_keeps (fun w : Writer => w.inBounds = false) _ _ (appendId_outside d _ w h) ?_
    intro w' hw'
    split
    · exact appendIds_outside d _ _ _ hw'
    · exact hw'

/-- The index of a description that has its arrays already is not set. -/
theorem extendDescription_outside (unset : Unset) (d : CompMsgMsgDesc) (m : MsgDescription)
    (fieldNameId : Nat)
    (h : d.inBounds = false ∨ (m.sequence ≠ none ∧ unset.fieldIdx < 0)) :
    (extendDescription unset d m fieldNameId).2.inBounds = false := by
  rw [extendDescription]
  cases hs : m.sequence with
  | some sequence =>
    apply appendField_outside
    obtain h | h := h
    · exact .inl h
    · exact .inr h.2
  | none =>
    have hd : d.inBounds = false := h.resolve_right fun h => h.1 hs
    dsimp only
    apply checkRetOK_keeps (fun w : Writer => w.inBounds = false)
    · apply checkRetOK_keeps (fun w : Writer => w.inBounds = false)
      · exact appendIds_outside d _ _ _ hd
      · exact fun w hw => appendIds_outside d _ _ _ hw
    · exact fun w hw => appendField_outside d m _ w (.inl hw)

theorem handleMsgCommonLine_outside (unset : Unset) (cmdKey : Nat) (line : Line)
    (d : CompMsgMsgDesc) (h : d.inBounds = false) :
    (handleMsgCommonLine unset ⟨.desc, cmdKey⟩ line d).2.inBounds = false := by
  have hd : (describeLine unset .desc line d).2.2.inBounds = false :=
    (describeLine_inBounds unset line d).trans h
  rw [handleMsgCommonLine]
  refine checkRetOK_keeps (fun d : CompMsgMsgDesc => d.inBounds = false) _ _ hd ?_
  intro d' hd'
  dsimp only
  rw [if_pos rfl, addToDescription]
  split
  · exact hd'
  · split
    · exact hd'
    · exact extendDescription_outside unset d' _ _ (.inl hd')

theorem handleLines_outside (unset : Nat → Unset) (cmdKey numLines : Nat) (lines : List Line)
    (d : CompMsgMsgDesc) (h : d.inBounds = false) :
    (handleLines unset ⟨.desc, cmdKey⟩ numLines lines d).2.inBounds = false := by
  induction lines generalizing numLines d with
  | nil => exact h
  | cons line lines ih =>
    rw [handleLines]
    split
    · exact h
    · refine checkRetOK_keeps (fun d : CompMsgMsgDesc => d.inBounds = false) _ _ ?_ (ih _)
      exact handleMsgCommonLine_outside _ _ _ _ h

end NodeMcu.CompMsg.DescLines
