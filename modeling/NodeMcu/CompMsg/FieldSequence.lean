import NodeMcu.CompMsg.DescLines
import NodeMcu.Lib.Filling

namespace NodeMcu.CompMsg.FieldSequence

open NodeMcu.Lib.Filling NodeMcu.Lib.Intervals
open NodeMcu.CompMsg.Codes NodeMcu.CompMsg.Fields NodeMcu.CompMsg.MsgDesc
open NodeMcu.CompMsg.DescLines
open NodeMcu.CompMsg.TypesAndNames

def nameOf (d : CompMsgMsgDesc) (fldId : Nat) : Option String :=
  (getFieldNameStrFromId d.typesAndNames fldId).2

def lgthOf (d : CompMsgMsgDesc) (fldId : Nat) : Nat :=
  ((d.fieldDescInfos fldId).map FieldDescInfo.fieldLgth).getD 0

/-- The ids of the mid part, without `@cmdLgth` unless it is flagged. -/
def midPartIds (d : CompMsgMsgDesc) (fieldFlags : Nat) : List Nat :=
  d.msgMidPartInfo.fieldIds.filter fun fldId =>
    nameOf d fldId != some "@cmdLgth" || hasFlag fieldFlags hasCmdLgth

/-- The ids of the trailer, without `@crc` and `@totalCrc` unless they are flagged. -/
def trailerIds (d : CompMsgMsgDesc) (fieldFlags : Nat) : List Nat :=
  d.msgTrailerInfo.fieldIds.filter fun fldId =>
    (nameOf d fldId != some "@crc" || hasFlag fieldFlags hasCrc) &&
      (nameOf d fldId != some "@totalCrc" || hasFlag fieldFlags hasTotalCrc)

/-- The sequence of a message whose own fields have the ids `own`. -/
def messageIds (d : CompMsgMsgDesc) (fieldFlags : Nat) (own : List Nat) : List Nat :=
  d.msgHeaderInfo.fieldIds ++ midPartIds d fieldFlags ++ own ++ trailerIds d fieldFlags

/-- The description holds the whole sequence with its offsets, and no entry has been written
outside the arrays. -/
structure Described (d : CompMsgMsgDesc) (m : MsgDescription) (own : List Nat) : Prop where
  inBounds : d.inBounds = true
  sequence : ∃ s, m.sequence = some s ∧
    s.fieldSequence.take (messageIds d m.fieldFlags own).length =
      messageIds d m.fieldFlags own ∧
    ∀ i, i < (messageIds d m.fieldFlags own).length →
      s.fieldOffsets[i]? = some (total (lgthOf d) ((messageIds d m.fieldFlags own).take i))
  lastFieldOffset : m.lastFieldOffset = total (lgthOf d) (messageIds d m.fieldFlags own)

/-- A writer that has put `ids` into arrays of `cap` entries, the first one at `start`. -/
def wrote (d : CompMsgMsgDesc) (cap start : Nat) (inBounds : Bool) (ids : List Nat) : Writer :=
  { sequence := ⟨fill cap 0 ids, fill cap 0 (sums 65536 (lgthOf d) start ids)⟩
    lastFieldOffset := sumEnd 65536 (lgthOf d) start ids
    fieldIdx := ids.length
    inBounds := inBounds }

theorem putId_wrote (d : CompMsgMsgDesc) (cap start : Nat) (b : Bool) (ids : List Nat)
    (fldId : Nat) (h : ids.length < cap) :
    (wrote d cap start b ids).putId fldId =
      { wrote d cap start b (ids ++ [fldId]) with
        lastFieldOffset := sumEnd 65536 (lgthOf d) start ids } := by
  have hoffs := fill_set cap 0 (sumEnd 65536 (lgthOf d) start ids)
    (sums 65536 (lgthOf d) start ids) (by rwa [length_sums])
  rw [length_sums] at hoffs
  have hlt : ids.length < (fill cap 0 ids).length := by
    rwa [length_fill _ _ _ (Nat.le_of_lt h)]
  simp [wrote, Writer.putId, fill_set cap 0 fldId ids h, hoffs, sums_append, sums, hlt]

/-- An accepted id is put behind the ones written before. -/
theorem appendId_wrote (d : CompMsgMsgDesc) (cap start : Nat) (b : Bool) (ids : List Nat)
    (fldId : Nat) (h : ids.length < cap)
    (hok : (appendId d fldId (wrote d cap start b ids)).1 = .ok) :
    appendId d fldId (wrote d cap start b ids) =
      (.ok, wrote d cap start b (ids ++ [fldId])) := by
  cases hinfo : d.fieldDescInfos fldId with
  | none => simp [appendId, hinfo] at hok
  | some info =>
    have hl : lgthOf d fldId = info.fieldLgth := by rw [lgthOf, hinfo]; rfl
    simp only [appendId, hinfo, putId_wrote d cap start b ids fldId h]
    simp [wrote, sumEnd_append, sumEnd, hl]

theorem appendIds_wrote (d : CompMsgMsgDesc) (keep : Nat → Ret × Bool) (cap start : Nat)
    (b : Bool) (xs ids : List Nat) (h : ids.length + xs.length ≤ cap)
    (hok : (appendIds d keep xs (wrote d cap start b ids)).1 = .ok) :
    (∀ x ∈ xs, (keep x).1 = .ok) ∧ appendIds d keep xs (wrote d cap start b ids) =
      (.ok, wrote d cap start b (ids ++ xs.filter fun x => (keep x).2)) := by
  induction xs generalizing ids with
  | nil => exact ⟨by simp, by simp [appendIds]⟩
  | cons x xs ih =>
    rw [List.length_cons] at h
    rw [appendIds] at hok ⊢
    rcases hkeep : keep x with ⟨ret, kept⟩
    rw [hkeep] at hok
    cases ret with
    | error e => simp at hok
    | crash => simp at hok
    | ok =>
      cases kept with
      | false =>
        obtain ⟨hall, heq⟩ := ih ids (by omega) hok
        refine ⟨List.forall_mem_cons.mpr ⟨by rw [hkeep], hall⟩, ?_⟩
        · rw [List.filter_cons, hkeep]
          exact heq
      | true =>
        obtain ⟨hid, hnext⟩ := checkRetOK_eq_ok _ _ hok
        have hput := appendId_wrote d cap start b ids x (by omega) hid
        rw [hput] at hnext hok
        rw [checkRetOK_ok] at hok
        obtain ⟨hall, heq⟩ := ih (ids ++ [x])
          (by rw [List.length_append, List.length_singleton]; omega) hok
        refine ⟨List.forall_mem_cons.mpr ⟨by rw [hkeep], hall⟩, ?_⟩
        · rw [List.filter_cons, hkeep]
          dsimp only
          rw [hput, checkRetOK_ok, heq, List.append_assoc]
          rfl

theorem keepByName_of_ok (d : CompMsgMsgDesc) (test : String → Bool) (fldId : Nat)
    (h : (keepByName d test fldId).1 = .ok) :
    ∃ name, nameOf d fldId = some name ∧ (keepByName d test fldId).2 = test name := by
  revert h
  rw [nameOf, keepByName]
  obtain ⟨ret, name⟩ := getFieldNameStrFromId d.typesAndNames fldId
  cases ret with
  | error e => exact fun h => absurd h (by simp)
  | crash => exact fun h => absurd h (by simp)
  | ok =>
    cases name with
    | none => exact fun h => absurd h (by simp)
    | some name => exact fun _ => ⟨name, rfl, rfl⟩

theorem filter_keepMidPart (d : CompMsgMsgDesc) (fieldFlags : Nat) (xs : List Nat)
    (h : ∀ x ∈ xs, (keepByName d (keepMidPart fieldFlags) x).1 = .ok) :
    (xs.filter fun x => (keepByName d (keepMidPart fieldFlags) x).2) =
      xs.filter fun x => nameOf d x != some "@cmdLgth" || hasFlag fieldFlags hasCmdLgth := by
  apply List.filter_congr
  intro x hx
  obtain ⟨name, hname, hkeep⟩ := keepByName_of_ok d _ x (h x hx)
  rw [hkeep, hname, keepMidPart]
  by_cases hn : name = "@cmdLgth"
  · simp [hn]
  · simp [hn]

theorem filter_keepTrailer (d : CompMsgMsgDesc) (fieldFlags : Nat) (xs : List Nat)
    (h : ∀ x ∈ xs, (keepByName d (keepTrailer fieldFlags) x).1 = .ok) :
    (xs.filter fun x => (keepByName d (keepTrailer fieldFlags) x).2) =
      xs.filter fun x => (nameOf d x != some "@crc" || hasFlag fieldFlags hasCrc) &&
        (nameOf d x != some "@totalCrc" || hasFlag fieldFlags hasTotalCrc) := by
  apply List.filter_congr
  intro x hx
  obtain ⟨name, hname, hkeep⟩ := keepByName_of_ok d _ x (h x hx)
  rw [hkeep, hname, keepTrailer]
  by_cases hc : name = "@crc"
  · simp [hc]
  · by_cases ht : name = "@totalCrc"
    · simp [ht]
    · simp [hc, ht]

/-- The length of the arrays that are allocated. -/
def sequenceLgth (d : CompMsgMsgDesc) : Nat :=
  d.msgHeaderInfo.fieldIds.length + d.msgMidPartInfo.fieldIds.length +
    d.msgTrailerInfo.fieldIds.length + 10

theorem startSequence_wrote (d : CompMsgMsgDesc) (m : MsgDescription)
    (hok : (startSequence d m).1 = .ok) :
    startSequence d m = (.ok, wrote d (sequenceLgth d) m.lastFieldOffset d.inBounds
      (d.msgHeaderInfo.fieldIds ++ midPartIds d m.fieldFlags)) := by
  have hstart : startSequence d m = checkRetOK
      (appendIds d (fun _ => (.ok, true)) d.msgHeaderInfo.fieldIds
        (wrote d (sequenceLgth d) m.lastFieldOffset d.inBounds []))
      (appendIds d (keepByName d (keepMidPart m.fieldFlags)) d.msgMidPartInfo.fieldIds) := rfl
  rw [hstart] at hok ⊢
  obtain ⟨hheader, heq⟩ := checkRetOK_eq_ok _ _ hok
  obtain ⟨-, hput⟩ := appendIds_wrote d _ _ _ _ _ [] (by simp [sequenceLgth]; omega) hheader
  rw [List.nil_append, List.filter_eq_self.mpr (fun _ _ => rfl)] at hput
  rw [hput, checkRetOK_ok] at hok ⊢
  obtain ⟨hall, hmid⟩ := appendIds_wrote d _ _ _ _ _ _ (by simp [sequenceLgth]; omega) hok
  rw [hmid, filter_keepMidPart d _ _ hall]
  rfl

theorem appendField_wrote (d : CompMsgMsgDesc) (m : MsgDescription) (cap start : Nat) (b : Bool)
    (ids : List Nat) (fieldNameId : Nat)
    (h : ids.length + 1 + d.msgTrailerInfo.fieldIds.length ≤ cap)
    (hok : (appendField d m fieldNameId (wrote d cap start b ids)).1 = .ok) :
    appendField d m fieldNameId (wrote d cap start b ids) = (.ok, wrote d cap start b
      (ids ++ [fieldNameId] ++
        if d.expectedLines = d.currLineNo then trailerIds d m.fieldFlags else [])) := by
  rw [appendField] at hok ⊢
  cases hinfo : d.fieldDescInfos fieldNameId with
  | none => simp [hinfo] at hok
  | some info =>
    simp only [hinfo] at hok ⊢
    obtain ⟨hid, -⟩ := checkRetOK_eq_ok _ _ hok
    rw [appendId_wrote d cap start b ids fieldNameId (by omega) hid, checkRetOK_ok] at hok ⊢
    by_cases he : d.expectedLines = d.currLineNo
    · rw [if_pos he] at hok
      rw [if_pos he, if_pos he]
      obtain ⟨hall, htr⟩ := appendIds_wrote d _ cap start b d.msgTrailerInfo.fieldIds
        (ids ++ [fieldNameId]) (by rw [List.length_append, List.length_singleton]; omega) hok
      rw [htr, filter_keepTrailer d _ _ hall]
      rfl
    · rw [if_neg he, if_neg he, List.append_nil]

/-- The arrays hold `ids`, each with the sum of the lengths in front of it. -/
structure Holds (d : CompMsgMsgDesc) (w : Writer) (ids : List Nat) : Prop where
  sequence : w.sequence.fieldSequence.take ids.length = ids
  offsets : ∀ i, i < ids.length →
    w.sequence.fieldOffsets[i]? = some (total (lgthOf d) (ids.take i))
  lastFieldOffset : w.lastFieldOffset = total (lgthOf d) ids

theorem storeDescription_described_iff (d : CompMsgMsgDesc) (idx : Nat) (m : MsgDescription)
    (w : Writer) (own : List Nat) (hlt : idx < d.msgDescriptions.length) :
    (∃ m', (storeDescription d idx m w).msgDescriptions[idx]? = some m' ∧
        Described (storeDescription d idx m w) m' own) ↔
      w.inBounds = true ∧ Holds d w (messageIds d m.fieldFlags own) := by
  have hentry := storeDescription_entry d idx m w hlt
  constructor
  · rintro ⟨m', hm', hd⟩
    obtain rfl := Option.some.inj (hentry.symm.trans hm')
    obtain ⟨s, hs, hseq, hoff⟩ := hd.sequence
    obtain rfl := Option.some.inj hs
    exact ⟨hd.inBounds, hseq, hoff, hd.lastFieldOffset⟩
  · rintro ⟨hb, hseq, hoff, hlast⟩
    exact ⟨_, hentry, hb, ⟨_, rfl, hseq, hoff⟩, hlast⟩

theorem sumEnd_lgthOf (d : CompMsgMsgDesc) (ids : List Nat) :
    sumEnd 65536 (lgthOf d) 0 ids = total (lgthOf d) ids % 65536 := by
  rw [sumEnd_eq _ _ _ _ (by omega), Nat.zero_add]

theorem wrote_offset (d : CompMsgMsgDesc) (cap start : Nat) (b : Bool) (ids : List Nat) (i : Nat)
    (hi : i < ids.length) : (wrote d cap start b ids).sequence.fieldOffsets[i]? =
      some (sumEnd 65536 (lgthOf d) start (ids.take i)) := by
  dsimp only [wrote]
  rw [fill_getElem? _ _ _ _ (by rwa [length_sums]), sums_getElem? _ _ _ _ _ hi]

theorem wrote_offset_behind (d : CompMsgMsgDesc) (cap start : Nat) (b : Bool) (ids : List Nat)
    (i : Nat) (hi : ids.length ≤ i) (hc : i < cap) :
    (wrote d cap start b ids).sequence.fieldOffsets[i]? = some 0 :=
  fill_getElem?_behind cap 0 _ i (by rwa [length_sums]) hc

/-- Up to 16 bits the sums are those of the lengths. -/
theorem wrote_offset_total (d : CompMsgMsgDesc) (cap : Nat) (b : Bool) (ids : List Nat) (i : Nat)
    (hi : i < ids.length) (hlt : total (lgthOf d) ids < 65536) :
    (wrote d cap 0 b ids).sequence.fieldOffsets[i]? = some (total (lgthOf d) (ids.take i)) := by
  have hle := total_take_le (lgthOf d) ids i
  rw [wrote_offset d cap 0 b ids i hi, sumEnd_lgthOf, Nat.mod_eq_of_lt (by omega)]

theorem wrote_holds_start (d : CompMsgMsgDesc) (cap start : Nat) (b : Bool)
    (front tail : List Nat) (hfront : front ≠ [])
    (h : Holds d (wrote d cap start b front) (front ++ tail)) : start = 0 := by
  have hpos : 0 < front.length := List.length_pos_iff.mpr hfront
  have hfirst := wrote_offset d cap start b front 0 hpos
  rw [h.offsets 0 (by rw [List.length_append]; omega)] at hfirst
  exact (Option.some.inj hfirst).symm

theorem wrote_all_iff (d : CompMsgMsgDesc) (cap start : Nat) (b : Bool) (ids : List Nat)
    (hids : ids ≠ []) :
    Holds d (wrote d cap start b ids) ids ↔ start = 0 ∧ total (lgthOf d) ids < 65536 := by
  constructor
  · intro h
    have hstart : start = 0 :=
      wrote_holds_start d cap start b ids [] hids (by rwa [List.append_nil])
    have hlast : sumEnd 65536 (lgthOf d) start ids = total (lgthOf d) ids := h.lastFieldOffset
    rw [hstart, sumEnd_lgthOf] at hlast
    exact ⟨hstart, by omega⟩
  · rintro ⟨rfl, hlt⟩
    refine ⟨take_fill cap 0 ids, fun i hi => wrote_offset_total d cap b ids i hi hlt, ?_⟩
    exact (sumEnd_lgthOf d ids).trans (Nat.mod_eq_of_lt hlt)

/-- Arrays in which only `front` has been written hold `tail` behind it if it is all zeros. -/
theorem wrote_front_iff (d : CompMsgMsgDesc) (cap start : Nat) (b : Bool) (front tail : List Nat)
    (hfront : front ≠ []) (hcap : (front ++ tail).length ≤ cap) :
    Holds d (wrote d cap start b front) (front ++ tail) ↔
      start = 0 ∧ total (lgthOf d) (front ++ tail) < 65536 ∧ (∀ fldId ∈ tail, fldId = 0) ∧
        (tail ≠ [] → total (lgthOf d) (front ++ tail) = 0) := by
  have hlen : (front ++ tail).length = front.length + tail.length := List.length_append
  have hsum : total (lgthOf d) (front ++ tail) =
      total (lgthOf d) front + total (lgthOf d) tail := total_append _ _ _
  have hzeros := take_fill_append cap 0 front tail (by omega)
  constructor
  · intro h
    have hstart : start = 0 := wrote_holds_start d cap start b front tail hfront h
    have hlast : sumEnd 65536 (lgthOf d) start front = total (lgthOf d) (front ++ tail) :=
      h.lastFieldOffset
    rw [hstart, sumEnd_lgthOf] at hlast
    refine ⟨hstart, by omega, hzeros.mp h.sequence, fun htail => ?_⟩
    -- the first entry of `tail` has not been written, so that its offset is zero
    have hpos : 0 < tail.length := List.length_pos_iff.mpr htail
    have hnext := wrote_offset_behind d cap start b front front.length (Nat.le_refl _) (by omega)
    rw [h.offsets front.length (by omega), List.take_left] at hnext
    have hnone : total (lgthOf d) front = 0 := Option.some.inj hnext
    omega
  · rintro ⟨rfl, hlt, hall, hnone⟩
    refine ⟨hzeros.mpr hall, fun i hi => ?_, ?_⟩
    · by_cases hif : i < front.length
      · rw [wrote_offset_total d cap b front i hif (by omega),
          List.take_append_of_le_length (Nat.le_of_lt hif)]
      · have htail := hnone (List.ne_nil_of_length_pos (by omega))
        have hle := total_take_le (lgthOf d) (front ++ tail) i
        rw [wrote_offset_behind d cap 0 b front i (by omega) (by omega)]
        congr 1
        omega
    · refine (sumEnd_lgthOf d front).trans ?_
      by_cases htail : tail = []
      · rw [htail, List.append_nil] at hlt ⊢
        exact Nat.mod_eq_of_lt hlt
      · have hzero := hnone htail
        omega

/-- When arrays in which `front` and, if `whole`, `tail` have been written hold both. -/
theorem wrote_whole_iff (d : CompMsgMsgDesc) (cap start : Nat) (b whole : Bool)
    (front tail : List Nat) (hfront : front ≠ []) (hcap : (front ++ tail).length ≤ cap) :
    Holds d (wrote d cap start b (front ++ if whole then tail else [])) (front ++ tail) ↔
      start = 0 ∧ total (lgthOf d) (front ++ tail) < 65536 ∧
        (whole = true ∨ ((∀ fldId ∈ tail, fldId = 0) ∧
          (tail ≠ [] → total (lgthOf d) (front ++ tail) = 0))) := by
  cases whole with
  | true =>
    rw [if_pos rfl, wrote_all_iff d cap start b _ (List.append_ne_nil_of_left_ne_nil hfront tail)]
    simp
  | false =>
    rw [if_neg (by decide), List.append_nil, wrote_front_iff d cap start b front tail hfront hcap]
    simp

/-- What the first line of a file makes of a description that has no sequence yet. -/
theorem extendDescription_first (unset : Unset) (d : CompMsgMsgDesc) (m : MsgDescription)
    (fieldNameId : Nat) (hseq : m.sequence = none)
    (hok : (extendDescription unset d m fieldNameId).1 = .ok) :
    extendDescription unset d m fieldNameId =
      (.ok, wrote d (sequenceLgth d) m.lastFieldOffset d.inBounds
        (d.msgHeaderInfo.fieldIds ++ midPartIds d m.fieldFlags ++ [fieldNameId] ++
          if d.expectedLines = d.currLineNo then trailerIds d m.fieldFlags else [])) := by
  simp only [extendDescription, hseq] at hok ⊢
  obtain ⟨hstart, -⟩ := checkRetOK_eq_ok _ _ hok
  have hw := startSequence_wrote d m hstart
  have hmid : (midPartIds d m.fieldFlags).length ≤ d.msgMidPartInfo.fieldIds.length :=
    List.length_filter_le _ _
  rw [hw, checkRetOK_ok] at hok ⊢
  exact appendField_wrote d m _ _ _ _ fieldNameId
    (by rw [List.length_append, sequenceLgth]; omega) hok

/-- The descriptions and the tables behind an accepted line. -/
theorem handleMsgCommonLine_ok (unset : Unset) (cmdKey idx : Nat) (line : Line)
    (d : CompMsgMsgDesc) (m : MsgDescription)
    (hplace : findDescription cmdKey d.msgDescriptions = some idx)
    (hm : d.msgDescriptions[idx]? = some m)
    (hok : (handleMsgCommonLine unset ⟨.desc, cmdKey⟩ line d).1 = .ok) :
    let r := describeLine unset .desc line d
    let e := extendDescription unset r.2.2 m r.2.1
    e.1 = .ok ∧ (handleMsgCommonLine unset ⟨.desc, cmdKey⟩ line d).2 =
      storeDescription r.2.2 idx m e.2 := by
  have hs := searchDescription_found cmdKey none 0 idx _ hplace
  rw [Nat.zero_add] at hs
  have heq := handleMsgCommonLine_selected unset cmdKey idx line d m hs hm
    (handleMsgCommonLine_described _ _ _ _ hok)
  dsimp only at heq ⊢
  rw [heq] at hok ⊢
  exact ⟨hok, rfl⟩

/-- A line that ends up at a description that has its arrays writes to an index that is not set. -/
theorem handleLines_selected_outside (unset : Nat → Unset) (cmdKey idx numLines : Nat)
    (line : Line) (lines : List Line) (d : CompMsgMsgDesc) (m : MsgDescription)
    (hs : searchDescription cmdKey none 0 d.msgDescriptions = some idx)
    (hm : d.msgDescriptions[idx]? = some m) (hseq : m.sequence ≠ none)
    (hneg : (unset numLines).fieldIdx < 0) (hexp : ¬ d.expectedLines < numLines + 1)
    (hok : (describeLine (unset numLines) .desc line
      { d with currLineNo := d.currLineNo + 1 }).1 = .ok) :
    (handleLines unset ⟨.desc, cmdKey⟩ numLines (line :: lines) d).2.inBounds = false := by
  rw [handleLines, if_neg hexp]
  refine checkRetOK_keeps (fun d : CompMsgMsgDesc => d.inBounds = false) _ _ ?_
    (handleLines_outside unset cmdKey (numLines + 1) lines)
  rw [handleMsgCommonLine_selected (unset numLines) cmdKey idx line
    { d with currLineNo := d.currLineNo + 1 } m hs hm hok]
  exact extendDescription_outside _ _ _ _ (.inr ⟨hseq, hneg⟩)

theorem handleLines_again (unset : Nat → Unset) (cmdKey idx numLines : Nat) (line : Line)
    (lines : List Line) (d : CompMsgMsgDesc) (m : MsgDescription)
    (hplace : findDescription cmdKey d.msgDescriptions = some idx)
    (hm : d.msgDescriptions[idx]? = some m) (hseq : m.sequence ≠ none)
    (hneg : (unset numLines).fieldIdx < 0)
    (hok : (handleLines unset ⟨.desc, cmdKey⟩ numLines (line :: lines) d).1 = .ok) :
    (handleLines unset ⟨.desc, cmdKey⟩ numLines (line :: lines) d).2.inBounds = false := by
  have hs := searchDescription_found cmdKey none 0 idx _ hplace
  rw [Nat.zero_add] at hs
  rw [handleLines] at hok
  split at hok
  · cases hok
  · rename_i hexp
    obtain ⟨hline, -⟩ := checkRetOK_eq_ok _ _ hok
    exact handleLines_selected_outside unset cmdKey idx numLines line lines d m hs hm hseq hneg
      hexp (handleMsgCommonLine_described _ _ _ _ hline)

/-- Only the first line for a description knows where to write. -/
theorem handleLines_second (unset : Nat → Unset) (cmdKey idx : Nat) (line line' : Line)
    (lines : List Line) (d : CompMsgMsgDesc) (m : MsgDescription)
    (hplace : findDescription cmdKey d.msgDescriptions = some idx)
    (hm : d.msgDescriptions[idx]? = some m) (hneg : ∀ n, (unset n).fieldIdx < 0)
    (hok : (handleLines unset ⟨.desc, cmdKey⟩ 0 (line :: line' :: lines) d).1 = .ok) :
    (handleLines unset ⟨.desc, cmdKey⟩ 0 (line :: line' :: lines) d).2.inBounds = false := by
  rw [handleLines] at hok ⊢
  split at hok
  · cases hok
  · rename_i hle
    obtain ⟨hline, heq⟩ := checkRetOK_eq_ok _ _ hok
    rw [heq] at hok
    rw [if_neg hle, heq]
    obtain ⟨-, hstate⟩ := handleMsgCommonLine_ok _ cmdKey idx line
      { d with currLineNo := d.currLineNo + 1 } m hplace hm hline
    rw [hstate] at hok ⊢
    have hsame := describeLine_msgDescriptions (unset 0) line
      { d with currLineNo := d.currLineNo + 1 }
    have hlt : idx < d.msgDescriptions.length := findDescription_lt _ _ _ hplace
    refine handleLines_again unset cmdKey idx 1 line' lines _ _ ?_
      (storeDescription_entry _ _ _ _ (by rwa [hsame])) (Option.some_ne_none _) (hneg 1) hok
    rw [findDescription_store _ _ _ _ _ (by rwa [hsame]), hsame]
    exact hplace

/-- The ids of a file's own fields, in the order of its lines. -/
def ownIds (unset : Nat → Unset) (cmdKey : Nat) (file : DescFile) (d : CompMsgMsgDesc) :
    List Nat :=
  (describedFields unset ⟨.desc, cmdKey⟩ 0 file.lines
    { d with expectedLines := file.expectedLines, currLineNo := 0 }).map CompMsgField.fieldNameId

/-- Whatever the locals of the calls hold that they do not set, the description is complete behind
the last line of the file. -/
def FileDescribed (cmdKey idx : Nat) (file : DescFile) (d : CompMsgMsgDesc) : Prop :=
  ∀ unset : Nat → Unset, ∃ m,
    (handleMsgFileInternal unset ⟨.desc, cmdKey⟩ file d).2.msgDescriptions[idx]? = some m ∧
      Described (handleMsgFileInternal unset ⟨.desc, cmdKey⟩ file d).2 m
        (ownIds unset cmdKey file d)

/-- The state in which the first line of a file is handled. -/
def firstLineState (file : DescFile) (d : CompMsgMsgDesc) : CompMsgMsgDesc :=
  { d with expectedLines := file.expectedLines, currLineNo := 1 }

/-- The id and the tables that a first line comes to the descriptions with. -/
def lineFields (line : Line) (file : DescFile) (d : CompMsgMsgDesc) : Nat × CompMsgMsgDesc :=
  (describeLine zeroLocals .desc line (firstLineState file d)).2

/-- The sum of the lengths fits into 16 bits, and the trailer is not missed: it is either added
behind the first line or does not differ from entries that have not been written. -/
def SequenceFits (line : Line) (file : DescFile) (d : CompMsgMsgDesc) (fieldFlags : Nat) : Prop :=
  let r := lineFields line file d
  let ids := messageIds r.2 fieldFlags [r.1]
  let tail := trailerIds r.2 fieldFlags
  total (lgthOf r.2) ids < 65536 ∧
    (file.expectedLines = 1 ∨
      ((∀ fldId ∈ tail, fldId = 0) ∧ (tail ≠ [] → total (lgthOf r.2) ids = 0)))

/-- The file has one line, and it is the first one for its description. -/
structure FirstAndOnly (file : DescFile) (d : CompMsgMsgDesc) (m : MsgDescription) : Prop where
  sequence : m.sequence = none
  lastFieldOffset : m.lastFieldOffset = 0
  line : ∃ line, file.lines = [line] ∧ SequenceFits line file d m.fieldFlags

theorem handleMsgFileInternal_single (unset : Nat → Unset) (g : MsgFieldGroupInfo) (line : Line)
    (file : DescFile) (d : CompMsgMsgDesc) (hline : file.lines = [line])
    (hok : (handleMsgFileInternal unset g file d).1 = .ok) :
    (handleMsgCommonLine (unset 0) g line (firstLineState file d)).1 = .ok ∧
      (handleMsgFileInternal unset g file d).2 =
        (handleMsgCommonLine (unset 0) g line (firstLineState file d)).2 := by
  rw [handleMsgFileInternal, hline, handleLines] at hok ⊢
  split at hok
  · cases hok
  · rename_i hle
    rw [if_neg hle]
    obtain ⟨h1, h2⟩ := checkRetOK_eq_ok _ _ hok
    exact ⟨h1, by rw [h2]; rfl⟩

theorem ownIds_single (unset : Nat → Unset) (cmdKey : Nat) (line : Line) (file : DescFile)
    (d : CompMsgMsgDesc) (hline : file.lines = [line]) :
    ownIds unset cmdKey file d =
      [(describeLine (unset 0) .desc line (firstLineState file d)).2.1] := by
  rw [ownIds, hline]
  rfl

/-- The locals that are not set show neither in the ids nor in the lengths. -/
theorem lineFields_eq (unset : Unset) (line : Line) (file : DescFile) (d : CompMsgMsgDesc)
    (hok : (describeLine unset .desc line (firstLineState file d)).1 = .ok) :
    let r := describeLine unset .desc line (firstLineState file d)
    r.2.1 = (lineFields line file d).1 ∧ lgthOf r.2.2 = lgthOf (lineFields line file d).2 ∧
      (∀ fieldFlags own, messageIds r.2.2 fieldFlags own =
        messageIds (lineFields line file d).2 fieldFlags own) ∧
      (∀ fieldFlags, trailerIds r.2.2 fieldFlags =
        trailerIds (lineFields line file d).2 fieldFlags) := by
  obtain ⟨fieldNameId, typesAndNames, fieldDescInfos, info, hall⟩ := describeLine_ok _ _ _ hok
  rw [lineFields, hall unset, hall zeroLocals]
  refine ⟨rfl, ?_, fun _ _ => rfl, fun _ => rfl⟩
  funext fldId
  simp only [lgthOf, Function.update_apply]
  split <;> rfl

theorem messageIds_length (d : CompMsgMsgDesc) (fieldFlags fieldNameId : Nat) :
    (messageIds d fieldFlags [fieldNameId]).length ≤ sequenceLgth d := by
  have hmid : (midPartIds d fieldFlags).length ≤ d.msgMidPartInfo.fieldIds.length :=
    List.length_filter_le _ _
  have htail : (trailerIds d fieldFlags).length ≤ d.msgTrailerInfo.fieldIds.length :=
    List.length_filter_le _ _
  simp only [messageIds, sequenceLgth, List.length_append, List.length_singleton]
  omega

/-- A file of one line for a new description leaves it complete exactly if the sequence fits. -/
theorem single_described_iff (unset : Nat → Unset) (cmdKey idx : Nat) (line : Line)
    (file : DescFile) (d : CompMsgMsgDesc) (m : MsgDescription)
    (hplace : findDescription cmdKey d.msgDescriptions = some idx)
    (hm : d.msgDescriptions[idx]? = some m) (hb : d.inBounds = true)
    (hline : file.lines = [line]) (hseq : m.sequence = none)
    (hok : (handleMsgFileInternal unset ⟨.desc, cmdKey⟩ file d).1 = .ok) :
    (∃ m', (handleMsgFileInternal unset ⟨.desc, cmdKey⟩ file d).2.msgDescriptions[idx]? =
          some m' ∧
        Described (handleMsgFileInternal unset ⟨.desc, cmdKey⟩ file d).2 m'
          (ownIds unset cmdKey file d)) ↔
      m.lastFieldOffset = 0 ∧ SequenceFits line file d m.fieldFlags := by
  obtain ⟨hcommon, hstate⟩ := handleMsgFileInternal_single unset _ line file d hline hok
  obtain ⟨hext, hafter⟩ := handleMsgCommonLine_ok (unset 0) cmdKey idx line
    (firstLineState file d) m hplace hm hcommon
  have hdesc := handleMsgCommonLine_described _ _ _ _ hcommon
  obtain ⟨hid, hlgth, hids, htail⟩ := lineFields_eq (unset 0) line file d hdesc
  obtain ⟨typesAndNames, fieldDescInfos, hframe⟩ :=
    describeLine_frame (unset 0) line (firstLineState file d)
  have hw := extendDescription_first (unset 0) _ m _ hseq hext
  have hlast : (decide (file.expectedLines = 1) = true) ↔ file.expectedLines = 1 :=
    decide_eq_true_iff
  have hno : ((describeLine (unset 0) .desc line (firstLineState file d)).2.2.expectedLines =
      (describeLine (unset 0) .desc line (firstLineState file d)).2.2.currLineNo) ↔
        decide (file.expectedLines = 1) = true := by
    rw [hframe, hlast]
    rfl
  have hbounds :
      (describeLine (unset 0) .desc line (firstLineState file d)).2.2.inBounds = true := by
    rw [hframe]
    exact hb
  have hlt : idx <
      (describeLine (unset 0) .desc line (firstLineState file d)).2.2.msgDescriptions.length := by
    rw [describeLine_msgDescriptions (unset 0) line (firstLineState file d)]
    exact findDescription_lt _ _ _ hplace
  rw [hstate, hafter, ownIds_single unset cmdKey line file d hline,
    storeDescription_described_iff _ idx m _ _ hlt, SequenceFits, ← hid, ← hlgth, ← hids, ← htail,
    ← hlast]
  simp only [hno] at hw
  generalize describeLine (unset 0) .desc line (firstLineState file d) = r at *
  have hiff := wrote_whole_iff r.2.2 (sequenceLgth r.2.2) m.lastFieldOffset r.2.2.inBounds
    (decide (file.expectedLines = 1))
    (r.2.2.msgHeaderInfo.fieldIds ++ midPartIds r.2.2 m.fieldFlags ++ [r.2.1])
    (trailerIds r.2.2 m.fieldFlags) (by simp) (messageIds_length r.2.2 m.fieldFlags r.2.1)
  rw [hw]
  exact ⟨fun h => hiff.mp h.2, fun h => ⟨hbounds, hiff.mpr h⟩⟩

/-- Locals that make a call write in front of the arrays. -/
def beforeArray : Nat → Unset := fun _ => ⟨0, 0, -1⟩

/-- The description has no field yet, and the file has no second one for it. -/
def OneField (file : DescFile) (m : MsgDescription) : Prop :=
  file.lines = [] ∨ m.sequence = none ∧ ∃ line, file.lines = [line]

/-- Every other line writes where the locals say. -/
theorem oneField_of_inBounds (cmdKey idx : Nat) (file : DescFile) (d : CompMsgMsgDesc)
    (m : MsgDescription) (hplace : findDescription cmdKey d.msgDescriptions = some idx)
    (hm : d.msgDescriptions[idx]? = some m)
    (hok : (handleMsgFileInternal beforeArray ⟨.desc, cmdKey⟩ file d).1 = .ok)
    (hin : (handleMsgFileInternal beforeArray ⟨.desc, cmdKey⟩ file d).2.inBounds = true) :
    OneField file m := by
  have hneg : ∀ n, (beforeArray n).fieldIdx < 0 := fun _ => (by decide : (-1 : Int) < 0)
  rw [handleMsgFileInternal] at hok hin
  cases hlines : file.lines with
  | nil => exact .inl hlines
  | cons line lines =>
    rw [hlines] at hok hin
    refine .inr ⟨?_, ?_⟩
    · by_contra hseq
      have hout := handleLines_again beforeArray cmdKey idx 0 line lines
        { d with expectedLines := file.expectedLines, currLineNo := 0 } m hplace hm hseq (hneg 0)
        hok
      rw [hout] at hin
      cases hin
    · cases lines with
      | nil => exact ⟨line, hlines⟩
      | cons line' lines =>
        have hout := handleLines_second beforeArray cmdKey idx line line' lines
          { d with expectedLines := file.expectedLines, currLineNo := 0 } m hplace hm hneg hok
        rw [hout] at hin
        cases hin

/-- Behind an accepted file the description is complete, whatever the locals hold, exactly if the
file has one line, is the first one for its description and the sequence fits. -/
theorem fileDescribed_iff (cmdKey idx : Nat) (file : DescFile) (d : CompMsgMsgDesc)
    (m : MsgDescription) (hlines : file.lines ≠ [])
    (hplace : findDescription cmdKey d.msgDescriptions = some idx)
    (hm : d.msgDescriptions[idx]? = some m) (hb : d.inBounds = true)
    (hok : ∀ unset, (handleMsgFileInternal unset ⟨.desc, cmdKey⟩ file d).1 = .ok) :
    FileDescribed cmdKey idx file d ↔ FirstAndOnly file d m := by
  constructor
  · intro h
    obtain ⟨m', hm', hd⟩ := h beforeArray
    have hone := oneField_of_inBounds cmdKey idx file d m hplace hm (hok beforeArray) hd.inBounds
    obtain ⟨hseq, line, hline⟩ := hone.resolve_left hlines
    obtain ⟨hlast, hfits⟩ := (single_described_iff _ cmdKey idx line file d m hplace hm hb hline
      hseq (hok beforeArray)).mp ⟨m', hm', hd⟩
    exact ⟨hseq, hlast, line, hline, hfits⟩
  · rintro ⟨hseq, hlast, line, hline, hfits⟩ unset
    exact (single_described_iff unset cmdKey idx line file d m hplace hm hb hline hseq
      (hok unset)).mpr ⟨hlast, hfits⟩

/-- A description with the command key `P2` behind a header of two fields. -/
def keyDesc : CompMsgMsgDesc :=
  { typesAndNames := initTypesAndNames
    fieldDescInfos := fun fldId =>
      if fldId = specFieldDst then some ⟨fieldHeader, .uint16, 2, 0⟩
      else if fldId = specFieldTotalLgth then some ⟨fieldHeader, .uint16, 2, 2⟩
      else none
    msgHeaderInfo := ⟨4, [specFieldDst, specFieldTotalLgth]⟩
    msgMidPartInfo := ⟨0, []⟩
    msgTrailerInfo := ⟨0, []⟩
    msgDescriptions := [⟨fun _ => 0, 0x5032, none, 0, 0⟩]
    expectedLines := 0
    currLineNo := 0
    inBounds := true }

def oneLineFile : DescFile := ⟨1, [⟨3, "@numKeyValues", "uint8_t", 1, 0⟩]⟩

theorem oneLineFile_described : FileDescribed 0x5032 0 oneLineFile keyDesc ↔
    FirstAndOnly oneLineFile keyDesc ⟨fun _ => 0, 0x5032, none, 0, 0⟩ :=
  fileDescribed_iff 0x5032 0 oneLineFile keyDesc ⟨fun _ => 0, 0x5032, none, 0, 0⟩
    (by decide) (by decide) rfl rfl (fun _ => rfl)

/-- A file as those that belong to the firmware: it has two lines. -/
def twoLineFile : DescFile :=
  ⟨2, [⟨3, "@numKeyValues", "uint8_t", 1, 0⟩, ⟨5, "@#sequenceNum", "uint32_t", 4, 0⟩]⟩

/-- The second line writes in front of the array. -/
theorem twoLineFile_not_described :
    (handleMsgFileInternal beforeArray ⟨.desc, 0x5032⟩ twoLineFile keyDesc).1 = .ok ∧
      ¬ FileDescribed 0x5032 0 twoLineFile keyDesc := by
  refine ⟨by decide +kernel, fun h => ?_⟩
  obtain ⟨m, -, hd⟩ := h beforeArray
  have hout : (handleMsgFileInternal beforeArray ⟨.desc, 0x5032⟩ twoLineFile keyDesc).2.inBounds =
      false := by decide +kernel
  rw [hd.inBounds] at hout
  cases hout

end NodeMcu.CompMsg.FieldSequence
