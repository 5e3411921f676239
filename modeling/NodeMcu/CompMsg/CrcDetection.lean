import NodeMcu.CompMsg.Crc

namespace NodeMcu.CompMsg.CrcDetection

open NodeMcu.Lib.Memory NodeMcu.Lib.ByteSum
open NodeMcu.CompMsg.Codes NodeMcu.CompMsg.View NodeMcu.CompMsg.Fields NodeMcu.CompMsg.Crc

/-- A view of any length with a CRC field of either width in it. -/
structure CrcBuffer where
  view : DataView
  field : CompMsgField
  lgth_lt : view.lgth < 4294967296
  fits : field.fieldOffset + crcWidth field ≤ view.lgth

namespace CrcBuffer

/-- The range from `start` to `stop` has no byte of the CRC field. -/
def Apart (a : CrcBuffer) (start stop : Nat) : Prop :=
  ∀ i, start ≤ i → i < stop →
    i < a.field.fieldOffset ∨ a.field.fieldOffset + crcWidth a.field ≤ i

/-- A range that does not contain the field. -/
structure Range (a : CrcBuffer) where
  start : Nat
  stop : Nat
  apart : a.Apart start stop

/-- The byte is one that is added up. -/
def Summed (start stop : Nat) (j : Int) : Prop := ∃ i : Nat, start ≤ i ∧ i < stop ∧ j = i

/-- The byte is one of the CRC field. -/
def InField (a : CrcBuffer) (j : Int) : Prop :=
  toInt a.field.fieldOffset ≤ j ∧ j < toInt a.field.fieldOffset + crcWidth a.field

/-- One of the covered bytes has changed, and no other one. -/
def OneChanged (Covered : Int → Prop) (data data' : Mem) : Prop :=
  ∃ j, Covered j ∧ data' j ≠ data j ∧ ∀ i, Covered i → i ≠ j → data' i = data i

/-- What has been set is accepted, and refused once a covered byte has changed. -/
def Detects (Covered : Int → Prop) (set : Result × DataView) (get : DataView → Result) : Prop :=
  set.1 = .ok () ∧ get set.2 = .ok () ∧
    ∀ data', OneChanged Covered set.2.data data' →
      get { set.2 with data := data' } = .error .badCrcValue

variable (a : CrcBuffer)

theorem crcWidth_cases : crcWidth a.field = 1 ∨ crcWidth a.field = 2 := by
  unfold crcWidth
  split
  · exact .inl rfl
  · exact .inr rfl

theorem dvd_words : 256 ∣ 256 ^ crcWidth a.field ∧ 256 ^ crcWidth a.field ∣ 65536 := by
  cases a.crcWidth_cases with
  | inl h => rw [h]; decide
  | inr h => rw [h]; decide

theorem field_accepted :
    toSize (toInt a.field.fieldOffset + (crcWidth a.field - 1 : Nat)) ≤ a.view.lgth := by
  have hl := a.lgth_lt
  have hf := a.fits
  have hw := a.crcWidth_cases
  unfold toSize toInt
  split
  · omega
  · omega

/-- A byte that is added up is not one that is written. -/
theorem not_inField (start stop i : Nat) (h : a.Apart start stop) (hi : start ≤ i)
    (hi' : i < stop) : ¬ a.InField i := by
  have hl := a.lgth_lt
  have hf := a.fits
  have ha := h i hi hi'
  unfold InField toInt
  split
  · omega
  · omega

/-- The memory behind the setter. -/
def stored (start stop : Nat) : Mem :=
  write a.view.data (toInt a.field.fieldOffset)
    (bigEndian (crcWidth a.field) (crcVal a.view.data start stop))

theorem setCrc_stored (start stop : Nat) :
    setCrc a.view a.field start stop = (.ok (), { a.view with data := a.stored start stop }) := by
  rw [setCrc_eq, put_of_le]
  · rfl
  · rw [bigEndian_length]
    exact a.field_accepted

theorem stored_of_not_inField (start stop : Nat) (j : Int) (h : ¬ a.InField j) :
    a.stored start stop j = a.view.data j := by
  by_cases hlt : j < toInt a.field.fieldOffset
  · exact write_of_lt _ _ _ _ hlt
  · apply write_of_ge
    rw [bigEndian_length]
    unfold InField at h
    omega

theorem crcVal_stored (start stop : Nat) (h : a.Apart start stop) :
    crcVal (a.stored start stop) start stop = crcVal a.view.data start stop := by
  apply crcVal_congr
  intro i hi hi'
  exact a.stored_of_not_inField start stop i (a.not_inField start stop i h hi hi')

/-- The field that is found, whatever is in the rest of the view. -/
theorem getBytes_data (data : Mem) :
    getBytes { a.view with data := data } (toInt a.field.fieldOffset) (crcWidth a.field) =
      .ok (ofBigEndian (read data (toInt a.field.fieldOffset) (crcWidth a.field))) :=
  getBytes_of_le _ _ _ a.field_accepted

theorem read_stored (start stop : Nat) :
    read (a.stored start stop) (toInt a.field.fieldOffset) (crcWidth a.field) =
      bigEndian (crcWidth a.field) (crcVal a.view.data start stop) := by
  have h := read_write a.view.data (toInt a.field.fieldOffset)
    (bigEndian (crcWidth a.field) (crcVal a.view.data start stop))
  rwa [bigEndian_length] at h

theorem getCrc_data_iff (data : Mem) (start stop : Nat) :
    getCrc { a.view with data := data } a.field start stop = .ok () ↔
      ofBigEndian (read data (toInt a.field.fieldOffset) (crcWidth a.field)) =
        crcVal data start stop % 256 ^ crcWidth a.field := by
  rw [getCrc_ok_iff, a.getBytes_data, Except.ok.injEq]

/-- The field is in the view, so that only the value can be wrong. -/
theorem getCrc_error (data : Mem) (start stop : Nat)
    (h : getCrc { a.view with data := data } a.field start stop ≠ .ok ()) :
    getCrc { a.view with data := data } a.field start stop = .error .badCrcValue := by
  have hg := a.getBytes_data data
  unfold getCrc at h ⊢
  unfold crcWidth at hg
  dsimp only at h ⊢
  split at h
  case isTrue h1 =>
    rw [if_pos h1] at hg
    simp only [h1, if_true, getUint8, hg, checkValue] at h ⊢
    split
    · rfl
    · simp_all
  case isFalse h1 =>
    rw [if_neg h1] at hg
    simp only [h1, if_false, getUint16, hg, checkValue] at h ⊢
    split
    · rfl
    · simp_all

/-- A byte of the range has changed. -/
theorem refused_of_summed (start stop : Nat) (h : a.Apart start stop) (data' : Mem) (j : Nat)
    (hj : start ≤ j ∧ j < stop) (hne : data' j ≠ a.stored start stop j)
    (hrest : ∀ i, (Summed start stop i ∨ a.InField i) → i ≠ j →
      data' i = a.stored start stop i) :
    getCrc { a.view with data := data' } a.field start stop ≠ .ok () := by
  have hread : read data' (toInt a.field.fieldOffset) (crcWidth a.field) =
      bigEndian (crcWidth a.field) (crcVal a.view.data start stop) := by
    rw [← a.read_stored]
    apply read_congr
    intro k hk
    have hin : a.InField (toInt a.field.fieldOffset + k) := by
      unfold InField
      omega
    apply hrest _ (.inr hin)
    intro he
    rw [he] at hin
    exact a.not_inField start stop j h hj.1 hj.2 hin
  rw [Ne, a.getCrc_data_iff, hread, ofBigEndian_bigEndian, ← a.crcVal_stored start stop h,
    crcVal_eq, crcVal_eq,
    complement_mod_iff 65536 _ _ _ (by decide) a.dvd_words.2]
  apply byteSum_not_modEq _ _ _ _ j _ hj.1 hj.2 _ hne a.dvd_words.1
  intro i hi hi' hij
  exact hrest i (.inl ⟨i, hi, hi', rfl⟩) (by omega)

/-- A byte of the CRC field has changed. -/
theorem refused_of_inField (start stop : Nat) (h : a.Apart start stop) (data' : Mem) (j : Int)
    (hj : a.InField j) (hne : data' j ≠ a.stored start stop j)
    (hrest : ∀ i, (Summed start stop i ∨ a.InField i) → i ≠ j →
      data' i = a.stored start stop i) :
    getCrc { a.view with data := data' } a.field start stop ≠ .ok () := by
  have hval : crcVal data' start stop = crcVal a.view.data start stop := by
    rw [← a.crcVal_stored start stop h]
    apply crcVal_congr
    intro i hi hi'
    apply hrest i (.inl ⟨i, hi, hi', rfl⟩)
    intro he
    rw [← he] at hj
    exact a.not_inField start stop i h hi hi' hj
  rw [Ne, a.getCrc_data_iff, hval, ← ofBigEndian_bigEndian, ← a.read_stored]
  intro he
  have hsame := ofBigEndian_inj _ _ (by rw [read_length, read_length]) he
  obtain ⟨k, rfl⟩ : ∃ k : Nat, j = toInt a.field.fieldOffset + k :=
    ⟨(j - toInt a.field.fieldOffset).toNat, by unfold InField at hj; omega⟩
  have hk : k < crcWidth a.field := by
    unfold InField at hj
    omega
  have hget := congrArg (fun l => l[k]?) hsame
  simp only [read_getElem? _ _ hk, Option.some.injEq] at hget
  exact hne hget

theorem setCrc_detects (start stop : Nat) (h : a.Apart start stop) :
    Detects (fun j => Summed start stop j ∨ a.InField j) (setCrc a.view a.field start stop)
      (fun v => getCrc v a.field start stop) := by
  rw [a.setCrc_stored]
  refine ⟨rfl, ?_, ?_⟩
  · rw [a.getCrc_data_iff, a.read_stored, ofBigEndian_bigEndian, a.crcVal_stored start stop h]
  · rintro data' ⟨j, hj, hne, hrest⟩
    apply a.getCrc_error
    cases hj with
    | inl hs =>
      obtain ⟨i, hi, hi', rfl⟩ := hs
      exact a.refused_of_summed start stop h data' i ⟨hi, hi'⟩ hne hrest
    | inr hin => exact a.refused_of_inField start stop h data' j hin hne hrest

theorem apart_total : a.Apart 0 a.field.fieldOffset :=
  fun _ _ hi => .inl hi

/-- Both pairs of functions find every change of a single byte, wherever the range lies. -/
theorem singleByte_detected (r : a.Range) :
    Detects (fun j => Summed r.start r.stop j ∨ a.InField j)
      (setCrc a.view a.field r.start r.stop) (fun v => getCrc v a.field r.start r.stop) ∧
    Detects (fun j => Summed 0 a.field.fieldOffset j ∨ a.InField j) (setTotalCrc a.view a.field)
      (fun v => getTotalCrc v a.field) := by
  constructor
  · exact a.setCrc_detects r.start r.stop r.apart
  · exact a.setCrc_detects 0 a.field.fieldOffset a.apart_total

end CrcBuffer

end NodeMcu.CompMsg.CrcDetection
