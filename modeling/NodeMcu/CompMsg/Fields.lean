import NodeMcu.CompMsg.View

namespace NodeMcu.CompMsg.Fields

open NodeMcu.Lib.Memory NodeMcu.CompMsg.Codes NodeMcu.CompMsg.View

/-- `compMsgField_t`, less the key and flag bytes that no modelled function reads. -/
structure CompMsgField where
  fieldNameId : Nat
  fieldTypeId : FieldType
  fieldLgth : Nat
  fieldOffset : Nat
  deriving DecidableEq, Repr

/-- The successive values of `rand()`. -/
abbrev Rand := Nat → Nat

def Rand.next (r : Rand) : Rand := fun n => r (n + 1)

/-- The common body of the vector branches of `setFieldValue`. -/
def copyVector (v : DataView) (f : CompMsgField) (stringValue : Option Mem) (fieldIdx : Int) :
    Result × DataView :=
  match stringValue with
  | none => (.error .badValue, v)
  | some str =>
    if v.lgth < f.fieldOffset + f.fieldLgth then
      (.error .valueTooBig, v)
    else
      (.ok (), { v with
        data := write v.data (toInt f.fieldOffset + fieldIdx) (read str 0 f.fieldLgth) })

/-- The common body of the branches of `setFieldValue` that take no string. -/
def setNumber (v : DataView) (stringValue : Option Mem) (set : Result × DataView) :
    Result × DataView :=
  match stringValue with
  | some _ => (.error .badValue, v)
  | none => set

def setFieldValue (v : DataView) (f : CompMsgField) (numericValue : Int)
    (stringValue : Option Mem) (fieldIdx : Int) : Result × DataView :=
  let offset := toInt f.fieldOffset + fieldIdx
  match f.fieldTypeId with
  | .int8 => setNumber v stringValue <|
      if -128 < numericValue ∧ numericValue < 128 then setInt8 v offset numericValue
      else (.error .valueTooBig, v)
  | .uint8 => setNumber v stringValue <|
      -- A value that does not fit is dropped without an error.
      if 0 ≤ numericValue ∧ numericValue ≤ 256 then setUint8 v offset (toSize numericValue)
      else (.ok (), v)
  | .int16 => setNumber v stringValue <|
      if -32767 < numericValue ∧ numericValue < 32767 then setInt16 v offset numericValue
      else (.error .valueTooBig, v)
  | .uint16 => setNumber v stringValue <|
      if 0 ≤ numericValue ∧ numericValue ≤ 65535 then setUint16 v offset (toSize numericValue)
      else (.error .valueTooBig, v)
  | .int32 => setNumber v stringValue <|
      if -0x7FFFFFFF < numericValue ∧ numericValue ≤ 0x7FFFFFFF then
        setInt32 v offset numericValue
      else (.error .valueTooBig, v)
  | .uint32 => setNumber v stringValue <|
      if -0x7FFFFFFF < numericValue ∧ numericValue ≤ 0x7FFFFFFF then
        setUint32 v offset (toSize numericValue)
      else (.error .valueTooBig, v)
  | .int8Vector | .uint8Vector => copyVector v f stringValue fieldIdx
  | .int16Vector => setNumber v stringValue <|
      setInt16 v (toInt f.fieldOffset + fieldIdx * 2) numericValue
  | .uint16Vector => setNumber v stringValue <|
      setUint16 v (toInt f.fieldOffset + fieldIdx * 2) (toSize numericValue)
  | .none | .uint32Vector | .int32Vector => (.error .badFieldType, v)

def setRandomNum (r : Rand) (v : DataView) (f : CompMsgField) : Result × DataView :=
  setUint32 v (toInt f.fieldOffset) (r 0)

/-- `count` words of `width` random bytes each: one of the loops of `setFiller`. -/
def fillWords (width count : Nat) (r : Rand) (v : DataView) (offset : Nat) :
    Result × DataView :=
  match count with
  | 0 => (.ok (), v)
  | count + 1 => checkErrOK (put v (toInt offset) (bigEndian width (r 0)))
      fun v => fillWords width count r.next v (offset + width)

def setFiller (r : Rand) (v : DataView) (f : CompMsgField) : Result × DataView :=
  let n4 := f.fieldLgth / 4
  let n2 := f.fieldLgth % 4 / 2
  checkErrOK (fillWords 4 n4 r v f.fieldOffset) fun v =>
  checkErrOK (fillWords 2 n2 (fun n => r (n4 + n)) v (f.fieldOffset + 4 * n4)) fun v =>
  fillWords 1 (f.fieldLgth % 2) (fun n => r (n4 + n2 + n)) v
    (f.fieldOffset + 4 * n4 + 2 * n2)

/-- How often `setFiller` calls `rand()`. -/
def fillerCalls (f : CompMsgField) : Nat :=
  f.fieldLgth / 4 + f.fieldLgth % 4 / 2 + f.fieldLgth % 2

def setZeros (count : Nat) (v : DataView) (offset : Nat) : Result × DataView :=
  match count with
  | 0 => (.ok (), v)
  | count + 1 => checkErrOK (setUint8 v (toInt offset) 0)
      fun v => setZeros count v (offset + 1)

def setZeroFiller (v : DataView) (f : CompMsgField) : Result × DataView :=
  setZeros f.fieldLgth v f.fieldOffset

theorem checkErrOK_lgth (r : Result × DataView) (next : DataView → Result × DataView) (n : Nat)
    (hr : r.2.lgth = n) (hn : ∀ v, v.lgth = n → (next v).2.lgth = n) :
    (checkErrOK r next).2.lgth = n := by
  obtain ⟨result, v⟩ := r
  cases result with
  | ok u => exact hn v hr
  | error e => exact hr

theorem setNumber_lgth (v : DataView) (s : Option Mem) (set : Result × DataView)
    (h : set.2.lgth = v.lgth) : (setNumber v s set).2.lgth = v.lgth := by
  cases s with
  | none => exact h
  | some str => rfl

/-- No value changes the length of the view it is written to. -/
theorem setFieldValue_lgth (v : DataView) (f : CompMsgField) (n : Int) (s : Option Mem)
    (idx : Int) : (setFieldValue v f n s idx).2.lgth = v.lgth := by
  unfold setFieldValue
  cases f.fieldTypeId with
  | int8Vector | uint8Vector =>
    cases s with
    | none => rfl
    | some str => simp only [copyVector]; split <;> rfl
  | none | uint32Vector | int32Vector => rfl
  | int16Vector | uint16Vector =>
    apply setNumber_lgth
    simp only [setInt16, setUint16, put_lgth]
  | int8 | uint8 | int16 | uint16 | int32 | uint32 =>
    apply setNumber_lgth
    split
    · simp only [setInt8, setUint8, setInt16, setUint16, setInt32, setUint32, put_lgth]
    · rfl

theorem fillWords_lgth (width count : Nat) (r : Rand) (v : DataView) (offset : Nat) :
    (fillWords width count r v offset).2.lgth = v.lgth := by
  induction count generalizing r v offset with
  | zero => rfl
  | succ count ih =>
    rw [fillWords]
    exact checkErrOK_lgth _ _ _ (put_lgth v _ _) (fun v' hv => (ih _ v' _).trans hv)

theorem setZeros_lgth (count : Nat) (v : DataView) (offset : Nat) :
    (setZeros count v offset).2.lgth = v.lgth := by
  induction count generalizing v offset with
  | zero => rfl
  | succ count ih =>
    rw [setZeros, setUint8]
    exact checkErrOK_lgth _ _ _ (put_lgth v _ _) (fun v' hv => (ih v' _).trans hv)

theorem setFiller_lgth (r : Rand) (v : DataView) (f : CompMsgField) :
    (setFiller r v f).2.lgth = v.lgth := by
  unfold setFiller
  apply checkErrOK_lgth
  · exact fillWords_lgth _ _ _ _ _
  · intro v4 h4
    apply checkErrOK_lgth
    · exact (fillWords_lgth _ _ _ _ _).trans h4
    · intro v2 h2
      exact (fillWords_lgth _ _ _ _ _).trans h2

end NodeMcu.CompMsg.Fields
