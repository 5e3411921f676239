import NodeMcu.CompMsg.FieldValues

namespace NodeMcu.CompMsg.DataFields

open NodeMcu.Lib.Memory
open NodeMcu.CompMsg.Codes NodeMcu.CompMsg.View NodeMcu.CompMsg.Fields
open NodeMcu.CompMsg.TypesAndNames NodeMcu.CompMsg.MsgDesc NodeMcu.CompMsg.Accessors
open NodeMcu.CompMsg.FieldValues

/-- `compMsgField_t` with its key and its flags. -/
structure MsgField extends CompMsgField where
  fieldFlags : Nat
  fieldKeyTypeId : UInt8
  fieldKey : UInt16

/-- `compMsgData_t`, as far as fields are read and set. -/
structure MsgData where
  flags : Nat
  fields : List MsgField
  dataView : DataView
  typesAndNames : CompMsgTypesAndNames

def fieldIsSet : Nat := 1 <<< 0

/-- The key, the access type, the type, the length and the number of values stand in front of a
key value. -/
def keyLgth : Nat := 8

/-- The test of the setter for a key/value field. -/
def isKeyName (fieldName : String) : Bool := fieldName.toList.head? == some '#'

/-- The test of the getter. -/
def hasKeyPrefix (fieldName : String) : Bool := "#key_".toList.isPrefixOf fieldName.toList

/-- The name is looked up without counting, so that the tables stay as they are. -/
def lookUp (d : MsgData) (fieldName : String) : Ret × Option Nat :=
  let r := getFieldNameIdFromStr allocated d.typesAndNames fieldName noIncr
  (r.1, r.2.1)

/-- `fieldInfo2` of `getDataValue`. The length is a `uint16_t`. -/
def valueField (fieldName : String) (f : CompMsgField) : CompMsgField :=
  if hasKeyPrefix fieldName then
    { f with
      fieldOffset := f.fieldOffset + keyLgth
      fieldLgth := (f.fieldLgth + (65536 - keyLgth)) % 65536 }
  else f

/-- Without a field of that name nothing is handed out. -/
def getDataValue (heap : Bool) (d : MsgData) (fieldName : String) : Ret × Option FieldContent :=
  if hasFlag d.flags isInitted then
    match lookUp d fieldName with
    | (.ok, some fieldNameId) =>
      match d.fields.find? fun f => f.fieldNameId == fieldNameId with
      | some f =>
        let r := getFieldValue heap d.dataView (valueField fieldName f.toCompMsgField) 0
        (r.1, some r.2)
      | none => (.ok, none)
    | (r, _) => (r, none)
  else (.error .notYetInitted, none)

def cannotBeSet (fieldNameId : Nat) : Bool :=
  fieldNameId == specFieldTotalLgth || fieldNameId == specFieldCmdLgth ||
  fieldNameId == specFieldFiller || fieldNameId == specFieldCrc ||
  fieldNameId == specFieldRandomNum || fieldNameId == specFieldSequenceNum

/-- The branch of `setDataValue` for a key/value field. Access type, length and number of values
are not written. -/
def setKeyValue (v : DataView) (f : MsgField) (numericValue : Int) (stringValue : Option Mem) :
    Result × DataView :=
  checkErrOK (setUint16 v (toInt f.fieldOffset) f.fieldKey.toNat) fun v =>
  checkErrOK (setUint8 v (toInt (f.fieldOffset + 3)) f.fieldKeyTypeId.toNat) fun v =>
  setFieldValue v f.toCompMsgField numericValue stringValue keyLgth

def setField (fieldName : String) (numericValue : Int) (stringValue : Option Mem) (v : DataView)
    (f : MsgField) : Result × DataView :=
  if isKeyName fieldName then setKeyValue v f numericValue stringValue
  else setFieldValue v f.toCompMsgField numericValue stringValue 0

/-- The loop of `setDataValue`: the fields behind it and how it ends. -/
def setFirst (fieldNameId : Nat) (set : DataView → MsgField → Result × DataView) (v : DataView) :
    List MsgField → Result × List MsgField × DataView
  | [] => (.ok (), [], v)
  | f :: fs =>
    if f.fieldNameId = fieldNameId then
      match set v f with
      | (.ok (), v) => (.ok (), { f with fieldFlags := f.fieldFlags ||| fieldIsSet } :: fs, v)
      | (.error e, v) => (.error e, f :: fs, v)
    else
      let r := setFirst fieldNameId set v fs
      (r.1, f :: r.2.1, r.2.2)

def toRet : Result → Ret
  | .ok _ => .ok
  | .error e => .error e

def setDataValue (d : MsgData) (fieldName : String) (numericValue : Int)
    (stringValue : Option Mem) : Ret × MsgData :=
  if hasFlag d.flags isInitted then
    match lookUp d fieldName with
    | (.ok, some fieldNameId) =>
      if cannotBeSet fieldNameId then (.error .fieldCannotBeSet, d)
      else
        let r := setFirst fieldNameId (setField fieldName numericValue stringValue) d.dataView
          d.fields
        (toRet r.1, { d with fields := r.2.1, dataView := r.2.2 })
    | (r, _) => (r, d)
  else (.error .notYetInitted, d)

/-! ## What is expected -/

/-- A message whose fields lie in its bytes. The offset of a setter is an `int`. -/
structure LaidOut where
  msg : MsgData
  initted : hasFlag msg.flags isInitted = true
  inView : ∀ f ∈ msg.fields, f.fieldOffset + f.fieldLgth ≤ msg.dataView.lgth
  lgth_lt : msg.dataView.lgth < 2147483648

/-- The field with that name. -/
def field (d : MsgData) (fieldName : String) : Option MsgField :=
  match lookUp d fieldName with
  | (.ok, some fieldNameId) => d.fields.find? fun f => f.fieldNameId == fieldNameId
  | _ => none

def Within (f : CompMsgField) (j : Int) : Prop :=
  f.fieldOffset ≤ j ∧ j < f.fieldOffset + f.fieldLgth

/-- The length of the value in the field. -/
def valueLgth (fieldName : String) (f : CompMsgField) : Nat :=
  if isKeyName fieldName then f.fieldLgth - keyLgth else f.fieldLgth

/-- The number that has been set, or as much of the string as the field holds. -/
def IsValue (fieldName : String) (f : CompMsgField) (numericValue : Int)
    (stringValue : Option Mem) (c : FieldContent) : Prop :=
  match stringValue with
  | none => c = ⟨numericValue, none⟩
  | some str => c.stringValue = some (read str 0 (valueLgth fieldName f) ++ [0])

/-- The message with other bytes. -/
def LaidOut.filled (m : LaidOut) (data : Mem) : MsgData :=
  { m.msg with dataView := ⟨data, m.msg.dataView.lgth⟩ }

/-- Whatever the bytes of the message are, a value that is accepted changes no byte outside the
field of that name, and is read back. -/
def LaidOut.Faithful (m : LaidOut) (fieldName : String) (numericValue : IntValue)
    (stringValue : Option Mem) (heap : Bool) : Prop :=
  ∀ data : Mem,
    let r := setDataValue (m.filled data) fieldName numericValue.1 stringValue
    r.1 = .ok →
      (∀ j, (∀ f, field m.msg fieldName = some f → ¬ Within f.toCompMsgField j) →
        r.2.dataView.data j = data j) ∧
      ∀ f, field m.msg fieldName = some f → ∃ c, getDataValue heap r.2 fieldName = (.ok, some c) ∧
        IsValue fieldName f.toCompMsgField numericValue.1 stringValue c

/-- What a field holds. -/
inductive Kind
  /-- A number, the width of a step of the index, and whether its range is tested. -/
  | number (s : Scalar) (unit : Nat) (tested : Bool)
  | bytes
  | unsupported

def kind : FieldType → Kind
  | .int8 => .number .int8 1 true
  | .uint8 => .number .uint8 1 true
  | .int16 => .number .int16 1 true
  | .uint16 => .number .uint16 1 true
  | .int32 => .number .int32 1 true
  | .uint32 => .number .uint32 1 true
  | .int16Vector => .number .int16 2 false
  | .uint16Vector => .number .uint16 2 false
  | .int8Vector | .uint8Vector => .bytes
  | .none | .uint32Vector | .int32Vector => .unsupported

/-- The index with which the setter goes behind the key. -/
def fieldIdx (fieldName : String) : Nat := if isKeyName fieldName then keyLgth else 0

/-- The getter looks where the value has been put. Behind a `#` without `key_` it finds the key
itself. -/
def Found (fieldName : String) (f : MsgField) (s : Scalar) (unit : Nat) (v : Int) : Prop :=
  if isKeyName fieldName then
    if hasKeyPrefix fieldName then unit = 1 ∧ Representable s v
    else s.width ≤ 2 ∧ number s (f.fieldKey.toNat / 256 ^ (2 - s.width)) = v
  else Representable s v

/-- There is no room for the key, so that nothing is accepted. -/
def NoKey (fieldName : String) (lgth : Nat) (f : CompMsgField) : Prop :=
  isKeyName fieldName = true ∧ lgth < f.fieldOffset + 3

/-- A number is refused, or finds its place in the field and is looked for there; a string is the
value of a field without a key. -/
def Kept (fieldName : String) (lgth : Nat) (f : MsgField) (v : Int) (stringValue : Option Mem)
    (heap : Bool) : Prop :=
  match kind f.fieldTypeId, stringValue with
  | .number s unit tested, none =>
    if tested = true ∧ ¬ Accepts s v then s ≠ .uint8 ∨ NoKey fieldName lgth f.toCompMsgField
    else
      lgth < f.fieldOffset + fieldIdx fieldName * unit + s.width - 1 ∨
        (fieldIdx fieldName * unit + s.width ≤ f.fieldLgth ∧ Found fieldName f s unit v)
  | .bytes, some _ =>
    NoKey fieldName lgth f.toCompMsgField ∨ (isKeyName fieldName = false ∧ heap = true)
  | _, _ => True

/-! ## Numbers and strings -/

/-- The kinds of numbers. -/
theorem kind_number (t : FieldType) (s : Scalar) (unit : Nat) (tested : Bool)
    (h : kind t = .number s unit tested) :
    (t = fieldType s ∧ unit = 1 ∧ tested = true) ∨
      (((t = .int16Vector ∧ s = .int16) ∨ (t = .uint16Vector ∧ s = .uint16)) ∧
        unit = 2 ∧ tested = false) := by
  cases t with
  | none | int8Vector | uint8Vector | int32Vector | uint32Vector => cases h
  | int8 | uint8 | int16 | uint16 | int32 | uint32 =>
    cases h
    exact .inl ⟨rfl, rfl, rfl⟩
  | int16Vector =>
    cases h
    exact .inr ⟨.inl ⟨rfl, rfl⟩, rfl, rfl⟩
  | uint16Vector =>
    cases h
    exact .inr ⟨.inr ⟨rfl, rfl⟩, rfl, rfl⟩

section Number

variable (f : CompMsgField) (s : Scalar) (unit : Nat) (tested : Bool)
  (h : kind f.fieldTypeId = .number s unit tested)

include h

theorem unit_cases : unit = 1 ∨ (unit = 2 ∧ s.width = 2) := by
  obtain ⟨-, hunit, -⟩ | ⟨⟨-, rfl⟩ | ⟨-, rfl⟩, hunit, -⟩ := kind_number _ _ _ _ h
  · exact .inl hunit
  · exact .inr ⟨hunit, rfl⟩
  · exact .inr ⟨hunit, rfl⟩

theorem setFieldValue_number (v : DataView) (n idx : Int) :
    setFieldValue v f n none idx =
      if tested = true ∧ ¬ Accepts s n then (refused s, v)
      else put v (toInt f.fieldOffset + idx * unit) (bigEndian s.width (toSize n)) := by
  obtain ⟨ht, rfl, rfl⟩ | ⟨⟨ht, rfl⟩ | ⟨ht, rfl⟩, rfl, rfl⟩ := kind_number _ _ _ _ h
  · simp only [true_and, Nat.cast_one, Int.mul_one, ite_not]
    unfold setFieldValue
    rw [ht]
    cases s <;> rfl
  · rw [setFieldValue, ht]
    rfl
  · rw [setFieldValue, ht]
    rfl

theorem getFieldValue_number (heap : Bool) (v : DataView) :
    getFieldValue heap v f 0 =
      getNumber ((getBytes v (toInt f.fieldOffset) s.width).map (number s)) := by
  obtain ⟨ht, -⟩ | ⟨⟨ht, rfl⟩ | ⟨ht, rfl⟩, -⟩ := kind_number _ _ _ _ h
  · exact getFieldValue_scalar s heap v f ht
  · rw [getFieldValue, ht]
    simp only [Int.zero_mul, Int.add_zero]
    rfl
  · rw [getFieldValue, ht]
    simp only [Int.zero_mul, Int.add_zero]
    rfl

end Number

theorem setFieldValue_bytes (v : DataView) (f : CompMsgField) (n idx : Int) (str : Option Mem)
    (h : kind f.fieldTypeId = .bytes) :
    setFieldValue v f n str idx = copyVector v f str idx := by
  cases ht : f.fieldTypeId <;> rw [ht] at h <;> cases h
  all_goals
    rw [setFieldValue, ht]

theorem getFieldValue_bytes (heap : Bool) (v : DataView) (f : CompMsgField)
    (h : kind f.fieldTypeId = .bytes) :
    ∃ n, getFieldValue heap v f 0 = getString heap v f n := by
  cases ht : f.fieldTypeId <;> rw [ht] at h <;> cases h
  all_goals
    rw [getFieldValue, ht]
    exact ⟨_, rfl⟩

/-- A string for a number, no string for a string, or a type that is not supported. -/
def Mismatched (k : Kind) (str : Option Mem) : Prop :=
  match k, str with
  | .number _ _ _, none => False
  | .bytes, some _ => False
  | _, _ => True

theorem setFieldValue_mismatched (v : DataView) (f : CompMsgField) (n idx : Int)
    (str : Option Mem) (h : Mismatched (kind f.fieldTypeId) str) :
    (setFieldValue v f n str idx).1 ≠ .ok () := by
  unfold setFieldValue
  cases ht : f.fieldTypeId <;> cases str <;> rw [ht] at h <;>
    simp only [kind, Mismatched] at h <;> simp [setNumber, copyVector]

/-- The numbers that a word is read as are those of the type. -/
theorem number_representable (s : Scalar) (n : Nat) (h : n < s.words) :
    Representable s (number s n) := by
  cases s with
  | uint32 => trivial
  | uint8 | uint16 =>
    simp only [Scalar.words] at h
    simp only [Representable, number, Scalar.decode, Scalar.lo, Scalar.hi]
    omega
  | int8 | int16 | int32 =>
    simp only [Representable, number, Scalar.decode, Scalar.lo, Scalar.hi, Scalar.words]
    constructor
    · apply Int.le_trans _ (Int.le_bmod (by decide))
      decide
    · apply Int.lt_of_lt_of_le (Int.bmod_lt (by decide))
      decide

/-- What is stored for a value is read as the value if it fits. -/
theorem number_stored (s : Scalar) (v : IntValue) :
    number s (toSize v.1 % s.words) = v.1 ↔ Representable s v.1 := by
  constructor
  · intro h
    rw [← h]
    apply number_representable
    apply Nat.mod_lt
    cases s <;> decide
  · exact number_toSize s v

theorem number_inj (s : Scalar) (m n : Nat) (hm : m < s.words) (hn : n < s.words)
    (h : number s m = number s n) : m = n := by
  cases s with
  | uint8 | uint16 =>
    simp only [number, Scalar.decode] at h
    omega
  | uint32 =>
    simp only [Scalar.words] at hm hn
    simp only [number, toInt] at h
    split at h <;> split at h <;> omega
  | int8 | int16 | int32 =>
    simp only [Scalar.words] at hm hn
    simp only [number, Scalar.decode, Scalar.words] at h
    rw [Int.bmod_eq_bmod_iff_bmod_sub_eq_zero] at h
    have hdvd := Int.dvd_of_bmod_eq_zero h
    omega

/-! ## One field -/

theorem toSize_toInt_add (n k : Nat) (h : n + k < 4294967296) : toSize (toInt n + k) = n + k := by
  unfold toSize toInt
  split
  · omega
  · omega

/-- The bytes behind the key, where the field has one. -/
def withKey (fieldName : String) (f : MsgField) (data : Mem) : Mem :=
  if isKeyName fieldName then
    write (write data f.fieldOffset (bigEndian 2 f.fieldKey.toNat)) (f.fieldOffset + 3)
      (bigEndian 1 f.fieldKeyTypeId.toNat)
  else data

/-- What is expected of the field, whatever the bytes of the message are. -/
def FieldFaithful (fieldName : String) (lgth : Nat) (f : MsgField) (v : IntValue)
    (str : Option Mem) (heap : Bool) : Prop :=
  ∀ data : Mem,
    let r := setField fieldName v.1 str ⟨data, lgth⟩ f
    r.1 = .ok () →
      (∀ j, ¬ Within f.toCompMsgField j → r.2.data j = data j) ∧
      ∃ c, getFieldValue heap r.2 (valueField fieldName f.toCompMsgField) 0 = (.ok, c) ∧
        IsValue fieldName f.toCompMsgField v.1 str c

theorem fieldFaithful_of_ne (fieldName : String) (lgth : Nat) (f : MsgField) (v : IntValue)
    (str : Option Mem) (heap : Bool)
    (h : ∀ data, (setField fieldName v.1 str ⟨data, lgth⟩ f).1 ≠ .ok ()) :
    FieldFaithful fieldName lgth f v str heap := by
  intro data r hr
  exact absurd hr (h data)

/-- A byte outside that is the same for all bytes of the message is not kept for all of them. -/
theorem not_fieldFaithful (fieldName : String) (lgth : Nat) (f : MsgField) (v : IntValue)
    (str : Option Mem) (heap : Bool) (after : Mem → Mem)
    (hset : ∀ data, setField fieldName v.1 str ⟨data, lgth⟩ f = (.ok (), ⟨after data, lgth⟩))
    (j : Int) (b : UInt8) (hj : ¬ Within f.toCompMsgField j) (hb : ∀ data, after data j = b) :
    ¬ FieldFaithful fieldName lgth f v str heap := by
  intro h
  have hkept := (h (fun _ => b + 1) (by rw [hset])).1 j hj
  rw [hset] at hkept
  have hne : b ≠ b + 1 := by simp
  exact hne ((hb _).symm.trans hkept)

theorem withKey_outside (fieldName : String) (f : MsgField) (data : Mem) (j : Int)
    (h : j < f.fieldOffset ∨ (f.fieldOffset : Int) + 4 ≤ j ∨ isKeyName fieldName = false) :
    withKey fieldName f data j = data j := by
  unfold withKey
  split
  · rename_i hkey
    have hlt : j < f.fieldOffset ∨ (f.fieldOffset : Int) + 4 ≤ j := by
      simpa [hkey] using h
    cases hlt with
    | inl hlt => rw [write_of_lt _ _ _ _ (by omega), write_of_lt _ _ _ _ hlt]
    | inr hge =>
      rw [write_of_ge _ _ _ _ (by simp; omega), write_of_ge _ _ _ _ (by simp; omega)]
  · rfl

section Field

variable (fieldName : String) (f : MsgField) (lgth : Nat)
  (hview : f.fieldOffset + f.fieldLgth ≤ lgth) (hlgth : lgth < 2147483648)

include hview hlgth

theorem setField_of_noKey (h : NoKey fieldName lgth f.toCompMsgField) (n : Int)
    (str : Option Mem) (data : Mem) : (setField fieldName n str ⟨data, lgth⟩ f).1 ≠ .ok () := by
  obtain ⟨hkey, hroom⟩ := h
  rw [setField, if_pos hkey, setKeyValue, setUint16]
  by_cases h1 : lgth < f.fieldOffset + 1
  · rw [put_of_gt]
    · simp
    · rw [bigEndian_length, toSize_toInt_add _ _ (by omega)]
      exact h1
  · rw [put_of_le, checkErrOK_ok, setUint8, put_of_gt]
    · simp
    · have h3 := toSize_toInt_add (f.fieldOffset + 3) 0 (by omega)
      simp only [bigEndian_length, Nat.sub_self]
      omega
    · rw [bigEndian_length, toSize_toInt_add _ _ (by omega)]
      exact Nat.le_of_not_lt h1

/-- With room for the key the setter goes on behind it. -/
theorem setField_of_room (h : ¬ NoKey fieldName lgth f.toCompMsgField) (n : Int)
    (str : Option Mem) (data : Mem) :
    setField fieldName n str ⟨data, lgth⟩ f =
      setFieldValue ⟨withKey fieldName f data, lgth⟩ f.toCompMsgField n str
        (fieldIdx fieldName) := by
  unfold setField withKey fieldIdx
  by_cases hkey : isKeyName fieldName
  · have hroom : f.fieldOffset + 3 ≤ lgth := by
      apply Nat.le_of_not_lt
      intro hlt
      exact h ⟨hkey, hlt⟩
    rw [if_pos hkey, if_pos hkey, if_pos hkey, setKeyValue, setUint16, put_of_le, checkErrOK_ok,
      setUint8, put_of_le, checkErrOK_ok, toInt_of_lt _ (by omega), toInt_of_lt _ (by omega)]
    · rfl
    · have h3 := toSize_toInt_add (f.fieldOffset + 3) 0 (by omega)
      simp only [bigEndian_length, Nat.sub_self]
      omega
    · rw [bigEndian_length, toSize_toInt_add _ _ (by omega)]
      show f.fieldOffset + 1 ≤ lgth
      omega
  · rw [if_neg hkey, if_neg hkey, if_neg hkey]
    rfl

end Field

theorem isKeyName_of_hasKeyPrefix (fieldName : String) (h : hasKeyPrefix fieldName = true) :
    isKeyName fieldName = true := by
  unfold hasKeyPrefix at h
  unfold isKeyName
  cases hn : fieldName.toList with
  | nil =>
    rw [hn] at h
    simp at h
  | cons c cs =>
    rw [hn] at h
    simp [List.isPrefixOf] at h
    simp [← h.1]

theorem hasKeyPrefix_of_not_isKeyName (fieldName : String) (h : ¬ isKeyName fieldName = true) :
    ¬ hasKeyPrefix fieldName = true :=
  fun hp => h (isKeyName_of_hasKeyPrefix fieldName hp)

end NodeMcu.CompMsg.DataFields
