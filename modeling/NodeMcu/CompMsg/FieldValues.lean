import NodeMcu.CompMsg.Accessors
import NodeMcu.CompMsg.Fields
import NodeMcu.CompMsg.UniqueFields

namespace NodeMcu.CompMsg.FieldValues

open NodeMcu.Lib.Memory
open NodeMcu.CompMsg.Codes NodeMcu.CompMsg.View NodeMcu.CompMsg.Fields NodeMcu.CompMsg.MsgDesc
open NodeMcu.CompMsg.DataValues NodeMcu.CompMsg.UniqueFields NodeMcu.CompMsg.Accessors

/-- What `getFieldValue` hands out: the number, and the string if one has been allocated. -/
structure FieldContent where
  numericValue : Int
  stringValue : Option (List UInt8)
  deriving DecidableEq, Repr

/-- The branches of `getFieldValue` that read a number. -/
def getNumber (r : Except CompMsgErr Int) : Ret × FieldContent :=
  match r with
  | .ok n => (.ok, ⟨n, none⟩)
  | .error e => (.error e, ⟨0, none⟩)

/-- The branches that copy a string. The check behind the allocation looks at the pointer to the
pointer, so that the final zero goes through a null pointer if there is no memory. -/
def getString (heap : Bool) (dataView : DataView) (f : CompMsgField) (numericValue : Int) :
    Ret × FieldContent :=
  if heap then
    (.ok, ⟨numericValue,
      some (read dataView.data (toInt f.fieldOffset) f.fieldLgth ++ [0])⟩)
  else (.crash, ⟨numericValue, none⟩)

def getFieldValue (heap : Bool) (dataView : DataView) (f : CompMsgField) (fieldIdx : Int) :
    Ret × FieldContent :=
  let offset := toInt f.fieldOffset
  match f.fieldTypeId with
  | .int8 => getNumber (getInt8 dataView offset)
  | .uint8 => getNumber ((getUint8 dataView offset).map Nat.cast)
  | .int16 => getNumber (getInt16 dataView offset)
  | .uint16 => getNumber ((getUint16 dataView offset).map Nat.cast)
  | .int32 => getNumber (getInt32 dataView offset)
  | .uint32 => getNumber ((getUint32 dataView offset).map toInt)
  | .int8Vector => getString heap dataView f f.fieldLgth
  | .uint8Vector => getString heap dataView f 0
  | .int16Vector => getNumber (getInt16 dataView (offset + fieldIdx * 2))
  | .uint16Vector => getNumber ((getUint16 dataView (offset + fieldIdx * 2)).map Nat.cast)
  | .none | .uint32Vector | .int32Vector => (.error .badFieldType, ⟨0, none⟩)

/-- The field that a description stands for. -/
def describedField (fieldId : Nat) (info : FieldDescInfo) : CompMsgField :=
  ⟨fieldId, info.fieldTypeId, info.fieldLgth, info.fieldOffset⟩

/-- Behind the lookup the function is a second copy of `setFieldValue`. -/
def setIdFieldValue (d : CompMsgMsgDesc) (dataView : DataView) (fieldId : Nat)
    (numericValue : Int) (stringValue : Option Mem) (fieldIdx : Int) : Result × DataView :=
  match d.fieldDescInfos fieldId with
  | none => (.error .fieldNotFound, dataView)
  | some info =>
    setFieldValue dataView (describedField fieldId info) numericValue stringValue fieldIdx

def fieldType : Scalar → FieldType
  | .uint8 => .uint8
  | .int8 => .int8
  | .uint16 => .uint16
  | .int16 => .int16
  | .uint32 => .uint32
  | .int32 => .int32

/-- A value of the C type `int`. -/
abbrev IntValue : Type := { v : Int // -2147483648 ≤ v ∧ v < 2147483648 }

/-- The value fits the type. Every `int` stands for a `uint32`. -/
def Representable : Scalar → Int → Prop
  | .uint32, _ => True
  | s, v => s.lo ≤ v ∧ v < s.hi

/-- The number that stands for the value, for `uint32` modulo `2 ^ 32`. -/
def StandsFor (s : Scalar) (v x : Int) : Prop :=
  x = v ∨ (s = .uint32 ∧ x = v % 4294967296)

/-- A scalar field whose bytes lie in the view. -/
structure ScalarField where
  type : Scalar
  view : DataView
  field : CompMsgField
  lgth_lt : view.lgth < 4294967296
  typed : field.fieldTypeId = fieldType type
  fits : field.fieldOffset + type.width ≤ view.lgth

/-- The description of the types and names says the same as the one of the message. Its offset is a
`uint16_t`. -/
structure Describes (info : FieldDescInfo) (f : CompMsgField) : Prop where
  type : info.fieldTypeId = f.fieldTypeId
  lgth : info.fieldLgth = f.fieldLgth
  offset : info.fieldOffset = f.fieldOffset
  offset_lt : info.fieldOffset < 65536

/-- A value is taken if and only if it fits, and then it is read back; otherwise there is an error
and nothing is written. `set` is how the setter ends, `Gets` what the getter yields behind it. -/
def RoundTrip (s : Scalar) (view : DataView) (v : Int) (set : Result × DataView)
    (Gets : DataView → Int → Prop) : Prop :=
  (set.1 = .ok () ↔ Representable s v) ∧
  (Representable s v → ∃ x, Gets set.2 x ∧ StandsFor s v x) ∧
  (¬ Representable s v → (∃ e, set.1 = .error e) ∧ set.2 = view)

/-- The round trip of both pairs of functions. -/
def ScalarField.Faithful (a : ScalarField) (v : IntValue) : Prop :=
  RoundTrip a.type a.view v.1 (setFieldValue a.view a.field v.1 none 0)
    (fun view x => ∀ heap, getFieldValue heap view a.field 0 = (.ok, ⟨x, none⟩)) ∧
  ∀ (d : CompMsgMsgDesc) (fieldId : Nat) (info : FieldDescInfo),
    d.fieldDescInfos fieldId = some info → Describes info a.field →
    RoundTrip a.type a.view v.1 (setIdFieldValue d a.view fieldId v.1 none 0)
      (fun view x =>
        getIdFieldValue d view fieldId = .ok ⟨.numeric x, info.fieldTypeId, info.fieldLgth⟩)

/-- The values that the range tests judge rightly. -/
def Judged : Scalar → Int → Prop
  | .int8, v => v ≠ -128
  | .uint8, v => 0 ≤ v ∧ v < 256
  | .int16, v => v ≠ -32768 ∧ v ≠ -32767 ∧ v ≠ 32767
  | .uint16, _ => True
  | .int32, v | .uint32, v => v ≠ -2147483648 ∧ v ≠ -2147483647

/-- The range tests of the setters. -/
def Accepts : Scalar → Int → Prop
  | .int8, v => -128 < v ∧ v < 128
  | .uint8, v => 0 ≤ v ∧ v ≤ 256
  | .int16, v => -32767 < v ∧ v < 32767
  | .uint16, v => 0 ≤ v ∧ v ≤ 65535
  | .int32, v | .uint32, v => -0x7FFFFFFF < v ∧ v ≤ 0x7FFFFFFF

instance (s : Scalar) (v : Int) : Decidable (Accepts s v) := by
  cases s <;> exact inferInstanceAs (Decidable (_ ∧ _))

/-- What is returned for a value that is not taken. -/
def refused : Scalar → Result
  | .uint8 => .ok ()
  | _ => .error .valueTooBig

theorem setFieldValue_scalar (s : Scalar) (view : DataView) (f : CompMsgField) (v : Int)
    (ht : f.fieldTypeId = fieldType s) :
    setFieldValue view f v none 0 =
      if Accepts s v then put view (toInt f.fieldOffset) (bigEndian s.width (toSize v))
      else (refused s, view) := by
  unfold setFieldValue
  rw [ht, Int.add_zero]
  cases s <;> rfl

/-- The number that `getFieldValue` makes of a word. -/
def number : Scalar → Nat → Int
  | .uint32, n => toInt n
  | s, n => s.decode n

/-- The number that `getIdFieldValue` makes of it. -/
def idNumber : Scalar → Nat → Int
  | .int8, n => signed 128 n
  | .int16, n => signed 32768 n
  | .int32, n => signed 2147483648 n
  | .uint8, n | .uint16, n | .uint32, n => n

theorem getFieldValue_scalar (s : Scalar) (heap : Bool) (view : DataView) (f : CompMsgField)
    (ht : f.fieldTypeId = fieldType s) :
    getFieldValue heap view f 0 =
      getNumber ((getBytes view (toInt f.fieldOffset) s.width).map (number s)) := by
  unfold getFieldValue
  rw [ht]
  cases s <;> rfl

theorem getIdFieldValue_scalar (s : Scalar) (d : CompMsgMsgDesc) (view : DataView) (fieldId : Nat)
    (info : FieldDescInfo) (hd : d.fieldDescInfos fieldId = some info)
    (ht : info.fieldTypeId = fieldType s) :
    getIdFieldValue d view fieldId =
      (getBytes view info.fieldOffset s.width).map
        fun n => ⟨.numeric (idNumber s n), info.fieldTypeId, info.fieldLgth⟩ := by
  unfold getIdFieldValue
  simp only [hd, ht]
  cases s <;> rfl

theorem signed_eq_bmod (half n : Nat) (h : n < 2 * half) :
    signed half n = Int.bmod n (2 * half) := by
  have hr : (n : Int) % ((2 * half : Nat) : Int) = n := by
    apply Int.emod_eq_of_lt
    · omega
    · omega
  simp only [signed, Int.bmod, hr]
  split
  · omega
  · omega

theorem signed_toSize (half : Nat) (v : Int) (hd : 2 * half ∣ 4294967296) (hlo : -(half : Int) ≤ v)
    (hhi : v < half) : signed half (toSize v % (2 * half)) = v := by
  rw [signed_eq_bmod half _ (Nat.mod_lt _ (by omega))]
  apply Scalar.bmod_toSize v _ hd
  · omega
  · omega

/-- What is stored for a value that fits is read as the value. -/
theorem number_toSize (s : Scalar) (v : IntValue) (h : Representable s v.1) :
    number s (toSize v.1 % s.words) = v.1 := by
  obtain ⟨v, hmin, hmax⟩ := v
  cases s with
  | int8 | int16 | int32 =>
    simp only [Representable, Scalar.lo, Scalar.hi] at h
    simp only [number, Scalar.decode]
    apply Scalar.bmod_toSize v
    · decide
    · simp only [Scalar.words]; omega
    · simp only [Scalar.words]; omega
  | uint8 | uint16 =>
    simp only [Representable, Scalar.lo, Scalar.hi] at h
    simp only [number, Scalar.decode, Scalar.words, toSize]
    omega
  | uint32 =>
    simp only [number, Scalar.words, toSize, toInt]
    omega

theorem idNumber_toSize (s : Scalar) (v : IntValue) (h : Representable s v.1) :
    StandsFor s v.1 (idNumber s (toSize v.1 % s.words)) := by
  obtain ⟨v, hmin, hmax⟩ := v
  cases s with
  | int8 => exact .inl (signed_toSize 128 v (by decide) h.1 h.2)
  | int16 => exact .inl (signed_toSize 32768 v (by decide) h.1 h.2)
  | int32 => exact .inl (signed_toSize 2147483648 v (by decide) h.1 h.2)
  | uint8 | uint16 =>
    simp only [Representable, Scalar.lo, Scalar.hi] at h
    simp only [StandsFor, idNumber, Scalar.words, toSize]
    omega
  | uint32 =>
    simp only [StandsFor, idNumber, Scalar.words, toSize, true_and]
    omega

theorem judged_of_accepts (s : Scalar) (v : Int) (h : Accepts s v) :
    Judged s v ↔ Representable s v := by
  cases s <;>
    simp only [Accepts, Judged, Representable, Scalar.lo, Scalar.hi, true_iff, iff_true] at h ⊢ <;>
    omega

theorem judged_of_not_accepts (s : Scalar) (v : IntValue) (h : ¬ Accepts s v.1) :
    Judged s v.1 ↔ ¬ Representable s v.1 ∧ s ≠ .uint8 := by
  obtain ⟨v, hmin, hmax⟩ := v
  cases s <;>
    simp only [Accepts, Judged, Representable, Scalar.lo, Scalar.hi, ne_eq, reduceCtorEq,
      not_true_eq_false, not_false_eq_true, and_true, and_false, iff_false, true_iff] at h ⊢ <;>
    omega

theorem refused_eq_ok (s : Scalar) : refused s = .ok () ↔ s = .uint8 := by
  cases s <;> simp [refused]

theorem representable_uint8 (v : Int) (h : Representable .uint8 v) : Accepts .uint8 v := by
  simp only [Accepts, Representable, Scalar.lo, Scalar.hi] at h ⊢
  omega

/-- Both setters, seen from the getter: the value comes back exactly where the range test judges
it rightly. -/
theorem set_roundTrip_iff (s : Scalar) (view : DataView) (v : IntValue) (offset : Int)
    (Gets : DataView → Int → Prop) (hok : toSize (offset + (s.width - 1 : Nat)) ≤ view.lgth)
    (hget : Representable s v.1 → ∃ x,
      Gets (put view offset (bigEndian s.width (toSize v.1))).2 x ∧ StandsFor s v.1 x) :
    RoundTrip s view v.1
      (if Accepts s v.1 then put view offset (bigEndian s.width (toSize v.1))
        else (refused s, view)) Gets ↔ Judged s v.1 := by
  by_cases h : Accepts s v.1
  · have hput : (put view offset (bigEndian s.width (toSize v.1))).1 = .ok () := by
      rw [put_of_le]
      rwa [bigEndian_length]
    rw [if_pos h, judged_of_accepts s v.1 h]
    constructor
    · intro hr
      exact hr.1.mp hput
    · intro hr
      exact ⟨iff_of_true hput hr, hget, fun hn => absurd hr hn⟩
  · rw [if_neg h, judged_of_not_accepts s v h]
    constructor
    · rintro ⟨hiff, -, herr⟩
      have hnot : ¬ Representable s v.1 := by
        intro hr
        have hs := (refused_eq_ok s).mp (hiff.mpr hr)
        subst hs
        exact h (representable_uint8 v.1 hr)
      refine ⟨hnot, ?_⟩
      intro hs
      obtain ⟨⟨e, he⟩, -⟩ := herr hnot
      rw [(refused_eq_ok s).mpr hs] at he
      simp at he
    · rintro ⟨hnot, hs⟩
      have hne : refused s ≠ .ok () := fun h => hs ((refused_eq_ok s).mp h)
      refine ⟨iff_of_false hne hnot, fun hr => absurd hr hnot, fun _ => ⟨?_, rfl⟩⟩
      cases s with
      | uint8 => exact absurd rfl hs
      | int8 | uint16 | int16 | uint32 | int32 => exact ⟨.valueTooBig, rfl⟩

namespace ScalarField

variable (a : ScalarField)

theorem offset_le :
    toSize (toInt a.field.fieldOffset + (a.type.width - 1 : Nat)) ≤ a.view.lgth := by
  have hl := a.lgth_lt
  have hf := a.fits
  have hw := a.type.width_pos
  unfold toSize toInt
  split
  · omega
  · omega

/-- The word behind the setter. -/
theorem getBytes_set (v : Int) :
    getBytes (put a.view (toInt a.field.fieldOffset) (bigEndian a.type.width (toSize v))).2
      (toInt a.field.fieldOffset) a.type.width = .ok (toSize v % a.type.words) := by
  rw [getBytes_put_bigEndian a.view _ a.type.width (toSize v) a.offset_le, Scalar.words_eq]

/-- Both setters keep a value exactly where the range test of its type judges it rightly. -/
theorem faithful_iff_judged (v : IntValue) : a.Faithful v ↔ Judged a.type v.1 := by
  have hfield : RoundTrip a.type a.view v.1 (setFieldValue a.view a.field v.1 none 0)
      (fun view x => ∀ heap, getFieldValue heap view a.field 0 = (.ok, ⟨x, none⟩)) ↔
      Judged a.type v.1 := by
    rw [setFieldValue_scalar a.type a.view a.field v.1 a.typed]
    apply set_roundTrip_iff a.type a.view v _ _ a.offset_le
    intro hr
    refine ⟨v.1, ?_, .inl rfl⟩
    intro heap
    rw [getFieldValue_scalar a.type heap _ a.field a.typed, a.getBytes_set]
    simp only [Except.map, getNumber, number_toSize a.type v hr]
  have hid : Judged a.type v.1 → ∀ (d : CompMsgMsgDesc) (fieldId : Nat) (info : FieldDescInfo),
      d.fieldDescInfos fieldId = some info → Describes info a.field →
      RoundTrip a.type a.view v.1 (setIdFieldValue d a.view fieldId v.1 none 0)
        (fun view x => getIdFieldValue d view fieldId =
          .ok ⟨.numeric x, info.fieldTypeId, info.fieldLgth⟩) := by
    intro hj d fieldId info hd hs
    have ht : info.fieldTypeId = fieldType a.type := hs.type.trans a.typed
    have hoff : toInt a.field.fieldOffset = info.fieldOffset := by
      have hlt := hs.offset_lt
      rw [← hs.offset, toInt_of_lt info.fieldOffset (by omega)]
    have hset : setIdFieldValue d a.view fieldId v.1 none 0 =
        setFieldValue a.view (describedField fieldId info) v.1 none 0 := by
      simp only [setIdFieldValue, hd]
    have hplace : (describedField fieldId info).fieldOffset = a.field.fieldOffset := hs.offset
    rw [hset, setFieldValue_scalar a.type a.view (describedField fieldId info) v.1 ht, hplace]
    apply (set_roundTrip_iff a.type a.view v _ _ a.offset_le ?_).mpr hj
    intro hr
    refine ⟨_, ?_, idNumber_toSize a.type v hr⟩
    rw [getIdFieldValue_scalar a.type d _ fieldId info hd ht, ← hoff, a.getBytes_set]
    rfl
  constructor
  · intro h
    exact hfield.mp h.1
  · intro hj
    exact ⟨hfield.mpr hj, hid hj⟩

/-- A field of one byte at the beginning of a view of eight. -/
def byteField : ScalarField :=
  ⟨.uint8, ⟨fun _ => 0, 8⟩, ⟨1, .uint8, 1, 0⟩, by decide, rfl, by decide⟩

theorem byteField_not_faithful : ¬ byteField.Faithful ⟨256, by decide⟩ := by
  rintro ⟨⟨hiff, -⟩, -⟩
  have hr := hiff.mp rfl
  exact absurd hr.2 (by decide)

end ScalarField

end NodeMcu.CompMsg.FieldValues
