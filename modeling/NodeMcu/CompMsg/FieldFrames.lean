import NodeMcu.CompMsg.DataFields
import NodeMcu.CompMsg.Tiling

namespace NodeMcu.CompMsg.FieldFrames

open NodeMcu.Lib.Memory NodeMcu.Lib.Intervals
open NodeMcu.CompMsg.Codes NodeMcu.CompMsg.View NodeMcu.CompMsg.Fields NodeMcu.CompMsg.Layout
open NodeMcu.CompMsg.TypesAndNames NodeMcu.CompMsg.Accessors
open NodeMcu.CompMsg.FieldValues NodeMcu.CompMsg.Tiling NodeMcu.CompMsg.DataFields

/-! ## Numbers -/

/-- Where a number is put. -/
def place (fieldName : String) (f : CompMsgField) (unit : Nat) : Nat :=
  f.fieldOffset + fieldIdx fieldName * unit

/-- The bytes behind a number. -/
def stored (fieldName : String) (f : MsgField) (s : Scalar) (unit : Nat) (v : Int) (data : Mem) :
    Mem :=
  write (withKey fieldName f data) (place fieldName f.toCompMsgField unit)
    (bigEndian s.width (toSize v))

/-- The word that the getter reads. -/
def word (fieldName : String) (f : CompMsgField) (s : Scalar) (data : Mem) : Nat :=
  ofBigEndian (read data (valueField fieldName f).fieldOffset s.width)

/-- A word in front of the number and behind the key holds what it has held. -/
theorem word_stored_before (fieldName : String) (f : MsgField) (s : Scalar) (unit : Nat) (v : Int)
    (data : Mem) (hkey : hasKeyPrefix fieldName = true)
    (hp : f.fieldOffset + keyLgth + s.width ≤ place fieldName f.toCompMsgField unit) :
    word fieldName f.toCompMsgField s (stored fieldName f s unit v data) =
      ofBigEndian (read data (f.fieldOffset + keyLgth : Nat) s.width) := by
  have hplace : (valueField fieldName f.toCompMsgField).fieldOffset = f.fieldOffset + keyLgth := by
    rw [valueField, if_pos hkey]
  rw [word, hplace, stored, read_write_before _ _ _ _ _ (by omega)]
  congr 1
  apply read_congr
  intro k hk
  apply withKey_outside
  simp only [keyLgth]
  omega

/-- The word that is read where the number has been put. -/
theorem word_stored (fieldName : String) (f : MsgField) (s : Scalar) (unit : Nat) (v : Int)
    (data : Mem)
    (hp : (valueField fieldName f.toCompMsgField).fieldOffset =
      place fieldName f.toCompMsgField unit) :
    word fieldName f.toCompMsgField s (stored fieldName f s unit v data) =
      toSize v % s.words := by
  have hread := read_write (withKey fieldName f data)
    (place fieldName f.toCompMsgField unit : Nat) (bigEndian s.width (toSize v))
  rw [bigEndian_length] at hread
  rw [word, hp, stored, hread, ofBigEndian_bigEndian, Scalar.words_eq]

/-- A word of bytes of the message is not one number. -/
theorem not_forall_number (s : Scalar) (i : Int) (k : Nat) (hk : k < s.width) (v : Int)
    (m : Mem → Mem) (hm : ∀ data, m data (i + k) = data (i + k)) :
    ¬ ∀ data, number s (ofBigEndian (read (m data) i s.width)) = v := by
  intro h
  have hlt : ∀ data, ofBigEndian (read (m data) i s.width) < s.words := by
    intro data
    have hb := ofBigEndian_lt (read (m data) i s.width)
    rwa [read_length, Scalar.words_eq] at hb
  have heq := number_inj s _ _ (hlt fun _ => 0) (hlt fun _ => 1)
    ((h fun _ => 0).trans (h fun _ => 1).symm)
  have hread := ofBigEndian_inj _ _ (by simp) heq
  have hbyte : m (fun _ => 0) (i + k) = m (fun _ => 1) (i + k) := by
    have hget := congrArg (fun bs => bs[k]?) hread
    simpa [read_getElem? _ i hk] using hget
  rw [hm, hm] at hbyte
  exact absurd hbyte (by decide)

/-- The beginning of the key, which is what the getter finds behind a `#` without `key_`. -/
theorem read_key (fieldName : String) (f : MsgField) (s : Scalar) (data : Mem)
    (hkey : isKeyName fieldName = true) (hw : s.width ≤ 2) :
    ofBigEndian (read (withKey fieldName f data) f.fieldOffset s.width) =
      f.fieldKey.toNat / 256 ^ (2 - s.width) := by
  have hlt := f.fieldKey.toNat_lt
  have hread := read_write data f.fieldOffset (bigEndian 2 f.fieldKey.toNat)
  rw [bigEndian_length] at hread
  rw [withKey, if_pos hkey, read_write_before _ _ _ _ _ (by omega), ← read_take _ _ hw, hread]
  cases s with
  | uint8 | int8 =>
    simp only [Scalar.width, bigEndian, List.take_succ_cons, List.take_zero, ofBigEndian,
      List.foldl_cons, List.foldl_nil, UInt8.toNat_ofNat']
    omega
  | uint16 | int16 =>
    rw [List.take_of_length_le (by simp [Scalar.width]), ofBigEndian_bigEndian]
    simp only [Scalar.width]
    omega
  | uint32 | int32 => simp [Scalar.width] at hw

theorem withKey_access (fieldName : String) (f : MsgField) (data : Mem) :
    withKey fieldName f data (f.fieldOffset + 2) = data (f.fieldOffset + 2) := by
  unfold withKey
  split
  · rw [write_of_lt _ _ _ _ (by omega), write_of_ge _ _ _ _ (by simp)]
  · rfl

/-- The getter finds the number if and only if it looks where it has been put, or the key happens
to be the number. -/
theorem found_iff (fieldName : String) (f : MsgField) (s : Scalar) (unit : Nat) (v : IntValue)
    (hunit : unit = 1 ∨ (unit = 2 ∧ s.width = 2)) :
    Found fieldName f s unit v.1 ↔
      ∀ data, number s (word fieldName f.toCompMsgField s
        (stored fieldName f s unit v.1 data)) = v.1 := by
  have hsame : (valueField fieldName f.toCompMsgField).fieldOffset =
      place fieldName f.toCompMsgField unit →
      ((∀ data, number s (word fieldName f.toCompMsgField s
        (stored fieldName f s unit v.1 data)) = v.1) ↔ Representable s v.1) := by
    intro hp
    simp only [word_stored fieldName f s unit v.1 _ hp, number_stored, forall_const]
  by_cases hkey : isKeyName fieldName = true
  · by_cases hprefix : hasKeyPrefix fieldName = true
    · rw [Found, if_pos hkey, if_pos hprefix]
      obtain rfl | ⟨rfl, hw⟩ := hunit
      · rw [hsame (by simp [valueField, hprefix, place, fieldIdx, hkey])]
        exact and_iff_right rfl
      · have hp : f.fieldOffset + keyLgth + s.width ≤ place fieldName f.toCompMsgField 2 := by
          simp only [place, fieldIdx, hkey, if_true, keyLgth]
          omega
        apply iff_of_false
        · rintro ⟨h, -⟩
          cases h
        · simp only [word_stored_before fieldName f s 2 v.1 _ hprefix hp]
          exact not_forall_number s _ 0 s.width_pos v.1 id fun _ => rfl
    · have hp : f.fieldOffset + s.width ≤ place fieldName f.toCompMsgField unit := by
        have hw : s.width ≤ 4 := by cases s <;> decide
        simp only [place, fieldIdx, hkey, if_true, keyLgth]
        omega
      have hword : ∀ data, word fieldName f.toCompMsgField s
          (stored fieldName f s unit v.1 data) =
          ofBigEndian (read (withKey fieldName f data) f.fieldOffset s.width) := by
        intro data
        rw [word, valueField, if_neg hprefix, stored, read_write_before _ _ _ _ _ (by omega)]
      rw [Found, if_pos hkey, if_neg hprefix]
      simp only [hword]
      by_cases hw : s.width ≤ 2
      · simp only [read_key fieldName f s _ hkey hw, forall_const]
        exact and_iff_right hw
      · apply iff_of_false
        · exact fun h => hw h.1
        · exact not_forall_number s _ 2 (Nat.lt_of_not_le hw) v.1 (withKey fieldName f)
            (withKey_access fieldName f)
  · have hprefix := hasKeyPrefix_of_not_isKeyName fieldName hkey
    rw [Found, if_neg hkey]
    exact (hsame (by simp [valueField, hprefix, place, fieldIdx, hkey])).symm

section Number

variable (fieldName : String) (f : MsgField) (s : Scalar) (unit : Nat) (tested : Bool)
  (hkind : kind f.fieldTypeId = .number s unit tested)

include hkind

/-- The getter does not look behind the place of the number. -/
theorem valueField_le_place :
    (valueField fieldName f.toCompMsgField).fieldOffset ≤
      place fieldName f.toCompMsgField unit := by
  unfold valueField place fieldIdx
  split
  · rename_i hprefix
    rw [if_pos (isKeyName_of_hasKeyPrefix fieldName hprefix)]
    obtain rfl | ⟨rfl, -⟩ := unit_cases _ _ _ _ hkind
    · simp
    · simp only [keyLgth]
      omega
  · exact Nat.le_add_right _ _

/-- A number that lies in the field leaves the bytes outside alone. -/
theorem stored_outside (hfit : fieldIdx fieldName * unit + s.width ≤ f.fieldLgth) (v : Int)
    (data : Mem) (j : Int) (hj : ¬ Within f.toCompMsgField j) :
    stored fieldName f s unit v data j = data j := by
  have hout : j < f.fieldOffset ∨ (f.fieldOffset : Int) + f.fieldLgth ≤ j := by
    simp only [Within] at hj
    omega
  have hkey : withKey fieldName f data j = data j := by
    apply withKey_outside
    by_cases hkey : isKeyName fieldName
    · have hunit : 1 ≤ unit := by
        obtain rfl | ⟨rfl, -⟩ := unit_cases _ _ _ _ hkind <;> decide
      have hle : keyLgth * 1 ≤ keyLgth * unit := Nat.mul_le_mul_left _ hunit
      simp only [fieldIdx, hkey, if_true] at hfit
      simp only [keyLgth] at hfit hle
      omega
    · exact .inr (.inr (by simpa using hkey))
  rw [stored]
  cases hout with
  | inl hlt => rw [write_of_lt _ _ _ _ (by simp only [place]; omega), hkey]
  | inr hge =>
    rw [write_of_ge, hkey]
    rw [bigEndian_length]
    simp only [place]
    push_cast
    omega

variable (lgth : Nat) (hlgth : lgth < 2147483648)

include hlgth

theorem getFieldValue_word (heap : Bool) (data : Mem)
    (hroom : (valueField fieldName f.toCompMsgField).fieldOffset + (s.width - 1) ≤ lgth) :
    getFieldValue heap ⟨data, lgth⟩ (valueField fieldName f.toCompMsgField) 0 =
      (.ok, ⟨number s (word fieldName f.toCompMsgField s data), none⟩) := by
  have htype : (valueField fieldName f.toCompMsgField).fieldTypeId = f.fieldTypeId := by
    unfold valueField
    split <;> rfl
  rw [getFieldValue_number _ s unit tested (htype ▸ hkind), getBytes_of_le,
    toInt_of_lt _ (by omega)]
  · rfl
  · rw [toSize_toInt_add _ _ (by omega)]
    exact hroom

variable (hview : f.fieldOffset + f.fieldLgth ≤ lgth) (v : IntValue)

include hview

/-- A number that is not refused goes to its place. -/
theorem setField_put (htest : ¬ (tested = true ∧ ¬ Accepts s v.1))
    (hkey : ¬ NoKey fieldName lgth f.toCompMsgField) (data : Mem) :
    setField fieldName v.1 none ⟨data, lgth⟩ f =
      put ⟨withKey fieldName f data, lgth⟩ (place fieldName f.toCompMsgField unit : Nat)
        (bigEndian s.width (toSize v.1)) := by
  have hoff : (toInt f.fieldOffset + (fieldIdx fieldName : Int) * unit) =
      (place fieldName f.toCompMsgField unit : Nat) := by
    rw [toInt_of_lt _ (by omega), place]
    push_cast
    rfl
  rw [setField_of_room fieldName f lgth hview hlgth hkey,
    setFieldValue_number f.toCompMsgField s unit tested hkind, if_neg htest, hoff]

theorem setField_stored (htest : ¬ (tested = true ∧ ¬ Accepts s v.1))
    (hroom : ¬ lgth < place fieldName f.toCompMsgField unit + s.width - 1) (data : Mem) :
    setField fieldName v.1 none ⟨data, lgth⟩ f =
      (.ok (), ⟨stored fieldName f s unit v.1 data, lgth⟩) := by
  have hw := s.width_pos
  have hkey : ¬ NoKey fieldName lgth f.toCompMsgField := by
    rintro ⟨hkey, hlt⟩
    have hpos : 1 ≤ unit := by
      obtain rfl | ⟨rfl, -⟩ := unit_cases _ _ _ _ hkind <;> decide
    have hle : keyLgth * 1 ≤ keyLgth * unit := Nat.mul_le_mul_left _ hpos
    simp only [place, fieldIdx, hkey, if_true] at hroom
    simp only [keyLgth] at hroom hle
    omega
  rw [setField_put fieldName f s unit tested hkind lgth hlgth hview v htest hkey, put_of_le]
  · rfl
  · rw [bigEndian_length, ← Nat.cast_add, toSize_natCast _ (by omega)]
    simp only
    omega

/-- Where there is no room for the number, it is not accepted. -/
theorem setField_noRoom (htest : ¬ (tested = true ∧ ¬ Accepts s v.1))
    (hroom : lgth < place fieldName f.toCompMsgField unit + s.width - 1) (data : Mem) :
    (setField fieldName v.1 none ⟨data, lgth⟩ f).1 ≠ .ok () := by
  by_cases hkey : NoKey fieldName lgth f.toCompMsgField
  · exact setField_of_noKey fieldName f lgth hview hlgth hkey v.1 none data
  · have hpos := s.width_pos
    have hw : s.width ≤ 4 := by cases s <;> decide
    have hle : place fieldName f.toCompMsgField unit ≤ f.fieldOffset + 16 := by
      simp only [place, fieldIdx, keyLgth]
      obtain rfl | ⟨rfl, -⟩ := unit_cases _ _ _ _ hkind <;> split <;> omega
    rw [setField_put fieldName f s unit tested hkind lgth hlgth hview v htest hkey, put_of_gt]
    · simp
    · rw [bigEndian_length, ← Nat.cast_add, toSize_natCast _ (by omega)]
      simp only
      omega

/-- A number that is not refused is kept if it lies in the field and is looked for there. -/
theorem fieldFaithful_number (heap : Bool) (htest : ¬ (tested = true ∧ ¬ Accepts s v.1)) :
    FieldFaithful fieldName lgth f v none heap ↔
      lgth < place fieldName f.toCompMsgField unit + s.width - 1 ∨
        (fieldIdx fieldName * unit + s.width ≤ f.fieldLgth ∧ Found fieldName f s unit v.1) := by
  have hpos := s.width_pos
  by_cases hroom : lgth < place fieldName f.toCompMsgField unit + s.width - 1
  · apply iff_of_true _ (.inl hroom)
    apply fieldFaithful_of_ne
    exact setField_noRoom fieldName f s unit tested hkind lgth hlgth hview v htest hroom
  have hset := setField_stored fieldName f s unit tested hkind lgth hlgth hview v htest hroom
  have hvalue := valueField_le_place fieldName f s unit tested hkind
  have hget := fun data => getFieldValue_word fieldName f s unit tested hkind lgth hlgth heap
    (stored fieldName f s unit v.1 data) (by omega)
  rw [or_iff_right hroom, found_iff fieldName f s unit v (unit_cases _ _ _ _ hkind)]
  constructor
  · intro h
    constructor
    · by_contra hfit
      have hj : ¬ Within f.toCompMsgField
          ((place fieldName f.toCompMsgField unit : Nat) + (s.width - 1 : Nat)) := by
        simp only [Within, place]
        push_cast
        omega
      have hlast := fun data => write_at (withKey fieldName f data)
        (place fieldName f.toCompMsgField unit : Nat) (bigEndian s.width (toSize v.1))
        (s.width - 1) (by rw [bigEndian_length]; omega)
      exact not_fieldFaithful fieldName lgth f v none heap _ hset _ _ hj hlast h
    · intro data
      obtain ⟨c, hc, hv⟩ := (h data (by rw [hset])).2
      rw [hset, hget] at hc
      rw [← (Prod.mk.inj hc).2] at hv
      exact congrArg FieldContent.numericValue hv
  · rintro ⟨hfit, hfound⟩ data r hr
    simp only [r, hset]
    refine ⟨?_, _, hget data, ?_⟩
    · exact stored_outside fieldName f s unit tested hkind hfit v.1 data
    · simp only [IsValue, hfound data]

/-- A number that is refused without an error is not there. -/
theorem fieldFaithful_refused (heap : Bool) (htest : tested = true ∧ ¬ Accepts s v.1) :
    FieldFaithful fieldName lgth f v none heap ↔
      s ≠ .uint8 ∨ NoKey fieldName lgth f.toCompMsgField := by
  by_cases hkey : NoKey fieldName lgth f.toCompMsgField
  · apply iff_of_true _ (.inr hkey)
    apply fieldFaithful_of_ne
    exact setField_of_noKey fieldName f lgth hview hlgth hkey v.1 none
  have hset : ∀ data, setField fieldName v.1 none ⟨data, lgth⟩ f =
      (refused s, ⟨withKey fieldName f data, lgth⟩) := by
    intro data
    rw [setField_of_room fieldName f lgth hview hlgth hkey,
      setFieldValue_number f.toCompMsgField s unit tested hkind, if_pos htest]
  rw [or_iff_left hkey]
  constructor
  · rintro h rfl
    obtain ⟨c, hc, hv⟩ := (h (fun _ => 0) (by rw [hset]; rfl)).2
    have htype : (valueField fieldName f.toCompMsgField).fieldTypeId = f.fieldTypeId := by
      unfold valueField
      split <;> rfl
    rw [hset, getFieldValue_number _ .uint8 unit tested (htype ▸ hkind)] at hc
    unfold getBytes at hc
    split at hc
    · simp [Except.map, getNumber] at hc
    · have hlt := ofBigEndian_lt (read (withKey fieldName f fun _ => 0)
        (toInt (valueField fieldName f.toCompMsgField).fieldOffset) 1)
      rw [read_length] at hlt
      rw [← (Prod.mk.inj hc).2] at hv
      have hnum := congrArg FieldContent.numericValue hv
      apply htest.2
      simp only [Scalar.width, number, Scalar.decode] at hnum
      simp only [Accepts, ← hnum]
      omega
  · intro hs
    apply fieldFaithful_of_ne
    intro data
    rw [hset]
    exact fun hok => hs ((refused_eq_ok s).mp hok)

end Number

/-! ## Strings -/

section Bytes

variable (fieldName : String) (f : MsgField) (lgth : Nat)
  (hview : f.fieldOffset + f.fieldLgth ≤ lgth) (hlgth : lgth < 2147483648)
  (hkind : kind f.fieldTypeId = .bytes) (v : IntValue) (str : Mem)

include hview hlgth hkind

theorem setField_bytes (hkey : ¬ NoKey fieldName lgth f.toCompMsgField) (data : Mem) :
    setField fieldName v.1 (some str) ⟨data, lgth⟩ f =
      (.ok (), ⟨write (withKey fieldName f data) (f.fieldOffset + fieldIdx fieldName : Nat)
        (read str 0 f.fieldLgth), lgth⟩) := by
  rw [setField_of_room fieldName f lgth hview hlgth hkey,
    setFieldValue_bytes _ f.toCompMsgField _ _ _ hkind]
  simp only [copyVector, Nat.not_lt.mpr hview, if_false]
  rw [toInt_of_lt _ (by omega), Nat.cast_add]

/-- The whole string is copied behind the key, so that it does not end with the field. -/
theorem not_fieldFaithful_bytes (heap : Bool) (hkey : isKeyName fieldName = true)
    (hroom : ¬ NoKey fieldName lgth f.toCompMsgField) :
    ¬ FieldFaithful fieldName lgth f v (some str) heap := by
  have hset := setField_bytes fieldName f lgth hview hlgth hkind v str hroom
  have hidx : fieldIdx fieldName = keyLgth := by
    rw [fieldIdx, if_pos hkey]
  rw [hidx] at hset
  by_cases hl : f.fieldLgth = 0
  · have hj : ¬ Within f.toCompMsgField (f.fieldOffset : Int) := by
      simp only [Within]
      omega
    apply not_fieldFaithful fieldName lgth f v (some str) heap _ hset _
      ((bigEndian 2 f.fieldKey.toNat).getD 0 0) hj
    intro data
    rw [write_of_lt _ _ _ _ (by simp only [keyLgth]; omega), withKey, if_pos hkey,
      write_of_lt _ _ _ _ (by omega)]
    exact write_at data f.fieldOffset (bigEndian 2 f.fieldKey.toNat) 0 (by simp)
  · have hj : ¬ Within f.toCompMsgField
        ((f.fieldOffset + keyLgth : Nat) + (f.fieldLgth - 1 : Nat)) := by
      simp only [Within, keyLgth]
      omega
    apply not_fieldFaithful fieldName lgth f v (some str) heap _ hset _
      ((read str 0 f.fieldLgth).getD (f.fieldLgth - 1) 0) hj
    intro data
    exact write_at _ _ _ (f.fieldLgth - 1) (by rw [read_length]; omega)

theorem fieldFaithful_bytes (heap : Bool) :
    FieldFaithful fieldName lgth f v (some str) heap ↔
      NoKey fieldName lgth f.toCompMsgField ∨ (isKeyName fieldName = false ∧ heap = true) := by
  by_cases hroom : NoKey fieldName lgth f.toCompMsgField
  · apply iff_of_true _ (.inl hroom)
    apply fieldFaithful_of_ne
    exact setField_of_noKey fieldName f lgth hview hlgth hroom v.1 (some str)
  rw [or_iff_right hroom]
  by_cases hkey : isKeyName fieldName = true
  · apply iff_of_false
    · exact not_fieldFaithful_bytes fieldName f lgth hview hlgth hkind v str heap hkey hroom
    · simp [hkey]
  have hset := setField_bytes fieldName f lgth hview hlgth hkind v str hroom
  have hidx : fieldIdx fieldName = 0 := by
    rw [fieldIdx, if_neg hkey]
  have hvalue : valueField fieldName f.toCompMsgField = f.toCompMsgField := by
    rw [valueField, if_neg (hasKeyPrefix_of_not_isKeyName fieldName hkey)]
  simp only [hidx, Nat.add_zero] at hset
  rw [and_iff_right (by simpa using hkey)]
  constructor
  · intro h
    obtain ⟨c, hc, -⟩ := (h (fun _ => 0) (by rw [hset])).2
    obtain ⟨n, hn⟩ := getFieldValue_bytes heap
      (setField fieldName v.1 (some str) ⟨fun _ => 0, lgth⟩ f).2 f.toCompMsgField hkind
    rw [hvalue, hn, getString] at hc
    by_contra hheap
    rw [if_neg hheap] at hc
    exact absurd (congrArg Prod.fst hc) (by simp)
  · rintro hheap data r hr
    obtain ⟨n, hn⟩ := getFieldValue_bytes heap r.2 f.toCompMsgField hkind
    rw [hvalue, hn, getString, if_pos hheap]
    have hkeep : withKey fieldName f data = data := by
      rw [withKey, if_neg hkey]
    simp only [r, hset, hkeep]
    constructor
    · intro j hj
      simp only [Within] at hj
      by_cases hlt : j < f.fieldOffset
      · exact write_of_lt _ _ _ _ hlt
      · exact write_of_ge _ _ _ _ (by rw [read_length]; omega)
    · refine ⟨_, rfl, ?_⟩
      have hread := read_write data f.fieldOffset (read str 0 f.fieldLgth)
      rw [read_length] at hread
      simp only [IsValue, valueLgth, hkey, toInt_of_lt _ (show f.fieldOffset < 2147483648 by omega),
        hread, Bool.false_eq_true, if_false]

end Bytes

/-- What is kept in a field, for all bytes of the message. -/
theorem fieldFaithful_iff (fieldName : String) (f : MsgField) (lgth : Nat)
    (hview : f.fieldOffset + f.fieldLgth ≤ lgth) (hlgth : lgth < 2147483648) (v : IntValue)
    (str : Option Mem) (heap : Bool) :
    FieldFaithful fieldName lgth f v str heap ↔ Kept fieldName lgth f v.1 str heap := by
  have hother : Mismatched (kind f.fieldTypeId) str →
      FieldFaithful fieldName lgth f v str heap := by
    intro h
    apply fieldFaithful_of_ne
    intro data
    by_cases hkey : NoKey fieldName lgth f.toCompMsgField
    · exact setField_of_noKey fieldName f lgth hview hlgth hkey v.1 str data
    · rw [setField_of_room fieldName f lgth hview hlgth hkey]
      exact setFieldValue_mismatched _ f.toCompMsgField _ _ str h
  unfold Kept
  cases hkind : kind f.fieldTypeId with
  | number s unit tested =>
    cases str with
    | none =>
      dsimp only
      split
      · rename_i htest
        exact fieldFaithful_refused fieldName f s unit tested hkind lgth hlgth hview v heap htest
      · rename_i htest
        exact fieldFaithful_number fieldName f s unit tested hkind lgth hlgth hview v heap htest
    | some str => exact iff_of_true (hother (by rw [hkind]; trivial)) trivial
  | bytes =>
    cases str with
    | none => exact iff_of_true (hother (by rw [hkind]; trivial)) trivial
    | some str => exact fieldFaithful_bytes fieldName f lgth hview hlgth hkind v str heap
  | unsupported => exact iff_of_true (hother (by rw [hkind]; trivial)) trivial

/-! ## The message -/

/-- The loop goes to the first field with the id, whose flags it sets. -/
theorem setFirst_found (fieldNameId : Nat) (set : DataView → MsgField → Result × DataView)
    (v : DataView) (fs : List MsgField) (f : MsgField)
    (h : (fs.find? fun f => f.fieldNameId == fieldNameId) = some f) :
    (setFirst fieldNameId set v fs).1 = (set v f).1 ∧
      (setFirst fieldNameId set v fs).2.2 = (set v f).2 ∧
      ∃ f', ((setFirst fieldNameId set v fs).2.1.find? fun f => f.fieldNameId == fieldNameId) =
        some f' ∧ f'.toCompMsgField = f.toCompMsgField := by
  induction fs with
  | nil => cases h
  | cons g fs ih =>
    by_cases hg : g.fieldNameId = fieldNameId
    · rw [List.find?_cons_of_pos (by simpa using hg)] at h
      obtain rfl := Option.some.inj h
      rw [setFirst, if_pos hg]
      obtain ⟨result, v'⟩ := set v g
      cases result with
      | ok u => exact ⟨rfl, rfl, _, List.find?_cons_of_pos (by simpa using hg), rfl⟩
      | error e => exact ⟨rfl, rfl, _, List.find?_cons_of_pos (by simpa using hg), rfl⟩
    · rw [List.find?_cons_of_neg (by simpa using hg)] at h
      rw [setFirst, if_neg hg]
      dsimp only
      rw [List.find?_cons_of_neg (by simpa using hg)]
      exact ih h

theorem setFirst_missing (fieldNameId : Nat) (set : DataView → MsgField → Result × DataView)
    (v : DataView) (fs : List MsgField)
    (h : (fs.find? fun f => f.fieldNameId == fieldNameId) = none) :
    setFirst fieldNameId set v fs = (.ok (), fs, v) := by
  induction fs with
  | nil => rfl
  | cons g fs ih =>
    by_cases hg : g.fieldNameId = fieldNameId
    · rw [List.find?_cons_of_pos (by simpa using hg)] at h
      cases h
    · rw [List.find?_cons_of_neg (by simpa using hg)] at h
      rw [setFirst, if_neg hg, ih h]

theorem toRet_eq_ok (r : Result) : toRet r = .ok ↔ r = .ok () := by
  cases r with
  | ok u => simp [toRet]
  | error e => simp [toRet]

/-- The setter sets the field that is found, and the getter finds it again. -/
theorem setDataValue_found (d : MsgData) (fieldName : String) (fieldNameId : Nat) (f : MsgField)
    (hinit : hasFlag d.flags isInitted = true)
    (hname : lookUp d fieldName = (.ok, some fieldNameId))
    (hfind : (d.fields.find? fun f => f.fieldNameId == fieldNameId) = some f)
    (hset : cannotBeSet fieldNameId = false) (n : Int) (str : Option Mem) :
    ∃ d', setDataValue d fieldName n str =
        (toRet (setField fieldName n str d.dataView f).1, d') ∧
      d'.dataView = (setField fieldName n str d.dataView f).2 ∧
      ∀ heap, getDataValue heap d' fieldName =
        ((getFieldValue heap d'.dataView (valueField fieldName f.toCompMsgField) 0).1,
          some (getFieldValue heap d'.dataView (valueField fieldName f.toCompMsgField) 0).2) := by
  obtain ⟨hresult, hview, f', hfind', hsame⟩ :=
    setFirst_found fieldNameId (setField fieldName n str) d.dataView d.fields f hfind
  refine ⟨{ d with
    fields := (setFirst fieldNameId (setField fieldName n str) d.dataView d.fields).2.1
    dataView := (setFirst fieldNameId (setField fieldName n str) d.dataView d.fields).2.2 },
    ?_, hview, ?_⟩
  · simp only [setDataValue, hinit, hname, hset, hresult, if_true, Bool.false_eq_true, if_false]
  · intro heap
    have hname' : ∀ fields view, lookUp { d with fields := fields, dataView := view } fieldName =
        (.ok, some fieldNameId) := fun _ _ => hname
    rw [getDataValue, if_pos hinit, hname']
    dsimp only
    rw [hfind']
    dsimp only
    rw [hsame]

/-- A value is kept by the message if and only if it is kept by the field of that name. -/
theorem faithful_iff_fieldFaithful (m : LaidOut) (fieldName : String) (fieldNameId : Nat)
    (f : MsgField) (hname : lookUp m.msg fieldName = (.ok, some fieldNameId))
    (hfind : (m.msg.fields.find? fun f => f.fieldNameId == fieldNameId) = some f)
    (hset : cannotBeSet fieldNameId = false) (v : IntValue) (str : Option Mem) (heap : Bool) :
    m.Faithful fieldName v str heap ↔
      FieldFaithful fieldName m.msg.dataView.lgth f v str heap := by
  have hfield : ∀ g, field m.msg fieldName = some g ↔ f = g := by
    intro g
    simp only [field, hname, hfind, Option.some.injEq]
  apply forall_congr'
  intro data
  obtain ⟨d', hstep, hview, hget⟩ := setDataValue_found (m.filled data) fieldName fieldNameId f
    m.initted hname hfind hset v.1 str
  have hdata : (m.filled data).dataView = ⟨data, m.msg.dataView.lgth⟩ := rfl
  rw [hdata] at hstep hview
  simp only [hstep, hget, hview, toRet_eq_ok, hfield, forall_eq', Prod.mk.injEq,
    Option.some.injEq]
  apply imp_congr_right
  intro _
  apply and_congr_right
  intro _
  constructor
  · rintro ⟨c, ⟨hr, hc⟩, hvalue⟩
    exact ⟨c, Prod.ext hr hc, hvalue⟩
  · rintro ⟨c, hr, hvalue⟩
    exact ⟨c, ⟨congrArg Prod.fst hr, congrArg Prod.snd hr⟩, hvalue⟩

/-- The name of the field is found, and the field with it. -/
theorem lookUp_of_field (d : MsgData) (fieldName : String) (f : MsgField)
    (h : field d fieldName = some f) :
    lookUp d fieldName = (.ok, some f.fieldNameId) ∧
      (d.fields.find? fun g => g.fieldNameId == f.fieldNameId) = some f := by
  unfold field at h
  split at h
  · rename_i fieldNameId hname
    obtain rfl : f.fieldNameId = fieldNameId := by
      simpa using List.find?_some h
    exact ⟨hname, h⟩
  · cases h

/-- Where there is no field of that name nothing is set. -/
theorem setDataValue_missing (d : MsgData) (fieldName : String) (h : field d fieldName = none)
    (n : Int) (str : Option Mem) : (setDataValue d fieldName n str).2 = d := by
  unfold field at h
  unfold setDataValue
  split
  · split at h
    · rename_i fieldNameId hname
      rw [hname]
      dsimp only
      split
      · rfl
      · rw [setFirst_missing _ _ _ _ h]
    · split
      · rename_i hnone _ fieldNameId hname
        exact absurd hname (hnone fieldNameId)
      · rfl
  · rfl

/-- A value that is not set at all touches nothing. -/
theorem faithful_of_kept (m : LaidOut) (fieldName : String) (v : IntValue) (str : Option Mem)
    (heap : Bool) (hfield : field m.msg fieldName = none)
    (hkept : ∀ data, (setDataValue (m.filled data) fieldName v.1 str).2 = m.filled data) :
    m.Faithful fieldName v str heap := by
  intro data r _
  constructor
  · intro j _
    simp only [r, hkept data]
    rfl
  · intro f hf
    rw [hfield] at hf
    cases hf

theorem faithful_iff_kept (m : LaidOut) (fieldName : String) (numericValue : IntValue)
    (stringValue : Option Mem) (heap : Bool) :
    m.Faithful fieldName numericValue stringValue heap ↔
      ∀ f, field m.msg fieldName = some f → cannotBeSet f.fieldNameId = false →
        Kept fieldName m.msg.dataView.lgth f numericValue.1 stringValue heap := by
  cases hfield : field m.msg fieldName with
  | none =>
    apply iff_of_true
    · apply faithful_of_kept m fieldName numericValue stringValue heap hfield
      intro data
      exact setDataValue_missing (m.filled data) fieldName hfield numericValue.1 stringValue
    · intro f hf
      cases hf
  | some f =>
    obtain ⟨hname, hfind⟩ := lookUp_of_field m.msg fieldName f hfield
    simp only [Option.some.injEq, forall_eq']
    cases hset : cannotBeSet f.fieldNameId with
    | true =>
      have hinit : ∀ data, hasFlag (m.filled data).flags isInitted = true := fun _ => m.initted
      have hname' : ∀ data, lookUp (m.filled data) fieldName = (.ok, some f.fieldNameId) :=
        fun _ => hname
      apply iff_of_true
      · intro data r hr
        simp [r, setDataValue, hinit, hname', hset] at hr
      · intro h
        cases h
    | false =>
      rw [faithful_iff_fieldFaithful m fieldName f.fieldNameId f hname hfind hset,
        fieldFaithful_iff fieldName f _ (m.inView f (List.mem_of_find?_eq_some hfind)) m.lgth_lt]
      exact ⟨fun h _ => h, fun h => h rfl⟩

/-! ## Messages that have been laid out -/

theorem layoutFields_total_le (d : CompMsgData) (fs : List CompMsgField)
    (h : d.fieldOffset ≤ d.totalLgth) :
    (layoutFields d fs).2.fieldOffset ≤ (layoutFields d fs).2.totalLgth := by
  induction fs generalizing d with
  | nil => exact h
  | cons f fs ih =>
    apply ih
    rw [layoutField_total]
    exact Nat.le_add_right _ _

/-- All fields lie in the message that is allocated for them. -/
theorem initMsg_inView (d : CompMsgData) (h : Created d) :
    ∀ f ∈ (initMsg d).2.fields, f.fieldOffset + f.fieldLgth ≤ (initMsg d).2.totalLgth := by
  intro f hf
  obtain ⟨hfields, htotal, -⟩ := initMsg_layout d h
  obtain ⟨hcons, hoff⟩ := layoutFields_consecutive (startLayout d) d.fields
  have hle := layoutFields_total_le (startLayout d) d.fields (Nat.zero_le _)
  rw [hfields] at hf
  rw [htotal]
  exact (end_le_of_mem_consecutive _ _ _ _ hcons f hf).trans (hoff ▸ hle)

theorem setLgthFields_lgth (d : CompMsgData) (v : DataView) (fs : List CompMsgField) :
    (setLgthFields d v fs).2.lgth = v.lgth := by
  induction fs generalizing v with
  | nil => rfl
  | cons f fs ih =>
    rw [setLgthFields]
    split
    · exact checkErrOK_lgth _ _ _ (setFieldValue_lgth v f _ none 0) fun v' hv => (ih v').trans hv
    · split
      · exact checkErrOK_lgth _ _ _ (setFieldValue_lgth v f _ none 0)
          fun v' hv => (ih v').trans hv
      · exact ih v

theorem hasFlag_initted (flags : Nat) : hasFlag (flags ||| isInitted) isInitted = true := by
  have hbit : ((flags ||| isInitted) &&& isInitted).testBit 5 = true := by
    have hinit : isInitted.testBit 5 = true := by decide
    simp [hinit]
  rw [hasFlag, bne_iff_ne]
  intro hzero
  rw [hzero, Nat.zero_testBit] at hbit
  cases hbit

theorem initMsg_view (d : CompMsgData) (h : Created d) (hok : (initMsg d).1 = .ok ()) :
    hasFlag (initMsg d).2.flags isInitted = true ∧
      (initMsg d).2.compMsgDataView.lgth = (initMsg d).2.totalLgth := by
  unfold initMsg at hok ⊢
  simp only [h.notInitted, Bool.false_eq_true, if_false] at hok ⊢
  split at hok
  · cases hok
  · rename_i htotal
    rw [if_neg htotal]
    exact ⟨hasFlag_initted _, setLgthFields_lgth _ _ _⟩

/-- The message behind `initMsg`, whatever keys its fields get and whatever bytes it holds. -/
def laidOut (d : CompMsgData) (h : Created d) (hok : (initMsg d).1 = .ok ())
    (hlt : (initMsg d).2.totalLgth < 2147483648) (fields : List MsgField)
    (hfields : fields.map MsgField.toCompMsgField = (initMsg d).2.fields)
    (typesAndNames : CompMsgTypesAndNames) (data : Mem) : LaidOut where
  msg := ⟨(initMsg d).2.flags, fields, ⟨data, (initMsg d).2.compMsgDataView.lgth⟩, typesAndNames⟩
  initted := (initMsg_view d h hok).1
  inView := by
    intro f hf
    rw [(initMsg_view d h hok).2]
    apply initMsg_inView d h
    rw [← hfields]
    exact List.mem_map_of_mem hf
  lgth_lt := by
    rw [(initMsg_view d h hok).2]
    exact hlt

/-- A key field with a value of four bytes, and a field behind it. -/
def keyMsg : LaidOut where
  msg := ⟨isInitted,
    [⟨⟨56, .uint8Vector, 12, 0⟩, 0, 0, 0⟩, ⟨⟨57, .uint8Vector, 8, 12⟩, 0, 0, 0⟩],
    ⟨fun _ => 0, 20⟩, ⟨2, 4, some [⟨some "#key_ssid", 1, 1⟩, ⟨some "cmd", 2, 1⟩], 58, 58, true⟩⟩
  initted := by decide
  inView := by decide
  lgth_lt := by decide

theorem keyMsg_not_faithful :
    ¬ keyMsg.Faithful "#key_ssid" ⟨0, by decide⟩ (some fun _ => 1) true := by
  intro h
  have hbehind := (h (fun _ => 0) (by decide)).1 12
  have hone : (1 : UInt8) = 0 := by
    apply hbehind
    rintro f hf ⟨-, hlt⟩
    obtain rfl := Option.some.inj hf
    exact absurd hlt (by decide)
  exact absurd hone (by decide)

end NodeMcu.CompMsg.FieldFrames
