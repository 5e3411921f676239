import NodeMcu.CompMsg.Fields
import NodeMcu.CompMsg.Headers
import NodeMcu.Lib.ByteSum

namespace NodeMcu.CompMsg.Crc

open NodeMcu.Lib.Memory NodeMcu.Lib.ByteSum
open NodeMcu.CompMsg.Codes NodeMcu.CompMsg.View NodeMcu.CompMsg.Fields NodeMcu.CompMsg.Headers

/-- The loop that adds up bytes in a `uint16_t`. -/
def crcLoop (data : Mem) : Nat → Int → Nat → Nat
  | 0, _, crc => crc
  | n + 1, idx, crc => crcLoop data n (idx + 1) ((crc + (data idx).toNat) % 65536)

/-- The complement of the sum of the bytes from `startOffset` up to `lgth`. -/
def crcVal (data : Mem) (startOffset lgth : Nat) : Nat :=
  65535 - crcLoop data (lgth - startOffset) startOffset 0

/-- The comparison at the end of both branches of `getCrc`. -/
def checkValue (found : Except CompMsgErr Nat) (crc : Nat) : Result :=
  match found with
  | .error e => .error e
  | .ok found => if crc ≠ found then .error .badCrcValue else .ok ()

def getCrc (v : DataView) (f : CompMsgField) (startOffset lgth : Nat) : Result :=
  let crc := crcVal v.data startOffset lgth
  if f.fieldLgth = 1 then checkValue (getUint8 v (toInt f.fieldOffset)) (crc % 256)
  else checkValue (getUint16 v (toInt f.fieldOffset)) crc

/-- Always reports success: the results of the setters are not looked at. -/
def setCrc (v : DataView) (f : CompMsgField) (startOffset lgth : Nat) : Result × DataView :=
  let crc := crcVal v.data startOffset lgth
  if f.fieldLgth = 1 then (.ok (), (setUint8 v (toInt f.fieldOffset) (crc % 256)).2)
  else (.ok (), (setUint16 v (toInt f.fieldOffset) crc).2)

/-- The CRC over all bytes in front of its own field. -/
def getTotalCrc (v : DataView) (f : CompMsgField) : Result := getCrc v f 0 f.fieldOffset

def setTotalCrc (v : DataView) (f : CompMsgField) : Result × DataView :=
  setCrc v f 0 f.fieldOffset

/-- The field that the CRC cases of `handleReceivedHeader` look at, `width` bytes wide. -/
def headerCrcField (hdr : HeaderPart) (u8TotalCrc : Bool) (totalLgth width : Nat) :
    CompMsgField :=
  let fieldOffset := sizeSub totalLgth width
  { fieldNameId := specFieldCrc
    fieldTypeId := .none
    fieldLgth := width
    fieldOffset :=
      if hasFlag hdr.hdrFlags dispTotalCrc then
        (if u8TotalCrc then sizeSub fieldOffset 1 else sizeSub fieldOffset 2)
      else fieldOffset }

/-- The cases `COMP_DISP_U8_CRC` and `COMP_DISP_U16_CRC` of `handleReceivedHeader`. -/
def headerCrc (infos : MsgHeaderInfos) (hdr : HeaderPart) (u8TotalCrc : Bool)
    (totalLgth width : Nat) (v : DataView) : Result :=
  let f := headerCrcField hdr u8TotalCrc totalLgth width
  getCrc v f infos.headerLgth f.fieldOffset

/-- The width in bytes in which a CRC field is read and written. -/
def crcWidth (f : CompMsgField) : Nat := if f.fieldLgth = 1 then 1 else 2

theorem crcLoop_eq (data : Mem) (n i crc : Nat) :
    crcLoop data n i (crc % 65536) = (crc + byteSum data i (i + n)) % 65536 := by
  induction n generalizing i crc with
  | zero => rw [crcLoop, Nat.add_zero, byteSum_of_le data i i (Nat.le_refl i), Nat.add_zero]
  | succ n ih =>
    have hs := byteSum_succ data i (i + (n + 1)) (by omega)
    have hi : i + (n + 1) = i + 1 + n := by omega
    have hm : (crc % 65536 + (data i).toNat) % 65536 = (crc + (data i).toNat) % 65536 := by omega
    have h1 := ih (i + 1) (crc + (data i).toNat)
    rw [Nat.cast_add, Nat.cast_one] at h1
    rw [crcLoop, hm, h1, hs, hi, Nat.add_assoc]

theorem crcVal_eq (data : Mem) (a b : Nat) :
    crcVal data a b = 65535 - byteSum data a b % 65536 := by
  have h := crcLoop_eq data (b - a) a 0
  rw [crcVal, show (0 : Nat) = 0 % 65536 from rfl, h, Nat.zero_add]
  obtain hab | hab := Nat.le_total a b
  · rw [Nat.add_sub_cancel' hab]
  · rw [byteSum_of_le data a b hab, byteSum_of_le data a _ (by omega)]

theorem crcVal_congr (data data' : Mem) (a b : Nat)
    (h : ∀ i : Nat, a ≤ i → i < b → data i = data' i) : crcVal data a b = crcVal data' a b := by
  rw [crcVal_eq, crcVal_eq, byteSum_congr data data' a b h]

/-- Both functions in one form, with the width as a number. -/
theorem setCrc_eq (v : DataView) (f : CompMsgField) (a b : Nat) :
    setCrc v f a b =
      (.ok (), (put v (toInt f.fieldOffset) (bigEndian (crcWidth f) (crcVal v.data a b))).2) := by
  unfold setCrc crcWidth
  dsimp only
  split
  · have hm : ∀ x, bigEndian 1 (x % 256) = bigEndian 1 x := by
      intro x
      simp only [bigEndian, pow_zero, Nat.div_one, List.cons.injEq, and_true]
      exact UInt8.toNat_inj.mp (by simp)
    rw [setUint8, hm]
  · rfl

theorem checkValue_ok_iff (found : Except CompMsgErr Nat) (crc : Nat) :
    checkValue found crc = .ok () ↔ found = .ok crc := by
  cases found with
  | error e => simp [checkValue]
  | ok n =>
    simp only [checkValue, Except.ok.injEq]
    split
    case isTrue h => simpa using fun he => h (Eq.symm he)
    case isFalse h => simpa using (not_not.mp h).symm

theorem getCrc_ok_iff (v : DataView) (f : CompMsgField) (a b : Nat) :
    getCrc v f a b = .ok () ↔
      getBytes v (toInt f.fieldOffset) (crcWidth f) =
        .ok (crcVal v.data a b % 256 ^ crcWidth f) := by
  unfold getCrc crcWidth
  dsimp only
  split
  · rw [checkValue_ok_iff, getUint8, pow_one]
  · have hlt : crcVal v.data a b < 256 ^ 2 := by
      rw [crcVal]
      omega
    rw [checkValue_ok_iff, getUint16, Nat.mod_eq_of_lt hlt]

/-- A receiver that finds the written bytes in front of and in the CRC field accepts them exactly
when its range adds up to what the sender's range adds up to. -/
theorem getCrc_setCrc (v r : DataView) (f g : CompMsgField) (a b a' b' : Nat)
    (hroom : f.fieldOffset + crcWidth f ≤ v.lgth) (hsmall : v.lgth < 2147483648)
    (hg : g.fieldOffset = f.fieldOffset) (hw : crcWidth g = crcWidth f) (hl : r.lgth = v.lgth)
    (hb' : b' ≤ f.fieldOffset)
    (hsame : ∀ i : Nat, i < f.fieldOffset + crcWidth f → r.data i = (setCrc v f a b).2.data i) :
    getCrc r g a' b' = .ok () ↔
      byteSum v.data a b ≡ byteSum v.data a' b' [MOD 256 ^ crcWidth f] := by
  have hwpos : 1 ≤ crcWidth f := by
    unfold crcWidth
    split <;> omega
  have hi : toInt f.fieldOffset = f.fieldOffset := toInt_of_lt _ (by omega)
  have hput := hsame
  rw [setCrc_eq, hi] at hput
  have hfit : toSize ((f.fieldOffset : Int) + (crcWidth f - 1 : Nat)) ≤ v.lgth := by
    rw [← Nat.cast_add, toSize_natCast _ (by omega)]
    omega
  have hread : read r.data f.fieldOffset (crcWidth f) =
      read (put v f.fieldOffset (bigEndian (crcWidth f) (crcVal v.data a b))).2.data
        f.fieldOffset (crcWidth f) := by
    apply read_congr
    intro k hk
    rw [← Nat.cast_add]
    exact hput _ (by omega)
  have hget : getBytes r f.fieldOffset (crcWidth f) =
      .ok (crcVal v.data a b % 256 ^ crcWidth f) := by
    rw [← getBytes_put_bigEndian v _ _ _ hfit, getBytes_of_le _ _ _ (by rwa [hl]),
      getBytes_of_le _ _ _ (by rwa [put_lgth]), hread]
  have hval : crcVal r.data a' b' = crcVal v.data a' b' := by
    apply crcVal_congr
    intro i _ hi'
    rw [hput i (by omega), put_of_lt _ _ _ _ (by omega)]
  rw [getCrc_ok_iff, hg, hw, hi, hget, hval, Except.ok.injEq, crcVal_eq, crcVal_eq]
  have hdvd : 256 ^ crcWidth f ∣ 65536 := by
    unfold crcWidth
    split
    · exact ⟨256, rfl⟩
    · exact ⟨1, rfl⟩
  exact complement_mod_iff 65536 (256 ^ crcWidth f) _ _ (by omega) hdvd

end NodeMcu.CompMsg.Crc
