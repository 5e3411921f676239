import NodeMcu.CompMsg.Fields
import NodeMcu.CompMsg.Headers
import NodeMcu.Lib.Intervals

namespace NodeMcu.CompMsg.Layout

open NodeMcu.CompMsg.Codes NodeMcu.CompMsg.View NodeMcu.CompMsg.Fields NodeMcu.CompMsg.Headers
open NodeMcu.Lib.Intervals

/-- `compMsgData_t`, less what belongs to the receiver. The list holds the first `numFields`
entries of the array, and the view owns the allocated message bytes. -/
structure CompMsgData where
  fields : List CompMsgField
  flags : Nat
  fieldOffset : Nat
  totalLgth : Nat
  cmdLgth : Nat
  headerLgth : Nat
  compMsgDataView : DataView
  currHdr : HeaderPart

def isHeaderField (f : CompMsgField) : Bool :=
  f.fieldNameId == specFieldSrc || f.fieldNameId == specFieldDst ||
  f.fieldNameId == specFieldTotalLgth || f.fieldNameId == specFieldGuid ||
  f.fieldNameId == specFieldSrcId || f.fieldNameId == specFieldHdrFiller

/-- The CRC width that a filler counts on. -/
def crcLgth (flags : Nat) : Nat :=
  if hasFlag flags hasCrc then (if hasFlag flags uint8Crc then 1 else 2) else 0

/-- The loop that pads `myLgth` to a multiple of 16. It ends within 16 rounds. -/
def padLoop : Nat → Nat → Nat
  | 0, _ => 0
  | rounds + 1, myLgth => if myLgth % 16 = 0 then 0 else padLoop rounds (myLgth + 1) + 1

/-- One round of the first loop of `initMsg`: the field laid out and the lengths so far. -/
def layoutField (d : CompMsgData) (f : CompMsgField) : CompMsgField × CompMsgData :=
  let f := { f with fieldOffset := d.fieldOffset }
  if isHeaderField f then
    (f, { d with
      headerLgth := d.headerLgth + f.fieldLgth
      totalLgth := d.fieldOffset + f.fieldLgth
      fieldOffset := d.fieldOffset + f.fieldLgth })
  else if f.fieldNameId = specFieldFiller then
    let fillerLgth := padLoop 16 (d.fieldOffset + crcLgth d.flags - d.headerLgth)
    let totalLgth := d.fieldOffset + fillerLgth + crcLgth d.flags
    ({ f with fieldLgth := fillerLgth }, { d with
      totalLgth := totalLgth
      cmdLgth := totalLgth - d.headerLgth
      fieldOffset := d.fieldOffset + fillerLgth })
  else
    (f, { d with
      totalLgth := d.fieldOffset + f.fieldLgth
      cmdLgth := d.fieldOffset + f.fieldLgth - d.headerLgth
      fieldOffset := d.fieldOffset + f.fieldLgth })

def layoutFields (d : CompMsgData) : List CompMsgField → List CompMsgField × CompMsgData
  | [] => ([], d)
  | f :: fs =>
    let r := layoutField d f
    let rs := layoutFields r.2 fs
    (r.1 :: rs.1, rs.2)

/-- The second loop of `initMsg`. -/
def setLgthFields (d : CompMsgData) (v : DataView) : List CompMsgField → Result × DataView
  | [] => (.ok (), v)
  | f :: fs =>
    if f.fieldNameId = specFieldTotalLgth then
      checkErrOK (setFieldValue v f (toInt d.totalLgth) none 0) fun v => setLgthFields d v fs
    else if f.fieldNameId = specFieldCmdLgth then
      checkErrOK (setFieldValue v f (toInt d.cmdLgth) none 0) fun v => setLgthFields d v fs
    else setLgthFields d v fs

def initMsg (d : CompMsgData) : Result × CompMsgData :=
  if hasFlag d.flags isInitted then (.error .alreadyInitted, d)
  else
    let r := layoutFields { d with fieldOffset := 0, headerLgth := 0 } d.fields
    let d : CompMsgData := { r.2 with fields := r.1 }
    if d.totalLgth = 0 then (.error .fieldTotalLgthMissing, d)
    else
      let v : DataView := { data := fun _ => 0, lgth := d.totalLgth }
      let w := setLgthFields d v d.fields
      (w.1, { d with flags := d.flags ||| isInitted, compMsgDataView := w.2 })

theorem padLoop_spec (rounds n : Nat) (h : n % 16 = 0 ∨ 16 - n % 16 ≤ rounds) :
    (n + padLoop rounds n) % 16 = 0 ∧ padLoop rounds n ≤ rounds := by
  induction rounds generalizing n with
  | zero =>
    simp only [padLoop]
    omega
  | succ rounds ih =>
    rw [padLoop]
    split
    · omega
    · have h1 := ih (n + 1) (by omega)
      omega

theorem padLoop_lt (n : Nat) : padLoop 16 n < 16 := by
  by_cases h : n % 16 = 0
  · simp [padLoop, h]
  · have h1 := padLoop_spec 15 (n + 1) (by omega)
    simp only [padLoop, h, if_false] at h1 ⊢
    omega

/-- The padding is the only number below 16 that completes the length to a multiple of 16. -/
theorem padLoop_mod (n c : Nat) : 16 ∣ n + padLoop 16 (n + c) + c := by
  have h := (padLoop_spec 16 (n + c) (by omega)).1
  omega

theorem layoutFields_append (d : CompMsgData) (fs gs : List CompMsgField) :
    layoutFields d (fs ++ gs) =
      ((layoutFields d fs).1 ++ (layoutFields (layoutFields d fs).2 gs).1,
        (layoutFields (layoutFields d fs).2 gs).2) := by
  induction fs generalizing d with
  | nil => rfl
  | cons f fs ih => simp [layoutFields, ih]

theorem layoutField_flags (d : CompMsgData) (f : CompMsgField) :
    (layoutField d f).2.flags = d.flags := by
  unfold layoutField
  dsimp only
  split
  · rfl
  · split <;> rfl

theorem layoutField_nameId (d : CompMsgData) (f : CompMsgField) :
    (layoutField d f).1.fieldNameId = f.fieldNameId := by
  unfold layoutField
  dsimp only
  split
  · rfl
  · split <;> rfl

theorem layoutField_offset (d : CompMsgData) (f : CompMsgField) :
    (layoutField d f).1.fieldOffset = d.fieldOffset ∧
      (layoutField d f).2.fieldOffset = d.fieldOffset + (layoutField d f).1.fieldLgth := by
  unfold layoutField
  dsimp only
  split
  · exact ⟨rfl, rfl⟩
  · split <;> exact ⟨rfl, rfl⟩

theorem layoutFields_flags (d : CompMsgData) (fs : List CompMsgField) :
    (layoutFields d fs).2.flags = d.flags := by
  induction fs generalizing d with
  | nil => rfl
  | cons f fs ih => rw [layoutFields, ih, layoutField_flags]

theorem layoutFields_nameIds (d : CompMsgData) (fs : List CompMsgField) :
    (layoutFields d fs).1.map CompMsgField.fieldNameId = fs.map CompMsgField.fieldNameId := by
  induction fs generalizing d with
  | nil => rfl
  | cons f fs ih => simp [layoutFields, ih, layoutField_nameId]

/-- The fields are laid out one behind the other. -/
theorem layoutFields_consecutive (d : CompMsgData) (fs : List CompMsgField) :
    Consecutive CompMsgField.fieldOffset CompMsgField.fieldLgth d.fieldOffset
        (layoutFields d fs).1 ∧
      (layoutFields d fs).2.fieldOffset =
        d.fieldOffset + total CompMsgField.fieldLgth (layoutFields d fs).1 := by
  induction fs generalizing d with
  | nil => exact ⟨trivial, rfl⟩
  | cons f fs ih =>
    obtain ⟨h1, h2⟩ := layoutField_offset d f
    obtain ⟨hc, ht⟩ := ih (layoutField d f).2
    rw [h2] at hc ht
    refine ⟨⟨h1, hc⟩, ?_⟩
    simp only [layoutFields, ht, total_cons, Nat.add_assoc]

end NodeMcu.CompMsg.Layout
