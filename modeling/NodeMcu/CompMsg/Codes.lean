namespace NodeMcu.CompMsg.Codes

/-- `enum CompMsgErrorCodes` without `COMP_MSG_ERR_OK`, which is `Except.ok`. -/
inductive CompMsgErr
  | badFieldType
  | badValue
  | valueTooBig
  | outOfMemory
  | outOfRange
  | fieldNotFound
  | fieldCannotBeSet
  | badSpecialField
  | badCrcValue
  | cryptoInitFailed
  | alreadyInitted
  | notYetInitted
  | notYetPrepared
  | fieldTotalLgthMissing
  | headerNotFound
  | tooManyRequests
  | requestNotFound
  | funnyHandleType
  | fieldTypeNotFound
  | fieldDescTooFewFields
  | badHeaderFieldFlag
  | badMsgFieldInfoIdx
  | badFieldInfo
  | badNumDescFileLines
  | differentFieldValue
  | duplicateFieldValueEntry
  | tooManyFieldValueEntries
  | fieldValueInfoNotFound
  | dataValueFieldNotFound
  deriving DecidableEq, Repr

abbrev Result := Except CompMsgErr Unit

/-- The macro of the same name: go on in the state reached, or return the error with it. -/
def checkErrOK {σ : Type} (r : Result × σ) (next : σ → Result × σ) : Result × σ :=
  match r.1 with
  | .ok _ => next r.2
  | .error e => (.error e, r.2)

@[simp] theorem checkErrOK_ok {σ : Type} (s : σ) (next : σ → Result × σ) :
    checkErrOK (.ok (), s) next = next s := rfl

@[simp] theorem checkErrOK_error {σ : Type} (e : CompMsgErr) (s : σ) (next : σ → Result × σ) :
    checkErrOK (.error e, s) next = (.error e, s) := rfl

theorem checkErrOK_eq_ok {σ : Type} (r : Result × σ) (next : σ → Result × σ) (s : σ)
    (h : checkErrOK r next = (.ok (), s)) : r.1 = .ok () ∧ next r.2 = (.ok (), s) := by
  obtain ⟨result, state⟩ := r
  cases result with
  | ok u => exact ⟨rfl, h⟩
  | error e => simp at h

theorem checkErrOK_keeps {σ : Type} (P : σ → Prop) (r : Result × σ) (next : σ → Result × σ)
    (h : P r.2) (hn : ∀ s, P s → P (next s).2) : P (checkErrOK r next).2 := by
  obtain ⟨result, state⟩ := r
  cases result with
  | ok u => exact hn state h
  | error e => exact h

/-- How a call ends that may follow a null pointer. -/
inductive Ret
  | ok
  | error (e : CompMsgErr)
  | crash
  deriving DecidableEq, Repr

/-- `checkErrOK` behind such a call. -/
def checkRetOK {σ : Type} (r : Ret × σ) (next : σ → Ret × σ) : Ret × σ :=
  match r.1 with
  | .ok => next r.2
  | .error e => (.error e, r.2)
  | .crash => (.crash, r.2)

@[simp] theorem checkRetOK_ok {σ : Type} (s : σ) (next : σ → Ret × σ) :
    checkRetOK (.ok, s) next = next s := rfl

@[simp] theorem checkRetOK_error {σ : Type} (e : CompMsgErr) (s : σ) (next : σ → Ret × σ) :
    checkRetOK (.error e, s) next = (.error e, s) := rfl

@[simp] theorem checkRetOK_crash {σ : Type} (s : σ) (next : σ → Ret × σ) :
    checkRetOK (.crash, s) next = (.crash, s) := rfl

theorem checkRetOK_of_ne {σ : Type} (r : Ret × σ) (next : σ → Ret × σ) (h : r.1 ≠ .ok) :
    checkRetOK r next = r := by
  obtain ⟨ret, state⟩ := r
  cases ret with
  | ok => exact absurd rfl h
  | error e => rfl
  | crash => rfl

theorem checkRetOK_eq_ok {σ : Type} (r : Ret × σ) (next : σ → Ret × σ)
    (h : (checkRetOK r next).1 = .ok) : r.1 = .ok ∧ checkRetOK r next = next r.2 := by
  obtain ⟨ret, state⟩ := r
  cases ret with
  | ok => exact ⟨rfl, rfl⟩
  | error e => cases h
  | crash => cases h

theorem checkRetOK_keeps {σ : Type} (P : σ → Prop) (r : Ret × σ) (next : σ → Ret × σ)
    (h : P r.2) (hn : ∀ s, P s → P (next s).2) : P (checkRetOK r next).2 := by
  obtain ⟨ret, state⟩ := r
  cases ret with
  | ok => exact hn state h
  | error e => exact h
  | crash => exact h

/-- The flag test `(flags & mask) != 0`. -/
def hasFlag (flags mask : Nat) : Bool := flags &&& mask != 0

theorem hasFlag_or (flags set mask : Nat) (h : set &&& mask = 0) :
    hasFlag (flags ||| set) mask = hasFlag flags mask := by
  simp [hasFlag, Nat.and_or_distrib_right, h]

-- COMP_MSG_HAS_CRC and COMP_MSG_UINT8_CRC come from two headers and are the same bit.
def hasCrc : Nat := 2
def uint8Crc : Nat := 1 <<< 1
def isInitted : Nat := 1 <<< 5
def isPrepared : Nat := 1 <<< 6
def crcUseHeaderLgth : Nat := 1 <<< 7
def hasTotalCrc : Nat := 4
def uint8TotalCrc : Nat := 1 <<< 9

/-- `COMP_DISP_TOTAL_CRC`, a bit of `hdrFlags`. -/
def dispTotalCrc : Nat := 0x400

def specFieldSrc : Nat := 1
def specFieldDst : Nat := 3
def specFieldTotalLgth : Nat := 4
def specFieldCmdKey : Nat := 6
def specFieldCmdLgth : Nat := 7
def specFieldRandomNum : Nat := 8
def specFieldSequenceNum : Nat := 9
def specFieldFiller : Nat := 10
def specFieldCrc : Nat := 11
def specFieldTotalCrc : Nat := 12
def specFieldGuid : Nat := 13
def specFieldSrcId : Nat := 14
def specFieldHdrFiller : Nat := 15

/-- `enum CompMsgFieldType`. -/
inductive FieldType
  | none
  | uint8
  | int8
  | uint16
  | int16
  | uint32
  | int32
  | uint8Vector
  | int8Vector
  | uint16Vector
  | int16Vector
  | uint32Vector
  | int32Vector
  deriving DecidableEq, Repr

end NodeMcu.CompMsg.Codes
