import NodeMcu.CompMsg.DataValues
import NodeMcu.CompMsg.NameTable

namespace NodeMcu.CompMsg.UniqueFields

open NodeMcu.Lib.Memory
open NodeMcu.CompMsg.Codes NodeMcu.CompMsg.View NodeMcu.CompMsg.TypesAndNames
open NodeMcu.CompMsg.MsgDesc NodeMcu.CompMsg.DataValues

structure HeaderValueInfo where
  fieldName : String
  dataValue : DataValue

/-- `headerValueInfos_t`. The array is memory, which goes on behind the values that are given. -/
structure HeaderValueInfos where
  numHeaderValues : Nat
  headerValues : Nat → HeaderValueInfo

/-- What the locals of `getMsgDescriptionFromUniqueFields` hold before they are set. -/
structure Locals where
  fieldNameId : Nat
  found : Bool
  checkValue : DataValue

/-- A number read as a signed one, where `half` is the first that is negative. -/
def signed (half n : Nat) : Int := if n < half then n else n - 2 * half

def getIdFieldValue (d : CompMsgMsgDesc) (dataView : DataView) (fieldId : Nat) :
    Except CompMsgErr DataValue :=
  match d.fieldDescInfos fieldId with
  | none => .error .fieldNotFound
  | some info =>
    let number (r : Except CompMsgErr Nat) (f : Nat → Int) : Except CompMsgErr DataValue :=
      r.map fun n => ⟨.numeric (f n), info.fieldTypeId, info.fieldLgth⟩
    match info.fieldTypeId with
    | .int8 => number (getUint8 dataView info.fieldOffset) (signed 128)
    | .uint8 => number (getUint8 dataView info.fieldOffset) Nat.cast
    | .int16 => number (getUint16 dataView info.fieldOffset) (signed 32768)
    | .uint16 => number (getUint16 dataView info.fieldOffset) Nat.cast
    | .int32 => number (getUint32 dataView info.fieldOffset) (signed 2147483648)
    | .uint32 => number (getUint32 dataView info.fieldOffset) Nat.cast
    | .int8Vector | .uint8Vector => .ok
        ⟨.bytes (read dataView.data info.fieldOffset info.fieldLgth), info.fieldTypeId,
          info.fieldLgth⟩
    | .none | .int16Vector | .uint16Vector | .int32Vector | .uint32Vector => .error .badFieldType

/-- The view of the header values of a description. -/
def headerView (d : CompMsgMsgDesc) (m : MsgDescription) : DataView :=
  ⟨m.headerFieldValues, d.msgHeaderInfo.lgth⟩

/-- One round of the innermost loop: how it ends and `found` behind it. The name is looked up
without counting, so that the tables stay as they are. -/
def checkHeaderValue (locals : Locals) (d : CompMsgMsgDesc) (m : MsgDescription)
    (headerValueInfo : HeaderValueInfo) : Ret × Bool :=
  let r := getFieldNameIdFromStr allocated d.typesAndNames headerValueInfo.fieldName noIncr
  match r.1 with
  | .error e => (.error e, true)
  | .crash => (.crash, true)
  | .ok =>
    let fieldNameId := r.2.1.getD locals.fieldNameId
    match d.fieldDescInfos fieldNameId with
    | none => (.crash, true)
    | some fieldDescInfo =>
      if hasFlag fieldDescInfo.fieldFlags fieldHeaderUnique then
        match getIdFieldValue d (headerView d m) fieldNameId with
        | .error e => (.error e, true)
        | .ok checkValue =>
          (.ok, (compareDataValues fieldDescInfo headerValueInfo.dataValue checkValue).isOk)
      else if headerValueInfo.fieldName = "@cmdKey" then
        (.ok, (compareDataValues fieldDescInfo headerValueInfo.dataValue locals.checkValue).isOk)
      else (.ok, true)

/-- The innermost loop. It takes the header value at the index of the description, not at its own
one, in every round. -/
def checkHeaderValues (locals : Locals) (d : CompMsgMsgDesc) (m : MsgDescription)
    (headerValueInfo : HeaderValueInfo) : Nat → Ret × Bool
  | 0 => (.ok, true)
  | rounds + 1 =>
    match checkHeaderValue locals d m headerValueInfo with
    | (.ok, true) => checkHeaderValues locals d m headerValueInfo rounds
    | r => r

/-- The loop over the descriptions from `idx` on: how it ends and the description handed out. -/
def searchDescriptions (locals : Locals) (d : CompMsgMsgDesc) (hvs : HeaderValueInfos)
    (found : Bool) (msgDescription : Option Nat) (idx : Nat) :
    List MsgDescription → Ret × Option Nat
  | [] => (if found then .ok else .error .headerNotFound, msgDescription)
  | m :: ms =>
    match checkHeaderValues locals d m (hvs.headerValues idx) hvs.numHeaderValues with
    | (.ok, true) => (.ok, some idx)
    | (.ok, false) => searchDescriptions locals d hvs false (some idx) (idx + 1) ms
    | (r, _) => (r, some idx)

def getMsgDescriptionFromUniqueFields (locals : Locals) (d : CompMsgMsgDesc)
    (hvs : HeaderValueInfos) : Ret × Option Nat :=
  searchDescriptions locals d hvs locals.found none 0 d.msgDescriptions

/-- The id of a name that is known. -/
def nameId (d : CompMsgMsgDesc) (fieldName : String) : Option Nat :=
  let r := getFieldNameIdFromStr allocated d.typesAndNames fieldName noIncr
  if r.1 = .ok then r.2.1 else none

def IsUnique (d : CompMsgMsgDesc) (fieldId : Nat) : Prop :=
  ∃ info, d.fieldDescInfos fieldId = some info ∧
    hasFlag info.fieldFlags fieldHeaderUnique = true

/-- A value is given for the field, and it is the one of the description. -/
def GivenAs (d : CompMsgMsgDesc) (hvs : HeaderValueInfos) (m : MsgDescription) (fieldId : Nat) :
    Prop :=
  ∃ i, i < hvs.numHeaderValues ∧ nameId d (hvs.headerValues i).fieldName = some fieldId ∧
    ∃ v, getIdFieldValue d (headerView d m) fieldId = .ok v ∧
      v.value = (hvs.headerValues i).dataValue.value

/-- All unique header fields of the description equal the given values. -/
def Matches (d : CompMsgMsgDesc) (hvs : HeaderValueInfos) (m : MsgDescription) : Prop :=
  ∀ fieldId ∈ d.msgHeaderInfo.fieldIds, IsUnique d fieldId → GivenAs d hvs m fieldId

/-- The description at `k` is the first one that matches. -/
def FirstMatch (d : CompMsgMsgDesc) (hvs : HeaderValueInfos) (k : Nat) : Prop :=
  (∃ m, d.msgDescriptions[k]? = some m ∧ Matches d hvs m) ∧
    ∀ j m, j < k → d.msgDescriptions[j]? = some m → ¬ Matches d hvs m

/-- Whatever the locals hold, the first description that matches is found, and none if there is
none. -/
def SelectsByUnique (d : CompMsgMsgDesc) (hvs : HeaderValueInfos) : Prop :=
  ∀ locals, (∀ k, FirstMatch d hvs k →
      getMsgDescriptionFromUniqueFields locals d hvs = (.ok, some k)) ∧
    ((∀ m ∈ d.msgDescriptions, ¬ Matches d hvs m) →
      (getMsgDescriptionFromUniqueFields locals d hvs).1 = .error .headerNotFound)

/-- The header value names a field of the header description that is not compared. -/
def Passed (d : CompMsgMsgDesc) (h : HeaderValueInfo) : Prop :=
  h.fieldName ≠ "@cmdKey" ∧ ∃ fieldId info, nameId d h.fieldName = some fieldId ∧
    d.fieldDescInfos fieldId = some info ∧ hasFlag info.fieldFlags fieldHeaderUnique = false

/-- The header value names a field that is compared: it is unique and the description has a value
for it, or it is `@cmdKey`. -/
def Compared (d : CompMsgMsgDesc) (m : MsgDescription) (h : HeaderValueInfo) : Prop :=
  ∃ fieldId info, nameId d h.fieldName = some fieldId ∧ d.fieldDescInfos fieldId = some info ∧
    ((hasFlag info.fieldFlags fieldHeaderUnique = true ∧
        ∃ v, getIdFieldValue d (headerView d m) fieldId = .ok v) ∨
      (hasFlag info.fieldFlags fieldHeaderUnique = false ∧ h.fieldName = "@cmdKey"))

/-- The descriptions in front of `k` have a header value at their own index that is compared. -/
def ComparedBefore (d : CompMsgMsgDesc) (hvs : HeaderValueInfos) (n k : Nat)
    (ms : List MsgDescription) : Prop :=
  ∀ j m, j < k → ms[j]? = some m → Compared d m (hvs.headerValues (n + j))

theorem compareDataValues_ne_ok (info : FieldDescInfo) (v w : DataValue) :
    (compareDataValues info v w).isOk = false := by
  rw [compareDataValues]
  split <;> rfl

theorem getIdFieldValue_error (d : CompMsgMsgDesc) (v : DataView) (fieldId : Nat) :
    getIdFieldValue d v fieldId ≠ .error .headerNotFound := by
  have hget : ∀ (n : Nat) (o : Int) (f : Nat → DataValue),
      (getBytes v o n).map f ≠ .error .headerNotFound := by
    intro n o f
    rw [getBytes]
    split
    · simp [Except.map]
    · simp [Except.map]
  rw [getIdFieldValue]
  split
  · simp
  · dsimp only
    split
    · exact hget _ _ _
    · exact hget _ _ _
    · exact hget _ _ _
    · exact hget _ _ _
    · exact hget _ _ _
    · exact hget _ _ _
    all_goals simp

/-- A name that is looked up has an id or is refused. -/
theorem lookUp_cases (d : CompMsgMsgDesc) (fieldName : String) :
    let r := getFieldNameIdFromStr allocated d.typesAndNames fieldName noIncr
    (∃ fieldId, r.1 = .ok ∧ r.2.1 = some fieldId) ∨
      (r.1 ≠ .ok ∧ r.1 ≠ .error .headerNotFound) := by
  dsimp only
  cases hspecial : isSpecial fieldName with
  | true =>
    rw [getFieldNameIdFromStr]
    dsimp only
    rw [if_pos hspecial]
    split
    · exact .inl ⟨_, rfl, rfl⟩
    · exact .inr (by simp)
  | false =>
    rw [NameTable.getFieldNameIdFromStr_noIncr _ _ _ hspecial, findName]
    split
    · exact .inr (by simp)
    · dsimp only
      split
      · exact .inl ⟨_, rfl, rfl⟩
      · exact .inr (by simp)

theorem checkHeaderValue_unnamed (locals : Locals) (d : CompMsgMsgDesc) (m : MsgDescription)
    (h : HeaderValueInfo) (hid : nameId d h.fieldName = none) :
    (checkHeaderValue locals d m h).1 ≠ .ok ∧
      (checkHeaderValue locals d m h).1 ≠ .error .headerNotFound := by
  have hcases := lookUp_cases d h.fieldName
  rw [nameId] at hid
  rw [checkHeaderValue]
  dsimp only at hid hcases ⊢
  generalize getFieldNameIdFromStr allocated d.typesAndNames h.fieldName noIncr = r at *
  obtain ⟨fieldId, h1, h2⟩ | ⟨h1, h2⟩ := hcases
  · rw [if_pos h1, h2] at hid
    cases hid
  · cases hr : r.1 with
    | ok => exact absurd hr h1
    | error e =>
      rw [hr] at h2
      exact ⟨by simp, by simpa using h2⟩
    | crash => exact ⟨by simp, by simp⟩

/-- What one round does, by what the header value names. -/
theorem checkHeaderValue_spec (locals : Locals) (d : CompMsgMsgDesc) (m : MsgDescription)
    (h : HeaderValueInfo) :
    (checkHeaderValue locals d m h = (.ok, true) ↔ Passed d h) ∧
      (checkHeaderValue locals d m h = (.ok, false) ↔ Compared d m h) ∧
      (checkHeaderValue locals d m h).1 ≠ .error .headerNotFound := by
  cases hid : nameId d h.fieldName with
  | none =>
    obtain ⟨hok, hnf⟩ := checkHeaderValue_unnamed locals d m h hid
    refine ⟨⟨fun heq => ?_, fun hp => ?_⟩, ⟨fun heq => ?_, fun hc => ?_⟩, hnf⟩
    · exact absurd (by rw [heq]) hok
    · obtain ⟨-, fieldId, info, hname, -⟩ := hp
      rw [hid] at hname
      cases hname
    · exact absurd (by rw [heq]) hok
    · obtain ⟨fieldId, info, hname, -⟩ := hc
      rw [hid] at hname
      cases hname
  | some fieldId =>
    have hr := hid
    rw [nameId] at hr
    split at hr
    · rename_i hok
      simp only [checkHeaderValue, hok, hr, Option.getD_some, compareDataValues_ne_ok, Passed,
        Compared, hid, Option.some.injEq]
      cases hinfo : d.fieldDescInfos fieldId with
      | none => simp [hinfo]
      | some info =>
        cases hflag : hasFlag info.fieldFlags fieldHeaderUnique with
        | true =>
          cases hget : getIdFieldValue d (headerView d m) fieldId with
          | error e =>
            have hne := getIdFieldValue_error d (headerView d m) fieldId
            rw [hget] at hne
            simp [hinfo, hflag, hget]
            simpa using hne
          | ok v => simp [hinfo, hflag, hget]
        | false =>
          by_cases hkey : h.fieldName = "@cmdKey"
          · simp [hinfo, hflag, hkey]
          · simp [hinfo, hflag, hkey]
    · cases hr

/-- The rounds for one description are all the same. -/
theorem checkHeaderValues_succ (locals : Locals) (d : CompMsgMsgDesc) (m : MsgDescription)
    (h : HeaderValueInfo) (rounds : Nat) :
    checkHeaderValues locals d m h (rounds + 1) = checkHeaderValue locals d m h := by
  induction rounds with
  | zero =>
    rw [checkHeaderValues]
    split
    · rename_i heq
      rw [heq]
      rfl
    · rfl
  | succ rounds ih =>
    rw [checkHeaderValues]
    split
    · rename_i heq
      rw [ih, heq]
    · rfl

theorem comparedBefore_succ (d : CompMsgMsgDesc) (hvs : HeaderValueInfos) (n k : Nat)
    (m : MsgDescription) (ms : List MsgDescription) :
    ComparedBefore d hvs n (k + 1) (m :: ms) ↔
      Compared d m (hvs.headerValues n) ∧ ComparedBefore d hvs (n + 1) k ms := by
  constructor
  · intro h
    refine ⟨h 0 m (Nat.zero_lt_succ k) rfl, fun j m' hj hm' => ?_⟩
    have hc := h (j + 1) m' (Nat.succ_lt_succ hj) (by simpa using hm')
    rwa [show n + (j + 1) = n + 1 + j by omega] at hc
  · rintro ⟨h0, hs⟩ j m' hj hm'
    cases j with
    | zero =>
      cases hm'
      exact h0
    | succ j =>
      rw [show n + (j + 1) = n + 1 + j by omega]
      exact hs j m' (Nat.lt_of_succ_lt_succ hj) (by simpa using hm')

/-- One step of the search, by what the header value of the description names. -/
theorem searchDescriptions_cons (locals : Locals) (d : CompMsgMsgDesc) (hvs : HeaderValueInfos)
    (found : Bool) (selected : Option Nat) (n : Nat) (m : MsgDescription)
    (ms : List MsgDescription) (hnum : 0 < hvs.numHeaderValues) :
    (Passed d (hvs.headerValues n) ∧ ¬ Compared d m (hvs.headerValues n) ∧
        searchDescriptions locals d hvs found selected n (m :: ms) = (.ok, some n)) ∨
      (Compared d m (hvs.headerValues n) ∧ ¬ Passed d (hvs.headerValues n) ∧
        searchDescriptions locals d hvs found selected n (m :: ms) =
          searchDescriptions locals d hvs false (some n) (n + 1) ms) ∨
      (¬ Passed d (hvs.headerValues n) ∧ ¬ Compared d m (hvs.headerValues n) ∧
        (searchDescriptions locals d hvs found selected n (m :: ms)).1 ≠ .ok ∧
        (searchDescriptions locals d hvs found selected n (m :: ms)).1 ≠
          .error .headerNotFound) := by
  obtain ⟨hpass, hcomp, hnf⟩ := checkHeaderValue_spec locals d m (hvs.headerValues n)
  rw [searchDescriptions]
  obtain ⟨rounds, hrounds⟩ : ∃ rounds, hvs.numHeaderValues = rounds + 1 :=
    ⟨hvs.numHeaderValues - 1, by omega⟩
  rw [hrounds, checkHeaderValues_succ]
  rw [← hpass, ← hcomp]
  rcases hcheck : checkHeaderValue locals d m (hvs.headerValues n) with ⟨ret, found'⟩
  rw [hcheck] at hnf
  cases ret with
  | ok =>
    cases found' with
    | true => exact .inl ⟨rfl, by simp, rfl⟩
    | false => exact .inr (.inl ⟨rfl, by simp, rfl⟩)
  | error e => exact .inr (.inr ⟨by simp, by simp, by simp, by simpa using hnf⟩)
  | crash => exact .inr (.inr ⟨by simp, by simp, by simp, by simp⟩)

/-- Where the search ends that has a header value to look at. -/
theorem searchDescriptions_ok_iff (locals : Locals) (d : CompMsgMsgDesc) (hvs : HeaderValueInfos)
    (selected : Option Nat) (n x : Nat) (ms : List MsgDescription)
    (hnum : 0 < hvs.numHeaderValues) :
    searchDescriptions locals d hvs false selected n ms = (.ok, some x) ↔
      ∃ i, x = n + i ∧ i < ms.length ∧ Passed d (hvs.headerValues x) ∧
        ComparedBefore d hvs n i ms := by
  induction ms generalizing selected n with
  | nil => simp [searchDescriptions]
  | cons m ms ih =>
    have hfirst : ∀ i, ComparedBefore d hvs n i (m :: ms) → ¬ Compared d m (hvs.headerValues n) →
        i = 0 := by
      intro i hbefore hc
      cases i with
      | zero => rfl
      | succ i => exact absurd ((comparedBefore_succ _ _ _ _ _ _).mp hbefore).1 hc
    rcases searchDescriptions_cons locals d hvs false selected n m ms hnum with
      ⟨hp, hc, heq⟩ | ⟨hc, hp, heq⟩ | ⟨hp, hc, hok, -⟩
    · rw [heq]
      constructor
      · intro h
        obtain rfl : n = x := by simpa using h
        exact ⟨0, rfl, Nat.zero_lt_succ _, hp, fun j _ hj => absurd hj (Nat.not_lt_zero j)⟩
      · rintro ⟨i, rfl, -, -, hbefore⟩
        rw [hfirst i hbefore hc]
        rfl
    · rw [heq, ih]
      constructor
      · rintro ⟨i, rfl, hi, hpass, hbefore⟩
        refine ⟨i + 1, by omega, Nat.succ_lt_succ hi, hpass, ?_⟩
        exact (comparedBefore_succ _ _ _ _ _ _).mpr ⟨hc, hbefore⟩
      · rintro ⟨i, rfl, hi, hpass, hbefore⟩
        cases i with
        | zero => exact absurd hpass hp
        | succ i => exact ⟨i, by omega, Nat.lt_of_succ_lt_succ hi, hpass,
            ((comparedBefore_succ _ _ _ _ _ _).mp hbefore).2⟩
    · refine ⟨fun h => absurd (by rw [h]) hok, ?_⟩
      rintro ⟨i, rfl, -, hpass, hbefore⟩
      rw [hfirst i hbefore hc] at hpass
      exact absurd hpass hp

/-- The search fails with the error for a missing header exactly if all values are compared. -/
theorem searchDescriptions_missing_iff (locals : Locals) (d : CompMsgMsgDesc)
    (hvs : HeaderValueInfos) (selected : Option Nat) (n : Nat) (ms : List MsgDescription)
    (hnum : 0 < hvs.numHeaderValues) :
    (searchDescriptions locals d hvs false selected n ms).1 = .error .headerNotFound ↔
      ComparedBefore d hvs n ms.length ms := by
  induction ms generalizing selected n with
  | nil => simp [searchDescriptions, ComparedBefore]
  | cons m ms ih =>
    rw [List.length_cons, comparedBefore_succ]
    rcases searchDescriptions_cons locals d hvs false selected n m ms hnum with
      ⟨hp, hc, heq⟩ | ⟨hc, hp, heq⟩ | ⟨hp, hc, -, hnf⟩
    · rw [heq]
      simp [hc]
    · rw [heq, ih]
      simp [hc]
    · exact ⟨fun h => absurd h hnf, fun h => absurd h.1 hc⟩

/-- The header values happen to lead to the description: the value at the index of each one in
front of it is compared, which never succeeds, and the one at its own index is not. -/
def ValuesFit (d : CompMsgMsgDesc) (hvs : HeaderValueInfos) : Prop :=
  d.msgDescriptions ≠ [] ∧
    ((∃ k, FirstMatch d hvs k ∧ ((hvs.numHeaderValues = 0 ∧ k = 0) ∨
        (0 < hvs.numHeaderValues ∧ Passed d (hvs.headerValues k) ∧
          ComparedBefore d hvs 0 k d.msgDescriptions))) ∨
      ((∀ m ∈ d.msgDescriptions, ¬ Matches d hvs m) ∧ 0 < hvs.numHeaderValues ∧
        ComparedBefore d hvs 0 d.msgDescriptions.length d.msgDescriptions))

theorem firstMatch_or (d : CompMsgMsgDesc) (hvs : HeaderValueInfos) :
    (∃ k, FirstMatch d hvs k) ∨ ∀ m ∈ d.msgDescriptions, ¬ Matches d hvs m := by
  classical
  by_cases h : ∃ (k : Nat) (m : MsgDescription), d.msgDescriptions[k]? = some m ∧ Matches d hvs m
  · refine .inl ⟨Nat.find h, Nat.find_spec h, fun j m hj hm hmatch => ?_⟩
    exact Nat.find_min h hj ⟨m, hm, hmatch⟩
  · refine .inr fun m hm hmatch => h ?_
    obtain ⟨k, hk, heq⟩ := List.mem_iff_getElem.mp hm
    exact ⟨k, m, by rw [List.getElem?_eq_getElem hk, heq], hmatch⟩

theorem firstMatch_unique (d : CompMsgMsgDesc) (hvs : HeaderValueInfos) (k l : Nat)
    (hk : FirstMatch d hvs k) (hl : FirstMatch d hvs l) : k = l := by
  obtain ⟨m, hm, hmatch⟩ := hk.1
  obtain ⟨m', hm', hmatch'⟩ := hl.1
  obtain h | h | h := Nat.lt_trichotomy k l
  · exact absurd hmatch (hl.2 k m h hm)
  · exact h
  · exact absurd hmatch' (hk.2 l m' h hm')

theorem firstMatch_mem (d : CompMsgMsgDesc) (hvs : HeaderValueInfos) (k : Nat)
    (hk : FirstMatch d hvs k) : k < d.msgDescriptions.length ∧
      ¬ ∀ m ∈ d.msgDescriptions, ¬ Matches d hvs m := by
  obtain ⟨⟨m, hm, hmatch⟩, -⟩ := hk
  exact ⟨(List.getElem?_eq_some_iff.mp hm).1,
    fun h => h m (List.mem_of_getElem? hm) hmatch⟩

/-- What is found in a list of descriptions does not depend on the locals. -/
theorem getMsgDescription_eq (locals : Locals) (d : CompMsgMsgDesc) (hvs : HeaderValueInfos)
    (h : d.msgDescriptions ≠ []) :
    getMsgDescriptionFromUniqueFields locals d hvs =
      searchDescriptions locals d hvs false none 0 d.msgDescriptions := by
  rw [getMsgDescriptionFromUniqueFields]
  cases hds : d.msgDescriptions with
  | nil => exact absurd hds h
  | cons m ms => rfl

/-- Without header values the first description is taken. -/
theorem getMsgDescription_none (locals : Locals) (d : CompMsgMsgDesc) (hvs : HeaderValueInfos)
    (h : d.msgDescriptions ≠ []) (hnum : hvs.numHeaderValues = 0) :
    getMsgDescriptionFromUniqueFields locals d hvs = (.ok, some 0) := by
  rw [getMsgDescriptionFromUniqueFields]
  cases hds : d.msgDescriptions with
  | nil => exact absurd hds h
  | cons m ms => rw [searchDescriptions, hnum, checkHeaderValues]

/-- No comparison succeeds and the values are taken at the wrong index, so that the description
asked for is found only where the header values fit by chance. -/
theorem selectsByUnique_iff (d : CompMsgMsgDesc) (hvs : HeaderValueInfos) :
    SelectsByUnique d hvs ↔ ValuesFit d hvs := by
  constructor
  · intro h
    obtain ⟨hfirst, hmissing⟩ := h ⟨0, true, ⟨.numeric 0, .none, 0⟩⟩
    have hne : d.msgDescriptions ≠ [] := by
      intro hnil
      have hr := hmissing (by rw [hnil]; simp)
      rw [getMsgDescriptionFromUniqueFields, hnil, searchDescriptions] at hr
      cases hr
    refine ⟨hne, ?_⟩
    obtain hnum | hnum := Nat.eq_zero_or_pos hvs.numHeaderValues
    · rw [getMsgDescription_none _ d hvs hne hnum] at hfirst hmissing
      obtain ⟨k, hk⟩ | hnone := firstMatch_or d hvs
      · have hr := hfirst k hk
        exact .inl ⟨k, hk, .inl ⟨hnum, by simpa using hr.symm⟩⟩
      · cases hmissing hnone
    · rw [getMsgDescription_eq _ d hvs hne] at hfirst hmissing
      obtain ⟨k, hk⟩ | hnone := firstMatch_or d hvs
      · obtain ⟨i, rfl, -, hpass, hbefore⟩ :=
          (searchDescriptions_ok_iff _ d hvs none 0 k _ hnum).mp (hfirst k hk)
        rw [Nat.zero_add] at hk hpass
        exact .inl ⟨i, hk, .inr ⟨hnum, hpass, hbefore⟩⟩
      · exact .inr ⟨hnone, hnum,
          (searchDescriptions_missing_iff _ d hvs none 0 _ hnum).mp (hmissing hnone)⟩
  · rintro ⟨hne, ⟨k, hk, hfit⟩ | ⟨hnone, hnum, hbefore⟩⟩ locals
    · obtain ⟨hlt, hsome⟩ := firstMatch_mem d hvs k hk
      refine ⟨fun l hl => ?_, fun hnone => absurd hnone hsome⟩
      rw [firstMatch_unique d hvs l k hl hk]
      obtain ⟨hnum, rfl⟩ | ⟨hnum, hpass, hbefore⟩ := hfit
      · exact getMsgDescription_none locals d hvs hne hnum
      · rw [getMsgDescription_eq locals d hvs hne]
        exact (searchDescriptions_ok_iff locals d hvs none 0 k _ hnum).mpr
          ⟨k, (Nat.zero_add k).symm, hlt, hpass, hbefore⟩
    · refine ⟨fun k hk => absurd hnone (firstMatch_mem d hvs k hk).2, fun _ => ?_⟩
      rw [getMsgDescription_eq locals d hvs hne]
      exact (searchDescriptions_missing_iff locals d hvs none 0 _ hnum).mpr hbefore

/-- One description whose only unique field is `@dst`, and the value that it has. -/
def dstDesc : CompMsgMsgDesc :=
  { typesAndNames := initTypesAndNames
    fieldDescInfos := fun fldId =>
      if fldId = specFieldDst then some ⟨fieldHeaderUnique ||| fieldHeader, .uint8, 1, 0⟩ else none
    msgHeaderInfo := ⟨1, [specFieldDst]⟩
    msgMidPartInfo := ⟨0, []⟩
    msgTrailerInfo := ⟨0, []⟩
    msgDescriptions := [⟨fun _ => 0x15, 0x4131, none, 0, 0⟩]
    expectedLines := 0
    currLineNo := 0
    inBounds := true }

def dstValue : HeaderValueInfos := ⟨1, fun _ => ⟨"@dst", .numeric 0x15, .uint8, 1⟩⟩

theorem dstValue_not_selected : ¬ SelectsByUnique dstDesc dstValue ∧
    FirstMatch dstDesc dstValue 0 ∧
      (getMsgDescriptionFromUniqueFields ⟨0, true, ⟨.numeric 0, .none, 0⟩⟩ dstDesc dstValue).1 =
        .error .headerNotFound := by
  have hmatch : FirstMatch dstDesc dstValue 0 := by
    refine ⟨⟨_, rfl, fun fieldId hf _ => ?_⟩, fun j _ hj => absurd hj (Nat.not_lt_zero j)⟩
    obtain rfl : fieldId = specFieldDst := List.mem_singleton.mp hf
    exact ⟨0, Nat.zero_lt_one, by decide +kernel, _, rfl, by decide +kernel⟩
  have hr : (getMsgDescriptionFromUniqueFields ⟨0, true, ⟨.numeric 0, .none, 0⟩⟩ dstDesc
      dstValue).1 = .error .headerNotFound := by decide +kernel
  refine ⟨fun h => ?_, hmatch, hr⟩
  rw [(h _).1 0 hmatch] at hr
  cases hr

end NodeMcu.CompMsg.UniqueFields
