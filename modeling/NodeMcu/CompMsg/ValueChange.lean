import NodeMcu.CompMsg.DataValues
import NodeMcu.Lib.Text

namespace NodeMcu.CompMsg.ValueChange

open NodeMcu.Lib.Text
open NodeMcu.CompMsg.Codes NodeMcu.CompMsg.DataValues

def fieldIsString : Nat := 1

def fieldIsNumeric : Nat := 2

def fieldHasCallback : Nat := 4

/-- Flags and value of the entry that is changed. The copy of a string is not checked: without
memory a string goes through a null pointer, and an empty one is stored as one. There is no value
where a number is followed as a pointer. -/
def storeContent (heap : Bool) (fieldValue : FieldValue) : Option (Nat × Value) :=
  if hasFlag fieldValue.fieldValueFlags fieldIsNumeric then
    some (fieldValue.fieldValueFlags, fieldValue.value)
  else
    match fieldValue.value with
    | .numeric _ => none
    | .bytes bs =>
      if heap then some (fieldValue.fieldValueFlags ||| fieldIsString, .bytes (cString bs))
      else if cString bs = [] then
        some (fieldValue.fieldValueFlags ||| fieldIsString, .numeric 0)
      else none

/-- The entry with new flags and a new value, the id of the callback and the callback, if there is
one. -/
def withContent (fieldValue myFieldValue : FieldValue) (content : Nat × Value) : FieldValue :=
  { myFieldValue with
    fieldValueFlags :=
      if fieldValue.fieldValueCallback ≠ 0 then content.1 ||| fieldHasCallback else content.1
    value := content.2
    fieldValueCallbackId := fieldValue.fieldValueCallbackId
    fieldValueCallback :=
      if fieldValue.fieldValueCallback ≠ 0 then fieldValue.fieldValueCallback
      else myFieldValue.fieldValueCallback }

/-- The changes to the entry that is found. What its old string takes is freed. -/
def storeValue (heap : Bool) (fieldValue myFieldValue : FieldValue) : Option FieldValue :=
  (storeContent heap fieldValue).map (withContent fieldValue myFieldValue)

/-- How the inner loop is left. -/
inductive Inner
  | found (myFieldValue : FieldValue)
  | done (idx : Nat)
  | crash

/-- The inner loop, `none` when the fuel ends. It counts the index of the outer loop up, not its
own. -/
def innerLoop (fieldNameId numFieldValues fieldIdx : Nat) (vs : List FieldValue) :
    Nat → Nat → Option Inner
  | 0, _ => none
  | fuel + 1, idx =>
    if fieldIdx < numFieldValues then
      match vs[fieldIdx]? with
      | none => some .crash
      | some v =>
        if v.fieldNameId.toNat = fieldNameId then some (.found v)
        else innerLoop fieldNameId numFieldValues fieldIdx vs fuel (idx + 1)
    else some (.done idx)

/-- The first value of an entry is replaced. -/
def putFirst (s : MsgFieldValueInfos) (idx : Nat) (v : FieldValue) : MsgFieldValueInfos :=
  { s with
    msgFieldValues := s.msgFieldValues.map fun es =>
      es.modify idx fun e => { e with fieldValues := e.fieldValues.map fun vs => vs.set 0 v } }

/-- The outer loop, `none` when the fuel ends. It does not count its index up. -/
def outerLoop (heap : Bool) (cmdKey fieldNameId : Nat) (fieldValue : FieldValue)
    (s : MsgFieldValueInfos) : Nat → Nat → Option (Ret × MsgFieldValueInfos)
  | 0, _ => none
  | fuel + 1, idx =>
    if idx < s.numMsgFieldValues then
      match s.msgFieldValues.bind fun es => es[idx]? with
      | none => some (.crash, s)
      | some e =>
        if e.cmdKey = cmdKey then
          match innerLoop fieldNameId e.numFieldValues 0 (e.fieldValues.getD []) fuel idx with
          | none => none
          | some .crash => some (.crash, s)
          | some (.found v) =>
            match storeValue heap fieldValue v with
            | none => some (.crash, s)
            | some v => some (.ok, putFirst s idx v)
          | some (.done idx) => outerLoop heap cmdKey fieldNameId fieldValue s fuel idx
        else outerLoop heap cmdKey fieldNameId fieldValue s fuel idx
    else some (.error .dataValueFieldNotFound, s)

/-- `heap` tells whether the copy of a string finds memory. -/
def setFieldValueInfo (heap : Bool) (fuel cmdKey fieldNameId : Nat) (fieldValue : FieldValue)
    (s : MsgFieldValueInfos) : Option (Ret × MsgFieldValueInfos) :=
  outerLoop heap cmdKey fieldNameId fieldValue s fuel 0

/-- A table whose arrays are there, with the entries that its counters count. -/
structure ValueTable where
  infos : MsgFieldValueInfos
  entries : List MsgFieldValue
  entries_eq : infoEntries infos = some entries
  length_eq : entries.length = infos.numMsgFieldValues
  values : ∀ e ∈ entries, ∃ vs, valueEntries e = some vs ∧ vs.length = e.numFieldValues

/-- A value whose flag says what it is. -/
structure NewValue where
  fieldValue : FieldValue
  typed : hasFlag fieldValue.fieldValueFlags fieldIsNumeric = true ↔
    ∃ n, fieldValue.value = .numeric n

/-- The number, or the string. -/
def NewValue.content (v : NewValue) : Value :=
  match v.fieldValue.value with
  | .numeric n => .numeric n
  | .bytes bs => .bytes (cString bs)

/-- The entry holds the new value, with its callback id and with its callback if it has one. -/
def NewValue.StoredAs (v : NewValue) (got : FieldValue) : Prop :=
  got.value = v.content ∧ got.fieldValueCallbackId = v.fieldValue.fieldValueCallbackId ∧
    (v.fieldValue.fieldValueCallback ≠ 0 →
      got.fieldValueCallback = v.fieldValue.fieldValueCallback)

namespace ValueTable

/-- An entry with the command key has a value with the id. -/
def Has (t : ValueTable) (cmdKey fieldNameId : Nat) : Prop :=
  ∃ e ∈ t.entries, e.cmdKey = cmdKey ∧
    ∃ vs, valueEntries e = some vs ∧ ∃ v ∈ vs, v.fieldNameId.toNat = fieldNameId

/-- The call returns. If the pair is there it stores the value, to which a lookup leads from then
on, and no lookup of another pair notices; otherwise it fails and changes nothing. -/
def Changes (t : ValueTable) (heap : Bool) (cmdKey fieldNameId : Nat) (v : NewValue) : Prop :=
  ∃ fuel r, setFieldValueInfo heap fuel cmdKey fieldNameId v.fieldValue t.infos = some r ∧
    (r.1 = .ok ↔ t.Has cmdKey fieldNameId) ∧
    (t.Has cmdKey fieldNameId →
      (∃ got, getFieldValueInfo cmdKey fieldNameId r.2 = (.ok, some got) ∧ v.StoredAs got) ∧
      ∀ k i, (k, i) ≠ (cmdKey, fieldNameId) →
        getFieldValueInfo k i r.2 = getFieldValueInfo k i t.infos) ∧
    (¬ t.Has cmdKey fieldNameId → r = (.error .dataValueFieldNotFound, t.infos))

/-- The table is empty, or its first entry has the key, the first value there the id, and a string
is copied. -/
def AtFront (t : ValueTable) (heap : Bool) (cmdKey fieldNameId : Nat) (v : NewValue) : Prop :=
  t.entries = [] ∨ ∃ e es w ws, t.entries = e :: es ∧ e.cmdKey = cmdKey ∧
    valueEntries e = some (w :: ws) ∧ w.fieldNameId.toNat = fieldNameId ∧
    (heap = true ∨ ∃ n, v.fieldValue.value = .numeric n)

end ValueTable

/-! ## The loops -/

section Loops

variable {fieldNameId numFieldValues : Nat} {vs : List FieldValue}

theorem innerLoop_other (w : FieldValue) (ws : List FieldValue) (hn : 0 < numFieldValues)
    (hw : w.fieldNameId.toNat ≠ fieldNameId) (fuel idx : Nat) :
    innerLoop fieldNameId numFieldValues 0 (w :: ws) fuel idx = none := by
  induction fuel generalizing idx with
  | zero => rfl
  | succ fuel ih =>
    simp only [innerLoop, hn, if_true, List.getElem?_cons_zero, hw, if_false]
    exact ih (idx + 1)

theorem innerLoop_found (w : FieldValue) (ws : List FieldValue) (hn : 0 < numFieldValues)
    (hw : w.fieldNameId.toNat = fieldNameId) (fuel idx : Nat) :
    innerLoop fieldNameId numFieldValues 0 (w :: ws) (fuel + 1) idx = some (.found w) := by
  simp only [innerLoop, hn, if_true, List.getElem?_cons_zero, hw]

theorem innerLoop_empty (fuel idx : Nat) :
    innerLoop fieldNameId 0 0 vs (fuel + 1) idx = some (.done idx) := by
  simp only [innerLoop, Nat.lt_irrefl, if_false]

end Loops

section Outer

variable {heap : Bool} {cmdKey fieldNameId : Nat} {fieldValue : FieldValue}
variable {s : MsgFieldValueInfos} {e : MsgFieldValue} {es : List MsgFieldValue}

/-- One round on the first entry. -/
theorem outerLoop_cons (hs : s.msgFieldValues = some (e :: es)) (hn : 0 < s.numMsgFieldValues)
    (fuel : Nat) : outerLoop heap cmdKey fieldNameId fieldValue s (fuel + 1) 0 =
      if e.cmdKey = cmdKey then
        match innerLoop fieldNameId e.numFieldValues 0 (e.fieldValues.getD []) fuel 0 with
        | none => none
        | some .crash => some (.crash, s)
        | some (.found v) =>
          match storeValue heap fieldValue v with
          | none => some (.crash, s)
          | some v => some (.ok, putFirst s 0 v)
        | some (.done idx) => outerLoop heap cmdKey fieldNameId fieldValue s fuel idx
      else outerLoop heap cmdKey fieldNameId fieldValue s fuel 0 := by
  simp only [outerLoop, hn, if_true, hs, Option.bind_some, List.getElem?_cons_zero]

theorem outerLoop_otherKey (hs : s.msgFieldValues = some (e :: es))
    (hn : 0 < s.numMsgFieldValues) (hk : e.cmdKey ≠ cmdKey) (fuel : Nat) :
    outerLoop heap cmdKey fieldNameId fieldValue s fuel 0 = none := by
  induction fuel with
  | zero => rfl
  | succ fuel ih => rw [outerLoop_cons hs hn, if_neg hk, ih]

theorem outerLoop_noValues (hs : s.msgFieldValues = some (e :: es))
    (hn : 0 < s.numMsgFieldValues) (he : e.numFieldValues = 0) (fuel : Nat) :
    outerLoop heap cmdKey fieldNameId fieldValue s fuel 0 = none := by
  induction fuel with
  | zero => rfl
  | succ fuel ih =>
    rw [outerLoop_cons hs hn, he]
    split
    · cases fuel with
      | zero => rfl
      | succ fuel =>
        rw [innerLoop_empty]
        exact ih
    · exact ih

theorem outerLoop_otherId {w : FieldValue} {ws : List FieldValue}
    (hs : s.msgFieldValues = some (e :: es)) (hn : 0 < s.numMsgFieldValues)
    (hf : 0 < e.numFieldValues) (he : e.fieldValues = some (w :: ws))
    (hw : w.fieldNameId.toNat ≠ fieldNameId) (fuel : Nat) :
    outerLoop heap cmdKey fieldNameId fieldValue s fuel 0 = none := by
  induction fuel with
  | zero => rfl
  | succ fuel ih =>
    rw [outerLoop_cons hs hn, he, Option.getD_some, innerLoop_other w ws hf hw, ih, ite_self]

/-- Where both match at once, the call ends after the first round. -/
theorem outerLoop_found (heap : Bool) (fieldValue : FieldValue) {w : FieldValue}
    {ws : List FieldValue} (hs : s.msgFieldValues = some (e :: es)) (hn : 0 < s.numMsgFieldValues)
    (hk : e.cmdKey = cmdKey) (hf : 0 < e.numFieldValues) (he : e.fieldValues = some (w :: ws))
    (hw : w.fieldNameId.toNat = fieldNameId) (fuel : Nat) :
    outerLoop heap cmdKey fieldNameId fieldValue s fuel 0 =
      if fuel < 2 then none
      else
        match storeValue heap fieldValue w with
        | none => some (.crash, s)
        | some v => some (.ok, putFirst s 0 v) := by
  match fuel with
  | 0 => rfl
  | 1 =>
    rw [outerLoop_cons hs hn, if_pos hk]
    rfl
  | fuel + 2 =>
    have hfuel : ¬ fuel + 2 < 2 := by omega
    rw [outerLoop_cons hs hn, if_pos hk, he, Option.getD_some, innerLoop_found w ws hf hw,
      if_neg hfuel]

end Outer

/-! ## Behind the change -/

theorem valueEntries_cons {e : MsgFieldValue} {w : FieldValue} {ws : List FieldValue}
    (h : valueEntries e = some (w :: ws)) :
    0 < e.numFieldValues ∧ e.fieldValues = some (w :: ws) := by
  rw [valueEntries] at h
  split at h
  · simp at h
  · exact ⟨by omega, h⟩

/-- The entry with its first value replaced. -/
def withFirst (e : MsgFieldValue) (v : FieldValue) (ws : List FieldValue) : MsgFieldValue :=
  { e with fieldValues := some (v :: ws) }

theorem valueEntries_withFirst {e : MsgFieldValue} (v : FieldValue) (ws : List FieldValue)
    (h : 0 < e.numFieldValues) : valueEntries (withFirst e v ws) = some (v :: ws) :=
  if_neg (Nat.pos_iff_ne_zero.mp h)

/-- The lookup behind the change finds the new value for the pair, and what it found before for
every other one. -/
theorem findFieldValue_withFirst {e : MsgFieldValue} {es : List MsgFieldValue} {w v : FieldValue}
    {ws : List FieldValue} (h : valueEntries e = some (w :: ws))
    (hid : v.fieldNameId = w.fieldNameId) (k i : Nat) :
    findFieldValue k i (withFirst e v ws :: es) =
      if (k, i) = (e.cmdKey, w.fieldNameId.toNat) then (.ok, some v)
      else findFieldValue k i (e :: es) := by
  have hv := valueEntries_withFirst v ws (valueEntries_cons h).1
  have hkey : (withFirst e v ws).cmdKey = e.cmdKey := rfl
  rw [findFieldValue, findFieldValue, findValue, findValue, h, hv, hkey]
  by_cases hk : e.cmdKey = k
  · by_cases hi : w.fieldNameId.toNat = i
    · simp [hk, hi, hid]
    · have hpair : ¬ (k, i) = (e.cmdKey, w.fieldNameId.toNat) :=
        fun he => hi (Prod.mk.inj he).2.symm
      simp [hk, hi, hid, Ne.symm hi]
  · have hpair : ¬ (k, i) = (e.cmdKey, w.fieldNameId.toNat) :=
      fun he => hk (Prod.mk.inj he).1.symm
    simp [hk, hpair]

theorem storedAs_withContent (v : NewValue) (w : FieldValue) (content : Nat × Value) :
    v.StoredAs (withContent v.fieldValue w content) ↔ content.2 = v.content := by
  constructor
  · intro h
    exact h.1
  · intro h
    refine ⟨h, rfl, ?_⟩
    intro hne
    exact if_pos hne

/-- What is stored is the new value, unless a string finds no memory. -/
theorem storeContent_iff (heap : Bool) (v : NewValue) :
    (∃ flags, storeContent heap v.fieldValue = some (flags, v.content)) ↔
      heap = true ∨ ∃ n, v.fieldValue.value = .numeric n := by
  have htyped := v.typed
  cases hvalue : v.fieldValue.value with
  | numeric n =>
    have hnum : hasFlag v.fieldValue.fieldValueFlags fieldIsNumeric = true :=
      htyped.mpr ⟨n, hvalue⟩
    refine iff_of_true ⟨v.fieldValue.fieldValueFlags, ?_⟩ (.inr ⟨n, rfl⟩)
    simp only [storeContent, NewValue.content, hnum, hvalue, if_true]
  | bytes bs =>
    have hnum : hasFlag v.fieldValue.fieldValueFlags fieldIsNumeric = false := by
      rw [Bool.eq_false_iff]
      intro hn
      obtain ⟨n, h⟩ := htyped.mp hn
      rw [hvalue] at h
      cases h
    have hcontent : v.content = .bytes (cString bs) := by
      simp only [NewValue.content, hvalue]
    rw [hcontent]
    cases heap with
    | true =>
      refine iff_of_true ⟨v.fieldValue.fieldValueFlags ||| fieldIsString, ?_⟩ (.inl rfl)
      simp only [storeContent, hnum, hvalue, Bool.false_eq_true, if_false, if_true]
    | false =>
      simp only [storeContent, hnum, hvalue, Bool.false_eq_true, if_false, reduceCtorEq,
        exists_false, or_false, iff_false]
      split <;> simp

namespace ValueTable

variable (t : ValueTable)

theorem entries_nil (h : t.entries = []) : t.infos.numMsgFieldValues = 0 := by
  rw [← t.length_eq, h]
  rfl

theorem entries_cons {e : MsgFieldValue} {es : List MsgFieldValue} (h : t.entries = e :: es) :
    0 < t.infos.numMsgFieldValues ∧ t.infos.msgFieldValues = some (e :: es) := by
  have hn : 0 < t.infos.numMsgFieldValues := by
    rw [← t.length_eq, h]
    exact Nat.succ_pos _
  have hentries := t.entries_eq
  rw [infoEntries, if_neg (Nat.pos_iff_ne_zero.mp hn), h] at hentries
  exact ⟨hn, hentries⟩

theorem not_has_nil (h : t.entries = []) (cmdKey fieldNameId : Nat) :
    ¬ t.Has cmdKey fieldNameId := by
  rintro ⟨e, he, -⟩
  rw [h] at he
  exact absurd he List.not_mem_nil

theorem changes_nil (h : t.entries = []) (heap : Bool) (cmdKey fieldNameId : Nat)
    (v : NewValue) : t.Changes heap cmdKey fieldNameId v := by
  have hnot := t.not_has_nil h cmdKey fieldNameId
  have hn := t.entries_nil h
  have hend : setFieldValueInfo heap 1 cmdKey fieldNameId v.fieldValue t.infos =
      some (.error .dataValueFieldNotFound, t.infos) := by
    simp only [setFieldValueInfo, outerLoop, hn, Nat.lt_irrefl, if_false]
  refine ⟨1, _, hend, ?_, fun h => absurd h hnot, fun _ => rfl⟩
  exact iff_of_false (fun h => nomatch h) hnot

/-- A call that never returns changes nothing. -/
theorem not_changes_of_none {heap : Bool} {cmdKey fieldNameId : Nat} {v : NewValue}
    (h : ∀ fuel, outerLoop heap cmdKey fieldNameId v.fieldValue t.infos fuel 0 = none) :
    ¬ t.Changes heap cmdKey fieldNameId v := by
  rintro ⟨fuel, r, hr, -⟩
  rw [setFieldValueInfo, h fuel] at hr
  cases hr

section Front

variable {t} {e : MsgFieldValue} {es : List MsgFieldValue} {w : FieldValue}
  {ws : List FieldValue}

theorem has_front (ht : t.entries = e :: es) (hv : valueEntries e = some (w :: ws)) :
    t.Has e.cmdKey w.fieldNameId.toNat :=
  ⟨e, by rw [ht]; exact List.mem_cons_self, rfl, w :: ws, hv, w, List.mem_cons_self, rfl⟩

/-- The lookups behind the change. -/
theorem getFieldValueInfo_putFirst (ht : t.entries = e :: es)
    (hv : valueEntries e = some (w :: ws)) (got : FieldValue)
    (hid : got.fieldNameId = w.fieldNameId) (k i : Nat) :
    getFieldValueInfo k i (putFirst t.infos 0 got) =
      if (k, i) = (e.cmdKey, w.fieldNameId.toNat) then (.ok, some got)
      else getFieldValueInfo k i t.infos := by
  obtain ⟨hn, hs⟩ := t.entries_cons ht
  have hne := Nat.pos_iff_ne_zero.mp hn
  have hvalues := (valueEntries_cons hv).2
  have hentries : infoEntries (putFirst t.infos 0 got) = some (withFirst e got ws :: es) := by
    refine (if_neg hne).trans ?_
    simp only [putFirst, hs, Option.map_some, List.modify_zero_cons, hvalues, List.set_cons_zero]
    rfl
  rw [getFieldValueInfo, hentries, getFieldValueInfo, t.entries_eq, ht]
  exact findFieldValue_withFirst hv hid k i

/-- Where the call returns, everything depends on the copy of the string. -/
theorem changes_front_iff (ht : t.entries = e :: es) (hv : valueEntries e = some (w :: ws))
    (heap : Bool) (v : NewValue) :
    t.Changes heap e.cmdKey w.fieldNameId.toNat v ↔
      heap = true ∨ ∃ n, v.fieldValue.value = .numeric n := by
  obtain ⟨hn, hs⟩ := t.entries_cons ht
  obtain ⟨hf, he⟩ := valueEntries_cons hv
  have hloop := outerLoop_found heap v.fieldValue hs hn rfl hf he rfl
  have hhas := has_front ht hv
  rw [← storeContent_iff]
  constructor
  · rintro ⟨fuel, r, hr, hok, hget, -⟩
    rw [setFieldValueInfo, hloop] at hr
    split at hr
    · cases hr
    · cases hstore : storeContent heap v.fieldValue with
      | none =>
        simp only [storeValue, hstore, Option.map_none, Option.some.injEq] at hr
        rw [← hr] at hok
        exact absurd (hok.mpr hhas) (by simp)
      | some content =>
        simp only [storeValue, hstore, Option.map_some, Option.some.injEq] at hr
        obtain ⟨⟨got, hgot, hstored⟩, -⟩ := hget hhas
        have hlookup := getFieldValueInfo_putFirst ht hv (withContent v.fieldValue w content) rfl
          e.cmdKey w.fieldNameId.toNat
        rw [if_pos rfl] at hlookup
        rw [← hr] at hgot
        obtain rfl := Option.some.inj (Prod.mk.inj (hgot.symm.trans hlookup)).2
        have hcontent := (storedAs_withContent v w content).mp hstored
        exact ⟨content.1, by rw [← hcontent]⟩
  · rintro ⟨flags, hstore⟩
    have hr : setFieldValueInfo heap 2 e.cmdKey w.fieldNameId.toNat v.fieldValue t.infos =
        some (.ok, putFirst t.infos 0 (withContent v.fieldValue w (flags, v.content))) := by
      rw [setFieldValueInfo, hloop, if_neg (Nat.lt_irrefl 2)]
      simp only [storeValue, hstore, Option.map_some]
    have hlookup := getFieldValueInfo_putFirst ht hv
      (withContent v.fieldValue w (flags, v.content)) rfl
    refine ⟨2, _, hr, iff_of_true rfl hhas, ?_, fun h => absurd hhas h⟩
    intro _
    constructor
    · refine ⟨withContent v.fieldValue w (flags, v.content), ?_, ?_⟩
      · rw [hlookup, if_pos rfl]
      · exact (storedAs_withContent v w _).mpr rfl
    · intro k i hki
      rw [hlookup, if_neg hki]

end Front

/-- The call does what it is for exactly if the table is empty or the pair is the first one. -/
theorem changes_iff_atFront (heap : Bool) (cmdKey fieldNameId : Nat) (v : NewValue) :
    t.Changes heap cmdKey fieldNameId v ↔ t.AtFront heap cmdKey fieldNameId v := by
  constructor
  · intro h
    cases ht : t.entries with
    | nil => exact .inl ht
    | cons e es =>
      obtain ⟨hn, hs⟩ := t.entries_cons ht
      obtain ⟨vs, hvs, hlen⟩ := t.values e (by rw [ht]; exact List.mem_cons_self)
      by_cases hk : e.cmdKey = cmdKey
      · cases vs with
        | nil => exact absurd h (t.not_changes_of_none (outerLoop_noValues hs hn hlen.symm))
        | cons w ws =>
          obtain ⟨hf, he⟩ := valueEntries_cons hvs
          by_cases hw : w.fieldNameId.toNat = fieldNameId
          · subst hk hw
            exact .inr ⟨e, es, w, ws, ht, rfl, hvs, rfl, (changes_front_iff ht hvs heap v).mp h⟩
          · exact absurd h (t.not_changes_of_none (outerLoop_otherId hs hn hf he hw))
      · exact absurd h (t.not_changes_of_none (outerLoop_otherKey hs hn hk))
  · rintro (ht | ⟨e, es, w, ws, ht, rfl, hvs, rfl, hcopy⟩)
    · exact t.changes_nil ht heap cmdKey fieldNameId v
    · exact (changes_front_iff ht hvs heap v).mpr hcopy

/-- An entry with the values of two fields. -/
def twoFields : MsgFieldValue :=
  ⟨1, 2, some [{ zeroFieldValue with fieldNameId := 1 }, { zeroFieldValue with fieldNameId := 2 }]⟩

theorem twoFields_values :
    ∀ e ∈ [twoFields], ∃ vs, valueEntries e = some vs ∧ vs.length = e.numFieldValues := by
  intro e he
  rw [List.mem_singleton.mp he]
  exact ⟨_, rfl, rfl⟩

def oneEntry : ValueTable :=
  ⟨⟨1, 5, some [twoFields], true⟩, [twoFields], rfl, rfl, twoFields_values⟩

/-- The number seven. -/
def seven : NewValue where
  fieldValue := { zeroFieldValue with fieldValueFlags := fieldIsNumeric, value := .numeric 7 }
  typed := ⟨fun _ => ⟨7, rfl⟩, fun _ => rfl⟩

theorem second_not_changes : ¬ oneEntry.Changes true 1 2 seven := by
  apply not_changes_of_none
  exact outerLoop_otherId rfl Nat.one_pos (Nat.succ_pos 1) rfl (by decide)

end ValueTable

end NodeMcu.CompMsg.ValueChange
