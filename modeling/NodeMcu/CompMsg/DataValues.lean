import NodeMcu.CompMsg.MsgDesc

namespace NodeMcu.CompMsg.DataValues

open NodeMcu.CompMsg.Codes NodeMcu.CompMsg.TypesAndNames NodeMcu.CompMsg.MsgDesc

/-- The union in `dataValue_t`: a number, or the bytes a pointer leads to. -/
inductive Value
  | numeric (n : Int)
  | bytes (bs : List UInt8)
  deriving DecidableEq, Repr

structure DataValue where
  value : Value
  fieldTypeId : FieldType
  fieldLgth : Nat
  deriving DecidableEq, Repr

/-- The comparison has no branch for equal values. -/
def compareDataValues (fieldDescInfo : FieldDescInfo) (_dataValue1 _dataValue2 : DataValue) :
    Result :=
  match fieldDescInfo.fieldTypeId with
  | .uint8 => .error .differentFieldValue
  | _ => .error .badFieldType

/-- `fieldValue_t`, with what is copied from it. The callback is a pointer. -/
structure FieldValue where
  fieldNameId : UInt8
  fieldValueFlags : Nat
  fieldValueCallbackId : Nat
  value : Value
  fieldValueCallback : Nat
  deriving DecidableEq, Repr

/-- An entry of `os_zalloc`. -/
def zeroFieldValue : FieldValue := ⟨0, 0, 0, .numeric 0, 0⟩

/-- `msgFieldValue_t`. The list holds the first `numFieldValues` entries of the array. -/
structure MsgFieldValue where
  cmdKey : Nat
  numFieldValues : Nat
  fieldValues : Option (List FieldValue)
  deriving DecidableEq

/-- `msgFieldValueInfos_t`. The list holds the first `numMsgFieldValues` entries of the array;
`inBounds` records that all writes went below `maxMsgFieldValues`. -/
structure MsgFieldValueInfos where
  numMsgFieldValues : Nat
  maxMsgFieldValues : Nat
  msgFieldValues : Option (List MsgFieldValue)
  inBounds : Bool

def initDataValue : MsgFieldValueInfos := ⟨0, 0, none, true⟩

/-- Which allocations of a call find memory: the table and the values of a new entry. -/
structure ValueHeap where
  infos : Bool
  values : Bool

/-- The entries that the loops over the command keys go through. -/
def infoEntries (s : MsgFieldValueInfos) : Option (List MsgFieldValue) :=
  if s.numMsgFieldValues = 0 then some [] else s.msgFieldValues

def findKey (cmdKey : Nat) (es : List MsgFieldValue) : Option Nat :=
  es.findIdx? fun e => e.cmdKey == cmdKey

def growInfos (heap : ValueHeap) (s : MsgFieldValueInfos) : Result × MsgFieldValueInfos :=
  if s.maxMsgFieldValues ≤ s.numMsgFieldValues then
    let maxMsgFieldValues :=
      if s.maxMsgFieldValues = 0 then 5 else (s.maxMsgFieldValues + 2) % 65536
    if heap.infos then
      (.ok (), { s with
        maxMsgFieldValues := maxMsgFieldValues
        msgFieldValues := some (s.msgFieldValues.getD []) })
    else (.error .outOfMemory, { s with
      maxMsgFieldValues := maxMsgFieldValues
      msgFieldValues := none })
  else (.ok (), s)

/-- What `os_zalloc` yields for the values. A negative number asks for more than there is, and a
null pointer matters only in front of entries. -/
def newFieldValues (heap : ValueHeap) (numEntries : Int) : Option (List FieldValue) :=
  let numFieldValues := (numEntries % 65536).toNat
  if numFieldValues = 0 ∨ (heap.values ∧ 0 ≤ numEntries) then
    some (List.replicate numFieldValues zeroFieldValue)
  else none

def newMsgFieldValue (heap : ValueHeap) (cmdKey : Nat) (numEntries : Int) : MsgFieldValue :=
  { cmdKey := cmdKey
    numFieldValues := (numEntries % 65536).toNat
    fieldValues := newFieldValues heap numEntries }

/-- Puts a new entry behind the last one. Nothing checks that its values have got memory. -/
def addInfo (heap : ValueHeap) (cmdKey : Nat) (numEntries : Int) (s : MsgFieldValueInfos) :
    Ret × MsgFieldValueInfos :=
  match s.msgFieldValues with
  | none => (.crash, s)
  | some es =>
    let numMsgFieldValues := (s.numMsgFieldValues + 1) % 65536
    (.ok, { s with
      numMsgFieldValues := numMsgFieldValues
      msgFieldValues :=
        some ((es ++ [newMsgFieldValue heap cmdKey numEntries]).take numMsgFieldValues)
      inBounds := s.inBounds && decide (s.numMsgFieldValues < s.maxMsgFieldValues) })

def newMsgFieldValueInfos (heap : ValueHeap) (cmdKey : Nat) (numEntries : Int)
    (s : MsgFieldValueInfos) : Ret × MsgFieldValueInfos :=
  match infoEntries s with
  | none => (.crash, s)
  | some es =>
    match findKey cmdKey es with
    | some _ => (.ok, s)
    | none =>
      let g := growInfos heap s
      match g.1 with
      | .error e => (.error e, g.2)
      | .ok _ => addInfo heap cmdKey numEntries g.2

/-- How the call ends and the place of the entry it hands out. -/
def getMsgFieldValueInfo (cmdKey : Nat) (s : MsgFieldValueInfos) : Ret × Option Nat :=
  match infoEntries s with
  | none => (.crash, none)
  | some es =>
    match findKey cmdKey es with
    | some idx => (.ok, some idx)
    | none => (.error .fieldValueInfoNotFound, none)

/-- The loop over the values: whether the id is there, and the first free entry. -/
def searchValues (fieldNameId : UInt8) (idx : Nat) (freeFieldValue : Option Nat) :
    List FieldValue → Bool × Option Nat
  | [] => (false, freeFieldValue)
  | v :: vs =>
    if v.fieldNameId = 0 then
      searchValues fieldNameId (idx + 1)
        (if freeFieldValue = none then some idx else freeFieldValue) vs
    else if v.fieldNameId = fieldNameId then (true, freeFieldValue)
    else searchValues fieldNameId (idx + 1) freeFieldValue vs

/-- The values that the loops go through. -/
def valueEntries (e : MsgFieldValue) : Option (List FieldValue) :=
  if e.numFieldValues = 0 then some [] else e.fieldValues

def setMsgFieldValueInfo (s : CompMsgTypesAndNames) (fieldValue : FieldValue)
    (msgFieldValue : MsgFieldValue) : Ret × MsgFieldValue :=
  match valueEntries msgFieldValue with
  | none => (.crash, msgFieldValue)
  | some vs =>
    match searchValues fieldValue.fieldNameId 0 none vs with
    | (true, _) => (.error .duplicateFieldValueEntry, msgFieldValue)
    | (false, none) => (.error .tooManyFieldValueEntries, msgFieldValue)
    | (false, some idx) =>
      checkRetOK ((getFieldNameStrFromId s fieldValue.fieldNameId.toNat).1, msgFieldValue)
        fun msgFieldValue =>
          (.ok, { msgFieldValue with fieldValues := some (vs.set idx fieldValue) })

/-- A call of `setMsgFieldValueInfo` with the entry that `getMsgFieldValueInfo` hands out, as
`handleMsgValuesLine` makes it. -/
def setValue (names : CompMsgTypesAndNames) (cmdKey : Nat) (fieldValue : FieldValue)
    (s : MsgFieldValueInfos) : Ret × MsgFieldValueInfos :=
  match getMsgFieldValueInfo cmdKey s, s.msgFieldValues with
  | (.ok, some idx), some es =>
    match es[idx]? with
    | none => (.crash, s)
    | some e =>
      let r := setMsgFieldValueInfo names fieldValue e
      (r.1, { s with msgFieldValues := some (es.set idx r.2) })
  | (.ok, _), _ => (.crash, s)
  | (r, _), _ => (r, s)

/-- The inner loop of `getFieldValueInfo`. The parameter of the call is wider than an id. -/
def findValue (fieldNameId : Nat) (e : MsgFieldValue) : Ret × Option FieldValue :=
  match valueEntries e with
  | none => (.crash, none)
  | some vs => (.ok, vs.find? fun v => v.fieldNameId.toNat == fieldNameId)

/-- The outer loop. It does not stop at the first entry with the command key. -/
def findFieldValue (cmdKey fieldNameId : Nat) :
    List MsgFieldValue → Ret × Option FieldValue
  | [] => (.error .dataValueFieldNotFound, none)
  | e :: es =>
    if e.cmdKey = cmdKey then
      match findValue fieldNameId e with
      | (.ok, some v) => (.ok, some v)
      | (.ok, none) => findFieldValue cmdKey fieldNameId es
      | (r, _) => (r, none)
    else findFieldValue cmdKey fieldNameId es

def getFieldValueInfo (cmdKey fieldNameId : Nat) (s : MsgFieldValueInfos) :
    Ret × Option FieldValue :=
  match infoEntries s with
  | none => (.crash, none)
  | some es => findFieldValue cmdKey fieldNameId es

end NodeMcu.CompMsg.DataValues
