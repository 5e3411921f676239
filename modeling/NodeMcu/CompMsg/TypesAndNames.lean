import NodeMcu.CompMsg.Codes

namespace NodeMcu.CompMsg.TypesAndNames

open NodeMcu.CompMsg.Codes

def noIncr : Int := 0
def incr : Int := 1
def decr : Int := -1

def freeFieldId : Nat := 0xFF

def specialFieldNames : List (String × Nat) :=
  [("@src", 1), ("@grp", 2), ("@dst", 3), ("@totalLgth", 4), ("@ipAddr", 5), ("@cmdKey", 6),
    ("@cmdLgth", 7), ("@randomNum", 8), ("@sequenceNum", 9), ("@filler", 10), ("@crc", 11),
    ("@totalCrc", 12), ("@GUID", 13), ("@srcId", 14), ("@hdrFiller", 15), ("@numKeyValues", 16),
    ("@provisioningSsid", 17), ("@provisioningPort", 18), ("@provisioningIPAddr", 19),
    ("@clientSsid", 20), ("@clientPasswd", 21), ("@clientIPAddr", 22), ("@clientPort", 23),
    ("@clientStatus", 24), ("@SSDPIPAddr", 25), ("@SSDPPort", 26), ("@SSDPStatus", 27),
    ("@cloudPort", 29), ("@cloudSecureConnect", 28), ("@cloudHost1", 30), ("@cloudHost2", 31),
    ("@cloudUrl1Part1", 32), ("@cloudUrl1Part2", 33), ("@cloudUrlTenantId1", 34),
    ("@cloudUrl2Part1", 35), ("@cloudUrl2Part2", 36), ("@cloudUrlTenantId2", 37),
    ("@cloudNodeToken1", 38), ("@cloudNodeToken2", 39), ("@otaPort", 40), ("@otaRomPath", 41),
    ("@otaFsPath", 42), ("@otaHost", 43), ("@prodTestSsid", 44), ("@prodTestPasswd", 45),
    ("@prodTestSecurityType", 46), ("@prodTestTargetProtocol", 47), ("@prodTestIpAddr", 48),
    ("@prodTestSubnet", 49), ("@prodTestGateway", 50), ("@prodTestDns", 51),
    ("@prodTestPingAddress", 52), ("@prodTestStatus", 53), ("@hdrReserve", 54)]

/-- The size of the array, which ends with an entry of its own. -/
def numSpecFieldIds : Nat := 55

/-- `fieldName2id_t`. A null pointer is `none`. -/
structure FieldName where
  fieldName : Option String
  fieldNameId : Nat
  refCnt : Nat
  deriving DecidableEq

/-- The name table and the sizes of the tables its ids are used with. `names` holds the first
`numNames` entries; `inBounds` records that all writes went below `maxNames`. -/
structure CompMsgTypesAndNames where
  numNames : Nat
  maxNames : Nat
  names : Option (List FieldName)
  numMsgDescFields : Nat
  numMsgValFields : Nat
  inBounds : Bool

/-- Which allocations of a call find memory: the name table and the two info tables. -/
structure Heap where
  names : Bool
  descInfos : Bool
  valInfos : Bool

def addMsgFieldDescInfos (heap : Heap) (numEntries : Nat) (s : CompMsgTypesAndNames) :
    Result × CompMsgTypesAndNames :=
  if heap.descInfos then
    (.ok (), { s with numMsgDescFields := (s.numMsgDescFields + numEntries) % 65536 })
  else (.error .outOfMemory, s)

def addMsgFieldValInfos (heap : Heap) (numEntries : Nat) (s : CompMsgTypesAndNames) :
    Result × CompMsgTypesAndNames :=
  if heap.valInfos then
    (.ok (), { s with numMsgValFields := (s.numMsgValFields + numEntries) % 65536 })
  else (.error .outOfMemory, s)

/-- Special names start with a `@` that no `#` or `$` follows. -/
def isSpecial (fieldName : String) : Bool :=
  match fieldName.toList with
  | '@' :: '#' :: _ => false
  | '@' :: '$' :: _ => false
  | '@' :: _ => true
  | _ => false

def growNames (heap : Heap) (s : CompMsgTypesAndNames) : Result × CompMsgTypesAndNames :=
  if s.maxNames ≤ s.numNames then
    let maxNames := if s.maxNames = 0 then 4 else s.maxNames + 2
    if heap.names then
      (.ok (), { s with
        maxNames := maxNames
        names := some (s.names.getD (List.replicate s.numNames ⟨none, 0, 0⟩)) })
    else (.error .outOfMemory, { s with maxNames := maxNames, names := none })
  else (.ok (), s)

/-- What happens to the entry of a name that is found. -/
def countEntry (incrRefCnt : Int) (e : FieldName) : FieldName :=
  if incrRefCnt < 0 then
    let refCnt := e.refCnt - 1
    if refCnt = 0 then ⟨none, freeFieldId, 0⟩ else { e with refCnt := refCnt }
  else if 0 < incrRefCnt then { e with refCnt := (e.refCnt + 1) % 256 }
  else e

/-- The entries behind the search, the id of the name and the first free entry. -/
structure Search where
  names : List FieldName
  found : Option Nat
  firstFree : Option Nat

/-- The search loop from entry `nameIdx` on. -/
def searchNames (fieldName : String) (incrRefCnt : Int) (nameIdx : Nat) (firstFree : Option Nat) :
    List FieldName → Search
  | [] => ⟨[], none, firstFree⟩
  | e :: es =>
    if e.fieldName = some fieldName then
      let e := countEntry incrRefCnt e
      ⟨e :: es, some e.fieldNameId, firstFree⟩
    else
      let free := incrRefCnt = incr ∧ e.fieldNameId = freeFieldId ∧ firstFree = none
      let e := if free then { e with fieldNameId := (nameIdx + 1) % 256 } else e
      let r := searchNames fieldName incrRefCnt (nameIdx + 1)
        (if free then some nameIdx else firstFree) es
      { r with names := e :: r.names }

/-- The id that is handed out for the one in the table. -/
def offsetId (fieldNameId : Nat) : Nat := (fieldNameId + numSpecFieldIds) % 256

/-- Puts the name into a free entry, whose id the search has set. -/
def reuseEntry (idx : Nat) (fieldName : String) (s : CompMsgTypesAndNames) :
    Ret × Option Nat × CompMsgTypesAndNames :=
  (.ok, some (offsetId ((idx + 1) % 256)), { s with
    names := s.names.map fun es =>
      es.modify idx fun e => { e with refCnt := 1, fieldName := some fieldName } })

/-- Puts the name behind the last entry. -/
def addEntry (heap : Heap) (fieldName : String) (s : CompMsgTypesAndNames) :
    Ret × Option Nat × CompMsgTypesAndNames :=
  let r := checkErrOK (addMsgFieldDescInfos heap 1 s) (addMsgFieldValInfos heap 1)
  match r.1, r.2.names with
  | .error e, _ => (.error e, none, r.2)
  | .ok _, none => (.crash, none, r.2)
  | .ok _, some es =>
    let fieldNameId := (s.numNames + 1) % 256
    (.ok, some (offsetId fieldNameId), { r.2 with
      names := some (es ++ [⟨some fieldName, fieldNameId, 1⟩])
      numNames := s.numNames + 1
      inBounds := s.inBounds && decide (s.numNames < s.maxNames) })

/-- The entries that the loops go through. -/
def entries (s : CompMsgTypesAndNames) : Option (List FieldName) :=
  if s.numNames = 0 then some [] else s.names

/-- `getFieldNameIdFromStr` behind the growth of the table. -/
def findName (heap : Heap) (fieldName : String) (incrRefCnt : Int) (s : CompMsgTypesAndNames) :
    Ret × Option Nat × CompMsgTypesAndNames :=
  match entries s with
  | none => (.crash, none, s)
  | some es =>
    let r := searchNames fieldName incrRefCnt 0 none es
    let s := { s with names := s.names.map fun _ => r.names }
    match r.found with
    | some fieldNameId => (.ok, some (offsetId fieldNameId), s)
    | none =>
      if incrRefCnt < 0 then (.ok, none, s)
      else if incrRefCnt = 0 then (.error .fieldNotFound, none, s)
      else
        match r.firstFree with
        | some idx => reuseEntry idx fieldName s
        | none => addEntry heap fieldName s

/-- How the call ends, the id it hands out and the state after it. The parameter `incrRefCnt` is a
`uint8_t`. -/
def getFieldNameIdFromStr (heap : Heap) (s : CompMsgTypesAndNames) (fieldName : String)
    (incrRefCnt : Int) : Ret × Option Nat × CompMsgTypesAndNames :=
  let incrRefCnt := incrRefCnt % 256
  if isSpecial fieldName then
    match specialFieldNames.find? fun e => e.1 == fieldName with
    | some e => (.ok, some e.2, s)
    | none => (.error .badSpecialField, none, s)
  else
    let g := if incrRefCnt = incr then growNames heap s else (.ok (), s)
    match g.1 with
    | .error e => (.error e, none, g.2)
    | .ok _ => findName heap fieldName incrRefCnt g.2

def getFieldNameStrFromId (s : CompMsgTypesAndNames) (fieldNameId : Nat) : Ret × Option String :=
  match specialFieldNames.find? fun e => e.2 == fieldNameId with
  | some e => (.ok, some e.1)
  | none =>
    match entries s with
    | none => (.crash, none)
    | some es =>
      match es.find? fun e => e.fieldNameId == (fieldNameId + 256 - numSpecFieldIds) % 256 with
      | some e => (.ok, e.fieldName)
      | none => (.error .fieldNotFound, none)

/-- The table after `compMsgTypesAndNamesInit`. The ids in the name table start at 1, too, so that
the info tables get one entry more than there are special ids. -/
def initTypesAndNames : CompMsgTypesAndNames :=
  ⟨0, 0, none, numSpecFieldIds + 1, numSpecFieldIds + 1, true⟩

end NodeMcu.CompMsg.TypesAndNames
