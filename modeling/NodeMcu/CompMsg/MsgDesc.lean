import NodeMcu.CompMsg.Fields
import NodeMcu.CompMsg.TypesAndNames

namespace NodeMcu.CompMsg.MsgDesc

open NodeMcu.Lib.Memory
open NodeMcu.CompMsg.Codes NodeMcu.CompMsg.Fields NodeMcu.CompMsg.TypesAndNames

def fieldKeyValue : Nat := 0x08
def fieldHeader : Nat := 0x10
def fieldHeaderUnique : Nat := 0x40
def fieldHeaderChksumNonZero : Nat := 0x80

def hasCmdLgth : Nat := 1

def fieldType2Ids : List (String × FieldType) :=
  [("none", .none), ("uint8_t", .uint8), ("int8_t", .int8), ("uint16_t", .uint16),
    ("int16_t", .int16), ("uint32_t", .uint32), ("int32_t", .int32), ("uint8_t*", .uint8Vector),
    ("int8_t*", .int8Vector), ("uint16_t*", .uint16Vector), ("int16_t*", .int16Vector),
    ("uint32_t*", .uint32Vector), ("int32_t*", .int32Vector)]

def getFieldTypeIdFromStr (fieldTypeStr : String) : Option FieldType :=
  (fieldType2Ids.find? fun e => e.1 == fieldTypeStr).map fun e => e.2

/-- The field groups whose lines `handleMsgCommonLine` handles. -/
inductive FieldGroup
  | header
  | midPart
  | trailer
  | keyValue
  | desc
  deriving DecidableEq, Repr

structure MsgFieldGroupInfo where
  fieldGroupId : FieldGroup
  cmdKey : Nat

/-- The fields of a line. The numbers are what `strtoul` makes of the third and the fourth field,
the fourth one also where the line ends before it. -/
structure Line where
  numLineFields : Nat
  fieldName : String
  fieldType : String
  fieldLgth : Nat
  headerFlag : Int

/-- A description file without its comments and empty lines. -/
structure DescFile where
  expectedLines : Int
  lines : List Line

structure FieldDescInfo where
  fieldFlags : Nat
  fieldTypeId : FieldType
  fieldLgth : Nat
  fieldOffset : Nat
  deriving DecidableEq, Repr

/-- `msgHeaderInfo_t`, `msgMidPartInfo_t` and `msgTrailerInfo_t`. The list holds as many ids as the
counter counts. -/
structure PartInfo where
  lgth : Nat
  fieldIds : List Nat
  deriving DecidableEq

/-- The two arrays of a description, in their allocated length. -/
structure Sequence where
  fieldSequence : List Nat
  fieldOffsets : List Nat
  deriving DecidableEq

/-- `msgDescription_t`. A null pointer is `none`. -/
structure MsgDescription where
  headerFieldValues : Mem
  cmdKey : Nat
  sequence : Option Sequence
  lastFieldOffset : Nat
  fieldFlags : Nat

/-- `compMsgMsgDesc_t` with the tables it works on. `inBounds` records that all writes went to
entries of the arrays. -/
structure CompMsgMsgDesc where
  typesAndNames : CompMsgTypesAndNames
  fieldDescInfos : Nat → Option FieldDescInfo
  msgHeaderInfo : PartInfo
  msgMidPartInfo : PartInfo
  msgTrailerInfo : PartInfo
  msgDescriptions : List MsgDescription
  expectedLines : Int
  currLineNo : Nat
  inBounds : Bool

/-- What the locals of `handleMsgCommonLine` hold that it may read before it sets them. -/
structure Unset where
  fieldNameId : Nat
  fieldOffset : Nat
  fieldIdx : Int

def zeroLocals : Unset := ⟨0, 0, 0⟩

/-- All allocations find memory. -/
def allocated : Heap := ⟨true, true, true⟩

/-- The common body of the functions that add a field to a part. The counter is a `uint8_t`. -/
def addInfo (p : PartInfo) (fieldLgth fieldId : Nat) : PartInfo :=
  { lgth := (p.lgth + fieldLgth) % 65536
    fieldIds := if p.fieldIds.length = 255 then [] else p.fieldIds ++ [fieldId] }

def addHeaderInfo (d : CompMsgMsgDesc) (fieldLgth fieldId : Nat) : CompMsgMsgDesc :=
  { d with msgHeaderInfo := addInfo d.msgHeaderInfo fieldLgth fieldId }

def addMidPartInfo (d : CompMsgMsgDesc) (fieldLgth fieldId : Nat) : CompMsgMsgDesc :=
  { d with msgMidPartInfo := addInfo d.msgMidPartInfo fieldLgth fieldId }

def addTrailerInfo (d : CompMsgMsgDesc) (fieldLgth fieldId : Nat) : CompMsgMsgDesc :=
  { d with msgTrailerInfo := addInfo d.msgTrailerInfo fieldLgth fieldId }

def setMsgFieldDescInfo (d : CompMsgMsgDesc) (idx : Nat) (fieldDescInfo : FieldDescInfo) :
    Ret × CompMsgMsgDesc :=
  if d.typesAndNames.numMsgDescFields ≤ idx then (.error .badMsgFieldInfoIdx, d)
  else
    ((getFieldNameStrFromId d.typesAndNames idx).1,
      { d with fieldDescInfos := Function.update d.fieldDescInfos idx (some fieldDescInfo) })

/-- The array of field descriptions behind `addMsgFieldDescInfos`: the new entry is empty. An array
that is said to have no entries is allocated anew. -/
def grownInfos (numBefore numAfter : Nat) (infos : Nat → Option FieldDescInfo) :
    Nat → Option FieldDescInfo :=
  if numAfter = numBefore then infos
  else if numBefore = 0 then fun _ => none
  else Function.update infos numBefore none

/-- The first step of a line: its field name gets an id. -/
def addFieldName (unset : Unset) (fieldName : String) (d : CompMsgMsgDesc) :
    Ret × Nat × CompMsgMsgDesc :=
  let r := getFieldNameIdFromStr allocated d.typesAndNames fieldName incr
  (r.1, r.2.1.getD unset.fieldNameId, { d with
    typesAndNames := r.2.2
    fieldDescInfos := grownInfos d.typesAndNames.numMsgDescFields r.2.2.numMsgDescFields
      d.fieldDescInfos })

/-- The flag that the fourth field of a header line stands for. -/
def headerFieldFlag (headerFlag : Int) : Option Nat :=
  if headerFlag = 0 then some 0
  else if headerFlag = 1 then some fieldHeaderUnique
  else if headerFlag = 2 then some fieldHeaderChksumNonZero
  else none

/-- A name that starts with `@#`. -/
def isKeyValue (fieldName : String) : Bool := fieldName.toList.take 2 == ['@', '#']

def keyValueFlag (fieldName : String) : Nat := if isKeyValue fieldName then fieldKeyValue else 0

/-- What a line adds to the parts and the field descriptions. -/
def describeField (unset : Unset) (fieldGroupId : FieldGroup) (line : Line) (fieldNameId : Nat)
    (fieldTypeId : FieldType) (d : CompMsgMsgDesc) : Ret × CompMsgMsgDesc :=
  let fieldLgth := line.fieldLgth % 65536
  let flags := keyValueFlag line.fieldName
  match fieldGroupId with
  | .header =>
    match headerFieldFlag line.headerFlag with
    | none => (.error .badHeaderFieldFlag, d)
    | some flag =>
      setMsgFieldDescInfo (addHeaderInfo d fieldLgth fieldNameId) fieldNameId
        ⟨flags ||| flag ||| fieldHeader, fieldTypeId, fieldLgth, d.msgHeaderInfo.lgth⟩
  | .midPart =>
    setMsgFieldDescInfo (addMidPartInfo d fieldLgth fieldNameId) fieldNameId
      ⟨flags, fieldTypeId, fieldLgth, (d.msgHeaderInfo.lgth + d.msgMidPartInfo.lgth) % 65536⟩
  | .trailer =>
    setMsgFieldDescInfo (addTrailerInfo d fieldLgth fieldNameId) fieldNameId
      ⟨flags, fieldTypeId, fieldLgth, unset.fieldOffset⟩
  | .keyValue =>
    setMsgFieldDescInfo d fieldNameId
      ⟨flags ||| fieldKeyValue, fieldTypeId, fieldLgth, unset.fieldOffset⟩
  | .desc =>
    setMsgFieldDescInfo d fieldNameId ⟨flags, fieldTypeId, fieldLgth, unset.fieldOffset⟩

/-- The part of a line in front of the description infos: the id of the field as well. -/
def describeLine (unset : Unset) (fieldGroupId : FieldGroup) (line : Line) (d : CompMsgMsgDesc) :
    Ret × Nat × CompMsgMsgDesc :=
  if line.numLineFields < 3 then (.error .fieldDescTooFewFields, unset.fieldNameId, d)
  else
    let r := addFieldName unset line.fieldName d
    match r.1, getFieldTypeIdFromStr line.fieldType with
    | .error e, _ => (.error e, r.2)
    | .crash, _ => (.crash, r.2)
    | .ok, none => (.error .fieldTypeNotFound, r.2)
    | .ok, some fieldTypeId =>
      let s := describeField unset fieldGroupId line r.2.1 fieldTypeId r.2.2
      (s.1, r.2.1, s.2)

/-- The search for the description: the entry `msgDescription` points to behind the loop. -/
def searchDescription (cmdKey : Nat) (msgDescription : Option Nat) (descIdx : Nat) :
    List MsgDescription → Option Nat
  | [] => msgDescription
  | m :: ms =>
    if cmdKey = m.cmdKey then some descIdx
    else searchDescription cmdKey (some descIdx) (descIdx + 1) ms

/-- The fields of a description while ids are appended. -/
structure Writer where
  sequence : Sequence
  lastFieldOffset : Nat
  fieldIdx : Int
  inBounds : Bool
  deriving DecidableEq

/-- The writes to `fieldSequence[fieldIdx]` and `fieldOffsets[fieldIdx]`. -/
def Writer.putId (w : Writer) (fldId : Nat) : Writer :=
  { w with
    sequence :=
      if 0 ≤ w.fieldIdx then
        ⟨w.sequence.fieldSequence.set w.fieldIdx.toNat fldId,
          w.sequence.fieldOffsets.set w.fieldIdx.toNat w.lastFieldOffset⟩
      else w.sequence
    fieldIdx := w.fieldIdx + 1
    inBounds := w.inBounds && decide (0 ≤ w.fieldIdx) &&
      decide (w.fieldIdx < w.sequence.fieldSequence.length) }

/-- Appends one id. A field without a description is a null pointer here. -/
def appendId (d : CompMsgMsgDesc) (fldId : Nat) (w : Writer) : Ret × Writer :=
  match d.fieldDescInfos fldId with
  | none => (.crash, w.putId fldId)
  | some info =>
    (.ok, { w.putId fldId with
      lastFieldOffset := (w.lastFieldOffset + info.fieldLgth) % 65536 })

/-- The common body of the loops over the ids of a part. -/
def appendIds (d : CompMsgMsgDesc) (keep : Nat → Ret × Bool) : List Nat → Writer → Ret × Writer
  | [], w => (.ok, w)
  | fldId :: fldIds, w =>
    match keep fldId with
    | (.error e, _) => (.error e, w)
    | (.crash, _) => (.crash, w)
    | (.ok, false) => appendIds d keep fldIds w
    | (.ok, true) => checkRetOK (appendId d fldId w) (appendIds d keep fldIds)

/-- Asks for the name of a field and decides by it. The name of a free entry is a null pointer. -/
def keepByName (d : CompMsgMsgDesc) (test : String → Bool) (fldId : Nat) : Ret × Bool :=
  match getFieldNameStrFromId d.typesAndNames fldId with
  | (.ok, some fieldNameStr) => (.ok, test fieldNameStr)
  | (.ok, none) => (.crash, false)
  | (.error e, _) => (.error e, false)
  | (.crash, _) => (.crash, false)

def keepMidPart (fieldFlags : Nat) (fieldNameStr : String) : Bool :=
  if fieldNameStr = "@cmdLgth" then hasFlag fieldFlags hasCmdLgth else true

def keepTrailer (fieldFlags : Nat) (fieldNameStr : String) : Bool :=
  if fieldNameStr = "@crc" then hasFlag fieldFlags hasCrc
  else if fieldNameStr = "@totalCrc" then hasFlag fieldFlags hasTotalCrc
  else true

/-- Allocates the arrays and puts the header and the mid part into them. -/
def startSequence (d : CompMsgMsgDesc) (m : MsgDescription) : Ret × Writer :=
  let sequenceLgth := d.msgHeaderInfo.fieldIds.length + d.msgMidPartInfo.fieldIds.length +
    d.msgTrailerInfo.fieldIds.length + 10
  let zeros := List.replicate sequenceLgth 0
  checkRetOK (appendIds d (fun _ => (.ok, true)) d.msgHeaderInfo.fieldIds
      ⟨⟨zeros, zeros⟩, m.lastFieldOffset, 0, d.inBounds⟩)
    (appendIds d (keepByName d (keepMidPart m.fieldFlags)) d.msgMidPartInfo.fieldIds)

/-- Appends the field of the line and, on the last line, the trailer. -/
def appendField (d : CompMsgMsgDesc) (m : MsgDescription) (fieldNameId : Nat) (w : Writer) :
    Ret × Writer :=
  match d.fieldDescInfos fieldNameId with
  | none => (.error .badFieldInfo, w.putId fieldNameId)
  | some _ =>
    checkRetOK (appendId d fieldNameId w) fun w =>
      if d.expectedLines = d.currLineNo then
        appendIds d (keepByName d (keepTrailer m.fieldFlags)) d.msgTrailerInfo.fieldIds w
      else (.ok, w)

/-- What a line of a message description file does to the description. -/
def extendDescription (unset : Unset) (d : CompMsgMsgDesc) (m : MsgDescription)
    (fieldNameId : Nat) : Ret × Writer :=
  match m.sequence with
  | none => checkRetOK (startSequence d m) (appendField d m fieldNameId)
  | some sequence =>
    appendField d m fieldNameId ⟨sequence, m.lastFieldOffset, unset.fieldIdx, d.inBounds⟩

/-- The description with what has been written to it. -/
def storeDescription (d : CompMsgMsgDesc) (descIdx : Nat) (m : MsgDescription) (w : Writer) :
    CompMsgMsgDesc :=
  { d with
    msgDescriptions := d.msgDescriptions.set descIdx { m with
      sequence := some w.sequence
      lastFieldOffset := w.lastFieldOffset }
    inBounds := w.inBounds }

/-- The part of a line that follows in the group of message descriptions. -/
def addToDescription (unset : Unset) (cmdKey fieldNameId : Nat) (d : CompMsgMsgDesc) :
    Ret × CompMsgMsgDesc :=
  match searchDescription cmdKey none 0 d.msgDescriptions with
  | none => (.crash, d)
  | some descIdx =>
    match d.msgDescriptions[descIdx]? with
    | none => (.crash, d)
    | some m =>
      let r := extendDescription unset d m fieldNameId
      (r.1, storeDescription d descIdx m r.2)

def handleMsgCommonLine (unset : Unset) (msgFieldGroupInfo : MsgFieldGroupInfo) (line : Line)
    (d : CompMsgMsgDesc) : Ret × CompMsgMsgDesc :=
  let r := describeLine unset msgFieldGroupInfo.fieldGroupId line d
  checkRetOK (r.1, r.2.2) fun d =>
    if msgFieldGroupInfo.fieldGroupId = .desc then
      addToDescription unset msgFieldGroupInfo.cmdKey r.2.1 d
    else (.ok, d)

/-- The loop over the lines of a file. -/
def handleLines (unset : Nat → Unset) (msgFieldGroupInfo : MsgFieldGroupInfo) (numLines : Nat) :
    List Line → CompMsgMsgDesc → Ret × CompMsgMsgDesc
  | [], d => (if d.expectedLines < numLines then .error .badNumDescFileLines else .ok, d)
  | line :: lines, d =>
    if d.expectedLines < numLines + 1 then (.error .badNumDescFileLines, d)
    else
      checkRetOK (handleMsgCommonLine (unset numLines) msgFieldGroupInfo line
          { d with currLineNo := d.currLineNo + 1 })
        (handleLines unset msgFieldGroupInfo (numLines + 1) lines)

def handleMsgFileInternal (unset : Nat → Unset) (msgFieldGroupInfo : MsgFieldGroupInfo)
    (file : DescFile) (d : CompMsgMsgDesc) : Ret × CompMsgMsgDesc :=
  handleLines unset msgFieldGroupInfo 0 file.lines
    { d with expectedLines := file.expectedLines, currLineNo := 0 }

/-- The fields that the lines describe, with the ids they get. -/
def describedFields (unset : Nat → Unset) (g : MsgFieldGroupInfo) (numLines : Nat) :
    List Line → CompMsgMsgDesc → List CompMsgField
  | [], _ => []
  | line :: lines, d =>
    let d := { d with currLineNo := d.currLineNo + 1 }
    { fieldNameId := (describeLine (unset numLines) g.fieldGroupId line d).2.1
      fieldTypeId := (getFieldTypeIdFromStr line.fieldType).getD .none
      fieldLgth := line.fieldLgth % 65536
      fieldOffset := 0 } ::
      describedFields unset g (numLines + 1) lines
        (handleMsgCommonLine (unset numLines) g line d).2

end NodeMcu.CompMsg.MsgDesc
