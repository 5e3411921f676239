import NodeMcu.CompMsg.MsgDesc
import NodeMcu.Lib.Run

namespace NodeMcu.CompMsg.Deletion

open NodeMcu.Lib.Memory NodeMcu.Lib.Run
open NodeMcu.CompMsg.Codes NodeMcu.CompMsg.TypesAndNames NodeMcu.CompMsg.MsgDesc

/-- What `freeCompMsgData` looks at in a message: which pointers are set, and the handle. -/
structure CompMsgData where
  fields : Bool
  keyValueFields : Bool
  receivedData : Bool
  toSendData : Bool
  compMsgDataView : Bool
  receivedDataView : Bool
  prepareValuesCbName : Bool
  handle : String
  deriving DecidableEq

/-- A message without buffers. -/
def freed : CompMsgData := ⟨false, false, false, false, false, false, false, ""⟩

/-- A dispatcher with its tables, its message and the handles of all messages. -/
structure Dispatcher where
  compMsgMsgDesc : CompMsgMsgDesc
  compMsgData : CompMsgData
  compMsgHandles : Option (List (Option String))

/-- The loop over the names reads the entries of the table, and the table goes with them. The
tables of the infos and the numbers of their entries stay. -/
def freeCompMsgTypesAndNames (s : CompMsgTypesAndNames) : Ret × CompMsgTypesAndNames :=
  if s.numNames = 0 then (.ok, s)
  else
    match s.names with
    | none => (.crash, s)
    | some _ => (.ok, { s with numNames := 0, maxNames := 0, names := none })

def deleteHandle (handle : String) (handles : Option (List (Option String))) :
    Option (List (Option String)) :=
  handles.map fun hs => hs.map fun h => if h = some handle then none else h

def freeCompMsgData (d : Dispatcher) : Ret × Dispatcher :=
  let r := freeCompMsgTypesAndNames d.compMsgMsgDesc.typesAndNames
  checkRetOK (r.1, { d with
    compMsgMsgDesc := { d.compMsgMsgDesc with typesAndNames := r.2 } }) fun d =>
      (.ok, { d with
        compMsgData := freed
        compMsgHandles :=
          if 0 < d.compMsgData.handle.length then
            deleteHandle d.compMsgData.handle d.compMsgHandles
          else d.compMsgHandles })

def deleteMsg (d : Dispatcher) : Ret × Dispatcher :=
  checkRetOK (freeCompMsgData d) fun d => (.ok, d)

/-- What happens to a dispatcher: a name is looked up, a description is added, a file of
descriptions is loaded, a message gets its buffers, a message is deleted. -/
inductive Event
  | name (names : Bool) (fieldName : String) (incrRefCnt : Int)
  | describe (headerFieldValues : Mem) (cmdKey fieldFlags : Nat)
  | load (unset : Nat → Unset) (msgFieldGroupInfo : MsgFieldGroupInfo) (file : DescFile)
  | message (compMsgData : CompMsgData) (compMsgHandles : Option (List (Option String)))
  | deleteMsg

def lookName (names : Bool) (fieldName : String) (incrRefCnt : Int) (d : CompMsgMsgDesc) :
    CompMsgMsgDesc :=
  let s := (getFieldNameIdFromStr ⟨names, true, true⟩ d.typesAndNames fieldName incrRefCnt).2.2
  { d with
    typesAndNames := s
    fieldDescInfos :=
      grownInfos d.typesAndNames.numMsgDescFields s.numMsgDescFields d.fieldDescInfos }

def step (d : Dispatcher) : Event → Dispatcher
  | .name names fieldName incrRefCnt =>
    { d with compMsgMsgDesc := lookName names fieldName incrRefCnt d.compMsgMsgDesc }
  | .describe headerFieldValues cmdKey fieldFlags =>
    { d with compMsgMsgDesc := { d.compMsgMsgDesc with
      msgDescriptions := d.compMsgMsgDesc.msgDescriptions ++
        [⟨headerFieldValues, cmdKey, none, 0, fieldFlags⟩] } }
  | .load unset msgFieldGroupInfo file =>
    { d with
      compMsgMsgDesc := (handleMsgFileInternal unset msgFieldGroupInfo file d.compMsgMsgDesc).2 }
  | .message compMsgData compMsgHandles =>
    { d with compMsgData := compMsgData, compMsgHandles := compMsgHandles }
  | .deleteMsg => (deleteMsg d).2

def initMsgDesc : CompMsgMsgDesc :=
  ⟨initTypesAndNames, fun _ => none, ⟨0, []⟩, ⟨0, []⟩, ⟨0, []⟩, [], 0, 0, true⟩

def start : Dispatcher := ⟨initMsgDesc, freed, none⟩

/-- The id of a field resolves to the name that it had. -/
def SameName (before after : CompMsgMsgDesc) (fieldId : Nat) : Prop :=
  getFieldNameStrFromId after.typesAndNames fieldId =
    getFieldNameStrFromId before.typesAndNames fieldId

/-- Every id in every sequence of fields resolves to the name that it had. -/
def SameNames (before after : CompMsgMsgDesc) : Prop :=
  ∀ m ∈ before.msgDescriptions, ∀ sequence, m.sequence = some sequence →
    ∀ fieldId ∈ sequence.fieldSequence, SameName before after fieldId

/-- A deletion leaves the names and the descriptions as they are. -/
structure LeavesTables (d : Dispatcher) : Prop where
  ends : (deleteMsg d).1 = .ok
  tables : (deleteMsg d).2.compMsgMsgDesc = d.compMsgMsgDesc
  names : SameNames d.compMsgMsgDesc (deleteMsg d).2.compMsgMsgDesc

def Untouched (d : Dispatcher) (e : Event) : Prop := e = .deleteMsg → LeavesTables d

/-- The dispatcher knows no names but the special ones. -/
def OnlySpecialNames (d : Dispatcher) (e : Event) : Prop :=
  e = .deleteMsg → d.compMsgMsgDesc.typesAndNames.numNames = 0

theorem deleteMsg_noNames (d : Dispatcher)
    (h : d.compMsgMsgDesc.typesAndNames.numNames = 0) :
    (deleteMsg d).1 = .ok ∧ (deleteMsg d).2.compMsgMsgDesc = d.compMsgMsgDesc := by
  rw [deleteMsg, freeCompMsgData, freeCompMsgTypesAndNames, if_pos h]
  exact ⟨rfl, rfl⟩

/-- A deletion that ends leaves no names behind. -/
theorem deleteMsg_numNames (d : Dispatcher) (h : (deleteMsg d).1 = .ok) :
    (deleteMsg d).2.compMsgMsgDesc.typesAndNames.numNames = 0 := by
  revert h
  rw [deleteMsg, freeCompMsgData, freeCompMsgTypesAndNames]
  split
  · rename_i hzero
    exact fun _ => hzero
  · split
    · exact fun h => absurd h (by simp)
    · exact fun _ => rfl

theorem deleteMsg_freed (d : Dispatcher) (h : (deleteMsg d).1 = .ok) :
    (deleteMsg d).2.compMsgData = freed := by
  revert h
  rw [deleteMsg, freeCompMsgData]
  cases (freeCompMsgTypesAndNames d.compMsgMsgDesc.typesAndNames).1 with
  | ok => exact fun _ => rfl
  | error e => exact fun h => absurd h (by simp)
  | crash => exact fun h => absurd h (by simp)

/-- Only the special ids resolve after a deletion. -/
theorem deleteMsg_forgets (d : Dispatcher) (fieldId : Nat) (h : (deleteMsg d).1 = .ok)
    (hid : specialFieldNames.find? (fun e => e.2 == fieldId) = none) :
    getFieldNameStrFromId (deleteMsg d).2.compMsgMsgDesc.typesAndNames fieldId =
      (.error .fieldNotFound, none) := by
  have hentries : entries (deleteMsg d).2.compMsgMsgDesc.typesAndNames = some [] :=
    if_pos (deleteMsg_numNames d h)
  rw [getFieldNameStrFromId, hid]
  dsimp only
  rw [hentries]
  rfl

theorem leavesTables_iff (d : Dispatcher) :
    LeavesTables d ↔ d.compMsgMsgDesc.typesAndNames.numNames = 0 := by
  constructor
  · intro h
    have hzero := deleteMsg_numNames d h.ends
    rw [h.tables] at hzero
    exact hzero
  · intro h
    obtain ⟨hends, htables⟩ := deleteMsg_noNames d h
    refine ⟨hends, htables, fun m _ sequence _ fieldId _ => ?_⟩
    rw [SameName, htables]

/-- In a run the deletions leave the names and the descriptions as they are if and only if there
are only special names whenever a message is deleted. -/
theorem untouched_iff (events : List Event) :
    Along step Untouched start events ↔ Along step OnlySpecialNames start events := by
  apply along_congr step Untouched OnlySpecialNames fun _ => True
  · intro d e _
    exact forall_congr' fun _ => leavesTables_iff d
  · exact fun _ _ _ _ => trivial
  · trivial

/-- A description `P2` of one field `temp`, whose id is 56. -/
def tempEvents : List Event :=
  [.describe (fun _ => 0) 0x5032 0,
    .load (fun _ => zeroLocals) ⟨.desc, 0x5032⟩ ⟨1, [⟨3, "temp", "uint8_t", 1, 0⟩]⟩, .deleteMsg]

theorem tempEvents_touched : ¬ Along step Untouched start tempEvents := by
  rintro ⟨-, -, hdelete, -⟩
  obtain ⟨m, hm, sequence, hs, hin⟩ : ∃ m ∈ (run step start
      (tempEvents.take 2)).compMsgMsgDesc.msgDescriptions, ∃ sequence,
      m.sequence = some sequence ∧ 56 ∈ sequence.fieldSequence := by
    decide +kernel
  have hname := (hdelete rfl).names m hm sequence hs 56 hin
  rw [SameName] at hname
  exact absurd hname (by decide +kernel)

end NodeMcu.CompMsg.Deletion
