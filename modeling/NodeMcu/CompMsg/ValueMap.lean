import NodeMcu.CompMsg.DataValues
import NodeMcu.Lib.Filling
import NodeMcu.Lib.OnceMap
import NodeMcu.Lib.Run

namespace NodeMcu.CompMsg.ValueMap

open NodeMcu.Lib.Filling NodeMcu.Lib.OnceMap NodeMcu.Lib.Run NodeMcu.Lib.Table
open NodeMcu.CompMsg.Codes NodeMcu.CompMsg.TypesAndNames NodeMcu.CompMsg.DataValues

/-- A call. The ids of field names in it are not zero. -/
inductive Call
  | new (heap : ValueHeap) (cmdKey : Nat) (numEntries : Int)
  | get (cmdKey : Nat)
  | set (names : CompMsgTypesAndNames) (cmdKey : Nat) (fieldValue : FieldValue)
      (nonzero : fieldValue.fieldNameId ≠ 0)
  | value (cmdKey fieldNameId : Nat) (nonzero : fieldNameId ≠ 0)

/-- How a call ends and the value it hands out. -/
abbrev Answer := Ret × Option FieldValue

def call (s : MsgFieldValueInfos) : Call → Answer × MsgFieldValueInfos
  | .new heap cmdKey numEntries =>
    let r := newMsgFieldValueInfos heap cmdKey numEntries s
    ((r.1, none), r.2)
  | .get cmdKey => (((getMsgFieldValueInfo cmdKey s).1, none), s)
  | .set names cmdKey fieldValue _ =>
    let r := setValue names cmdKey fieldValue s
    ((r.1, none), r.2)
  | .value cmdKey fieldNameId _ => (getFieldValueInfo cmdKey fieldNameId s, s)

/-- The values of a command key, with the number that was announced for it. -/
structure KeyEntry where
  cmdKey : Nat
  announced : Int
  values : List FieldValue

abbrev KeyMap := List KeyEntry

def valueId (v : FieldValue) : Nat := v.fieldNameId.toNat

/-- Inserts a value once. An id that is not the id of a field is refused. -/
def insertValue (names : CompMsgTypesAndNames) (e : KeyEntry) (v : FieldValue) :
    Ret × List FieldValue :=
  match insert valueId e.announced v e.values with
  | .error .duplicate => (.error .duplicateFieldValueEntry, e.values)
  | .error .full => (.error .tooManyFieldValueEntries, e.values)
  | .ok values =>
    if (getFieldNameStrFromId names (valueId v)).1 = .ok then (.ok, values)
    else (.error .fieldNotFound, e.values)

/-- The value of a pair, or an error if there is none. -/
def mapValue (m : KeyMap) (cmdKey fieldNameId : Nat) : Answer :=
  match (lookup KeyEntry.cmdKey cmdKey m).bind fun e => lookup valueId fieldNameId e.values with
  | some v => (.ok, some v)
  | none => (.error .dataValueFieldNotFound, none)

/-- What the calls are for: a map from command keys to maps from ids to values. -/
def mapCall (m : KeyMap) : Call → Answer × KeyMap
  | .new _ cmdKey numEntries =>
    match lookup KeyEntry.cmdKey cmdKey m with
    | some _ => ((.ok, none), m)
    | none => ((.ok, none), m ++ [⟨cmdKey, numEntries, []⟩])
  | .get cmdKey =>
    match lookup KeyEntry.cmdKey cmdKey m with
    | some _ => ((.ok, none), m)
    | none => ((.error .fieldValueInfoNotFound, none), m)
  | .set names cmdKey fieldValue _ =>
    match lookup KeyEntry.cmdKey cmdKey m with
    | some e =>
      let r := insertValue names e fieldValue
      ((r.1, none), update KeyEntry.cmdKey (fun e => { e with values := r.2 }) cmdKey m)
    | none => ((.error .fieldValueInfoNotFound, none), m)
  | .value cmdKey fieldNameId _ => (mapValue m cmdKey fieldNameId, m)

/-- The entry of the array for a command key. -/
def store (e : KeyEntry) : MsgFieldValue :=
  { cmdKey := e.cmdKey
    numFieldValues := e.announced.toNat
    fieldValues := some (fill e.announced.toNat zeroFieldValue e.values) }

/-- No id twice, none of them zero, and no more values than announced. -/
structure EntryOk (e : KeyEntry) : Prop where
  announced : 0 ≤ e.announced
  room : e.values.length ≤ e.announced
  nonzero : ∀ v ∈ e.values, v.fieldNameId ≠ 0
  nodup : (e.values.map valueId).Nodup

/-- The arrays hold the map. -/
structure Represents (s : MsgFieldValueInfos) (m : KeyMap) : Prop where
  entries : s.msgFieldValues.getD [] = m.map store
  count : s.numMsgFieldValues = m.length
  alloc : s.msgFieldValues = none → s.maxMsgFieldValues = 0
  room : s.numMsgFieldValues ≤ s.maxMsgFieldValues
  odd : s.maxMsgFieldValues = 0 ∨ s.maxMsgFieldValues % 2 = 1
  small : s.maxMsgFieldValues < 65536
  inBounds : s.inBounds = true
  keys : (m.map KeyEntry.cmdKey).Nodup
  ok : ∀ e ∈ m, EntryOk e

theorem init_represents : Represents initDataValue [] :=
  ⟨rfl, rfl, fun _ => rfl, Nat.le_refl _, .inl rfl, by decide, rfl, List.nodup_nil, by simp⟩

theorem represents_entries (s : MsgFieldValueInfos) (m : KeyMap) (h : Represents s m) :
    infoEntries s = some (m.map store) := by
  rw [infoEntries]
  by_cases hz : s.numMsgFieldValues = 0
  · have hm : m = [] := List.length_eq_zero_iff.mp (h.count.symm.trans hz)
    rw [if_pos hz, hm]
    rfl
  · rw [if_neg hz]
    cases hs : s.msgFieldValues with
    | none =>
      have h1 := h.alloc hs
      have h2 := h.room
      omega
    | some es =>
      have he := h.entries
      rw [hs, Option.getD_some] at he
      rw [he]

theorem findKey_store (cmdKey : Nat) (m : KeyMap) :
    findKey cmdKey (m.map store) = m.findIdx? fun e => e.cmdKey = cmdKey := by
  rw [findKey, List.findIdx?_map]
  rfl

theorem valueEntries_store (e : KeyEntry) (h : EntryOk e) :
    valueEntries (store e) = some (fill e.announced.toNat zeroFieldValue e.values) := by
  rw [valueEntries, store]
  dsimp only
  split
  · rename_i hz
    have hroom := h.room
    have hlen : e.values.length = 0 := by omega
    rw [hz, List.length_eq_zero_iff.mp hlen]
    rfl
  · rfl

/-- The free entries behind the used ones. -/
theorem searchValues_free (fieldNameId : UInt8) (idx r : Nat) (free : Option Nat) :
    searchValues fieldNameId idx free (List.replicate r zeroFieldValue) =
      (false, if r = 0 then free else some (free.getD idx)) := by
  induction r generalizing idx free with
  | zero => rfl
  | succ r ih =>
    rw [List.replicate_succ, searchValues, if_pos (by decide), ih]
    cases free with
    | none => simp
    | some i => simp

/-- The search through the values of an entry: an id that is there, or the first free place. -/
theorem searchValues_used (fieldNameId : UInt8) (idx r : Nat) (vs : List FieldValue)
    (hz : ∀ v ∈ vs, v.fieldNameId ≠ 0) :
    searchValues fieldNameId idx none (vs ++ List.replicate r zeroFieldValue) =
      if fieldNameId.toNat ∈ vs.map valueId then (true, none)
      else (false, if r = 0 then none else some (idx + vs.length)) := by
  induction vs generalizing idx with
  | nil => simp [searchValues_free]
  | cons v vs ih =>
    have hv := hz v List.mem_cons_self
    rw [List.cons_append, searchValues, if_neg hv,
      ih (idx + 1) fun w hw => hz w (List.mem_cons_of_mem v hw)]
    by_cases heq : v.fieldNameId = fieldNameId
    · rw [if_pos heq, if_pos (by simp [valueId, heq])]
    · rw [if_neg heq]
      have hne : ¬ fieldNameId.toNat = valueId v :=
        fun h => heq (UInt8.toNat_inj.mp h.symm)
      simp only [List.map_cons, List.mem_cons, hne, false_or, List.length_cons]
      rw [show idx + 1 + vs.length = idx + (vs.length + 1) by omega]

theorem lookup_store (e : KeyEntry) (fieldNameId : Nat) (h : EntryOk e)
    (hid : fieldNameId ≠ 0) :
    findValue fieldNameId (store e) = (.ok, lookup valueId fieldNameId e.values) := by
  have hfree : (List.replicate (e.announced.toNat - e.values.length) zeroFieldValue).find?
      (fun v => v.fieldNameId.toNat == fieldNameId) = none := by
    rw [List.find?_eq_none]
    intro v hv
    rw [List.eq_of_mem_replicate hv]
    simpa [zeroFieldValue] using Ne.symm hid
  rw [findValue, valueEntries_store e h]
  dsimp only
  rw [fill, List.find?_append, hfree, Option.or_none]
  rfl

/-- The search for a value in the arrays is the search in the map. -/
theorem findFieldValue_store (cmdKey fieldNameId : Nat) (m : KeyMap)
    (hk : (m.map KeyEntry.cmdKey).Nodup) (hok : ∀ e ∈ m, EntryOk e) (hid : fieldNameId ≠ 0) :
    findFieldValue cmdKey fieldNameId (m.map store) =
      mapValue m cmdKey fieldNameId := by
  induction m with
  | nil => rfl
  | cons e m ih =>
    rw [List.map_cons, List.nodup_cons] at hk
    have hrest := ih hk.2 fun e' he' => hok e' (List.mem_cons_of_mem e he')
    have hkeep : (store e).cmdKey = e.cmdKey := rfl
    rw [List.map_cons, findFieldValue, mapValue, lookup_cons, hkeep]
    by_cases hkey : e.cmdKey = cmdKey
    · have hnone : lookup KeyEntry.cmdKey cmdKey m = none :=
        (lookup_eq_none _ _ _).mpr (hkey ▸ hk.1)
      rw [if_pos hkey, if_pos hkey, lookup_store e fieldNameId (hok e List.mem_cons_self) hid]
      cases hv : lookup valueId fieldNameId e.values with
      | some v => simp [hv]
      | none =>
        rw [hrest, mapValue, hnone]
        simp [hv]
    · rw [if_neg hkey, if_neg hkey, hrest, mapValue]

theorem insertValue_ok (names : CompMsgTypesAndNames) (e : KeyEntry) (v : FieldValue)
    (h : EntryOk e) (hv : v.fieldNameId ≠ 0) :
    EntryOk { e with values := (insertValue names e v).2 } := by
  rw [insertValue]
  split
  · exact h
  · exact h
  · rename_i values heq
    obtain ⟨hk, hlt, rfl⟩ := eq_of_insert _ _ _ _ _ heq
    split
    · refine ⟨h.announced, ?_, ?_, nodup_append_singleton valueId v e.values hk h.nodup⟩
      · rw [List.length_append, List.length_singleton]
        push_cast
        omega
      · intro w hw
        obtain hw | hw := List.mem_append.mp hw
        · exact h.nonzero w hw
        · rw [List.mem_singleton.mp hw]
          exact hv
    · exact h

/-- Looking up a name ends in one of three ways. -/
theorem getFieldNameStrFromId_ret (names : CompMsgTypesAndNames) (fieldNameId : Nat)
    (h : (getFieldNameStrFromId names fieldNameId).1 ≠ .crash) :
    (getFieldNameStrFromId names fieldNameId).1 = .ok ∨
      (getFieldNameStrFromId names fieldNameId).1 = .error .fieldNotFound := by
  revert h
  rw [getFieldNameStrFromId]
  split
  · exact fun _ => .inl rfl
  · split
    · exact fun h => absurd rfl h
    · split
      · exact fun _ => .inl rfl
      · exact fun _ => .inr rfl

/-- The name of a value that is to be inserted can be looked up. -/
def NameReadable (names : CompMsgTypesAndNames) (e : KeyEntry) (v : FieldValue) : Prop :=
  valueId v ∉ e.values.map valueId → e.values.length < e.announced →
    (getFieldNameStrFromId names (valueId v)).1 ≠ .crash

/-- The loop and the assignment insert the value once. -/
theorem setMsgFieldValueInfo_store (names : CompMsgTypesAndNames) (e : KeyEntry) (v : FieldValue)
    (h : EntryOk e) (hname : NameReadable names e v) :
    setMsgFieldValueInfo names v (store e) =
      ((insertValue names e v).1, store { e with values := (insertValue names e v).2 }) := by
  have hroom := h.room
  have hann := h.announced
  have hid : v.fieldNameId.toNat = valueId v := rfl
  rw [setMsgFieldValueInfo, valueEntries_store e h]
  dsimp only
  rw [fill, searchValues_used v.fieldNameId 0 _ e.values h.nonzero, hid]
  by_cases hin : valueId v ∈ e.values.map valueId
  · rw [if_pos hin, insertValue, insert_duplicate _ _ _ _ hin]
  · rw [if_neg hin]
    by_cases hfull : e.values.length < e.announced
    · have hfree : ¬ e.announced.toNat - e.values.length = 0 := by omega
      rw [if_neg hfree, insertValue, insert_ok _ _ _ _ hin hfull, Nat.zero_add]
      dsimp only
      obtain hr | hr := getFieldNameStrFromId_ret names (valueId v) (hname hin hfull)
      · rw [if_pos hr, hr, checkRetOK_ok]
        have hset := fill_set e.announced.toNat zeroFieldValue v e.values (by omega)
        rw [fill] at hset
        rw [hset]
        rfl
      · rw [if_neg (by rw [hr]; simp), hr, checkRetOK_error]
    · have hfree : e.announced.toNat - e.values.length = 0 := by omega
      rw [if_pos hfree, insertValue, insert_full _ _ _ _ hin (by omega)]

/-- The arrays beside the map that they are to hold. -/
structure Store where
  s : MsgFieldValueInfos
  m : KeyMap

def step (t : Store) (c : Call) : Store := ⟨(call t.s c).2, (mapCall t.m c).2⟩

def start : Store := ⟨initDataValue, []⟩

def Inv (t : Store) : Prop := Represents t.s t.m

/-- The call answers as the map does, the arrays hold the map behind it, and a call that is
refused changes nothing. -/
structure ActsAsMap (t : Store) (c : Call) : Prop where
  answer : (call t.s c).1 = (mapCall t.m c).1
  represents : Represents (call t.s c).2 (mapCall t.m c).2
  refused : (call t.s c).1.1 ≠ .ok → (call t.s c).2 = t.s

/-- The number of values that is announced fits, and there is memory for them. -/
def Announceable (heap : ValueHeap) (numEntries : Int) : Prop :=
  0 ≤ numEntries ∧ numEntries < 65536 ∧ (numEntries = 0 ∨ heap.values = true)

/-- There is a place for one more command key. -/
def Room (heap : ValueHeap) (s : MsgFieldValueInfos) : Prop :=
  s.numMsgFieldValues < 65535 ∧
    (s.maxMsgFieldValues ≤ s.numMsgFieldValues → heap.infos = true)

/-- A new command key has a place and a number of values that fits, and the name of a value that
is to be inserted can be looked up. -/
def Provided (t : Store) : Call → Prop
  | .new heap cmdKey numEntries => lookup KeyEntry.cmdKey cmdKey t.m = none →
      Announceable heap numEntries ∧ Room heap t.s
  | .get _ => True
  | .set names cmdKey fieldValue _ => ∀ e, lookup KeyEntry.cmdKey cmdKey t.m = some e →
      NameReadable names e fieldValue
  | .value _ _ _ => True

/-- A new entry is the one of the map if its number of values fits. -/
theorem newMsgFieldValue_store (heap : ValueHeap) (cmdKey : Nat) (numEntries : Int) :
    newMsgFieldValue heap cmdKey numEntries = store ⟨cmdKey, numEntries, []⟩ ∧
        EntryOk ⟨cmdKey, numEntries, []⟩ ↔ Announceable heap numEntries := by
  constructor
  · rintro ⟨heq, hok⟩
    have hnonneg : 0 ≤ numEntries := hok.announced
    have hnum : (numEntries % 65536).toNat = numEntries.toNat :=
      congrArg MsgFieldValue.numFieldValues heq
    refine ⟨hnonneg, by omega, ?_⟩
    have hvalues : newFieldValues heap numEntries = some _ :=
      congrArg MsgFieldValue.fieldValues heq
    rw [newFieldValues] at hvalues
    dsimp only at hvalues
    split at hvalues
    · rename_i hor
      obtain hzero | hheap := hor
      · exact .inl (by omega)
      · exact .inr hheap.1
    · cases hvalues
  · rintro ⟨hnonneg, hsmall, hheap⟩
    have hnum : (numEntries % 65536).toNat = numEntries.toNat := by omega
    have hor : (numEntries % 65536).toNat = 0 ∨ (heap.values = true ∧ 0 ≤ numEntries) := by
      obtain hzero | hheap := hheap
      · exact .inl (by omega)
      · exact .inr ⟨hheap, hnonneg⟩
    refine ⟨?_, hnonneg, hnonneg, by simp, List.nodup_nil⟩
    rw [newMsgFieldValue, newFieldValues]
    rw [if_pos hor, hnum]
    rfl

theorem new_known (heap : ValueHeap) (cmdKey : Nat) (numEntries : Int) (s : MsgFieldValueInfos)
    (m : KeyMap) (e : KeyEntry) (h : Represents s m)
    (hl : lookup KeyEntry.cmdKey cmdKey m = some e) :
    newMsgFieldValueInfos heap cmdKey numEntries s = (.ok, s) := by
  rw [newMsgFieldValueInfos, represents_entries s m h]
  dsimp only
  rw [findKey_store]
  cases hi : m.findIdx? fun e => e.cmdKey = cmdKey with
  | none =>
    rw [(findIdx_eq_none KeyEntry.cmdKey cmdKey m).mp hi] at hl
    cases hl
  | some idx => rfl

theorem new_missing (heap : ValueHeap) (cmdKey : Nat) (numEntries : Int) (s : MsgFieldValueInfos)
    (m : KeyMap) (g : MsgFieldValueInfos) (h : Represents s m)
    (hl : lookup KeyEntry.cmdKey cmdKey m = none) (hg : growInfos heap s = (.ok (), g)) :
    newMsgFieldValueInfos heap cmdKey numEntries s = addInfo heap cmdKey numEntries g := by
  rw [newMsgFieldValueInfos, represents_entries s m h]
  dsimp only
  rw [findKey_store, (findIdx_eq_none KeyEntry.cmdKey cmdKey m).mpr hl, hg]

theorem new_refused (heap : ValueHeap) (cmdKey : Nat) (numEntries : Int) (s : MsgFieldValueInfos)
    (m : KeyMap) (g : MsgFieldValueInfos) (e : CompMsgErr) (h : Represents s m)
    (hl : lookup KeyEntry.cmdKey cmdKey m = none) (hg : growInfos heap s = (.error e, g)) :
    newMsgFieldValueInfos heap cmdKey numEntries s = (.error e, g) := by
  rw [newMsgFieldValueInfos, represents_entries s m h]
  dsimp only
  rw [findKey_store, (findIdx_eq_none KeyEntry.cmdKey cmdKey m).mpr hl, hg]

theorem growInfos_failed (heap : ValueHeap) (s : MsgFieldValueInfos)
    (hfull : s.maxMsgFieldValues ≤ s.numMsgFieldValues) (hheap : heap.infos = false) :
    ∃ g, growInfos heap s = (.error .outOfMemory, g) := by
  rw [growInfos, if_pos hfull, hheap]
  exact ⟨_, rfl⟩

/-- The array behind its growth: the entries are those of before, and there is a free one. -/
theorem growInfos_spec (heap : ValueHeap) (s : MsgFieldValueInfos) (m : KeyMap)
    (h : Represents s m) (hgrow : s.maxMsgFieldValues ≤ s.numMsgFieldValues → heap.infos = true) :
    ∃ g, growInfos heap s = (.ok (), g) ∧ g.msgFieldValues = some (m.map store) ∧
      g.numMsgFieldValues = s.numMsgFieldValues ∧ g.inBounds = true ∧
      (s.numMsgFieldValues < 65535 → g.numMsgFieldValues < g.maxMsgFieldValues ∧
        g.maxMsgFieldValues % 2 = 1 ∧ g.maxMsgFieldValues < 65536) := by
  have hroom := h.room
  have hodd := h.odd
  have hsmall := h.small
  have hent := h.entries
  rw [growInfos]
  by_cases hfull : s.maxMsgFieldValues ≤ s.numMsgFieldValues
  · rw [if_pos hfull]
    dsimp only
    rw [if_pos (hgrow hfull), hent]
    refine ⟨_, rfl, rfl, rfl, h.inBounds, fun hnum => ?_⟩
    dsimp only
    split
    · omega
    · omega
  · rw [if_neg hfull]
    refine ⟨s, rfl, ?_, rfl, h.inBounds, fun _ => ⟨by omega, by omega, hsmall⟩⟩
    cases hs : s.msgFieldValues with
    | none =>
      have h1 := h.alloc hs
      omega
    | some es =>
      rw [hs, Option.getD_some] at hent
      rw [hent]

/-- A new entry behind those of the map. -/
theorem addInfo_represents (heap : ValueHeap) (cmdKey : Nat) (numEntries : Int)
    (s g : MsgFieldValueInfos) (m : KeyMap) (h : Represents s m)
    (hl : lookup KeyEntry.cmdKey cmdKey m = none) (hnum : s.numMsgFieldValues < 65535)
    (hents : g.msgFieldValues = some (m.map store))
    (hgnum : g.numMsgFieldValues = s.numMsgFieldValues) (hin : g.inBounds = true)
    (hlt : g.numMsgFieldValues < g.maxMsgFieldValues) (hodd : g.maxMsgFieldValues % 2 = 1)
    (hsmall : g.maxMsgFieldValues < 65536)
    (hnew : newMsgFieldValue heap cmdKey numEntries = store ⟨cmdKey, numEntries, []⟩)
    (hok : EntryOk ⟨cmdKey, numEntries, []⟩) :
    Represents (addInfo heap cmdKey numEntries g).2 (m ++ [⟨cmdKey, numEntries, []⟩]) := by
  have hcount := h.count
  have hmod : (g.numMsgFieldValues + 1) % 65536 = m.length + 1 := by omega
  rw [addInfo, hents]
  dsimp only
  rw [hmod, hnew]
  refine ⟨?_, ?_, fun hnone => absurd hnone (Option.some_ne_none _), ?_, .inr hodd, hsmall, ?_,
    ?_, ?_⟩
  · dsimp only
    rw [Option.getD_some, List.take_of_length_le (by simp), List.map_append, List.map_singleton]
  · dsimp only
    rw [List.length_append, List.length_singleton]
  · dsimp only
    omega
  · dsimp only
    rw [hin, decide_eq_true hlt, Bool.and_self]
  · exact nodup_append_singleton KeyEntry.cmdKey _ m ((lookup_eq_none _ _ _).mp hl) h.keys
  · intro e he
    obtain he | he := List.mem_append.mp he
    · exact h.ok e he
    · rw [List.mem_singleton.mp he]
      exact hok

/-- If there was no place or the number did not fit, the entries are not those of the map. -/
theorem of_addInfo_represents (heap : ValueHeap) (cmdKey : Nat) (numEntries : Int)
    (s g : MsgFieldValueInfos) (m : KeyMap) (h : Represents s m)
    (hents : g.msgFieldValues = some (m.map store))
    (hgnum : g.numMsgFieldValues = s.numMsgFieldValues)
    (hrep : Represents (addInfo heap cmdKey numEntries g).2 (m ++ [⟨cmdKey, numEntries, []⟩])) :
    s.numMsgFieldValues < 65535 ∧ Announceable heap numEntries := by
  have hcount := h.count
  have hnum := hrep.count
  have hentries := hrep.entries
  rw [addInfo, hents] at hnum hentries
  dsimp only at hnum hentries
  rw [List.length_append, List.length_singleton] at hnum
  rw [hnum, Option.getD_some, List.take_of_length_le (by simp), List.map_append,
    List.append_cancel_left_eq] at hentries
  refine ⟨by omega, (newMsgFieldValue_store heap cmdKey numEntries).mp ⟨?_, ?_⟩⟩
  · exact List.singleton_injective hentries
  · exact hrep.ok _ (List.mem_append_right m (List.mem_singleton_self _))

theorem call_new (heap : ValueHeap) (cmdKey : Nat) (numEntries : Int) (s : MsgFieldValueInfos) :
    call s (.new heap cmdKey numEntries) =
      (((newMsgFieldValueInfos heap cmdKey numEntries s).1, none),
        (newMsgFieldValueInfos heap cmdKey numEntries s).2) := rfl

theorem mapCall_new (heap : ValueHeap) (cmdKey : Nat) (numEntries : Int) (m : KeyMap)
    (hl : lookup KeyEntry.cmdKey cmdKey m = none) :
    mapCall m (.new heap cmdKey numEntries) =
      ((.ok, none), m ++ [⟨cmdKey, numEntries, []⟩]) := by
  rw [mapCall, hl]

theorem mapCall_new_known (heap : ValueHeap) (cmdKey : Nat) (numEntries : Int) (m : KeyMap)
    (e : KeyEntry) (hl : lookup KeyEntry.cmdKey cmdKey m = some e) :
    mapCall m (.new heap cmdKey numEntries) = ((.ok, none), m) := by
  rw [mapCall, hl]

/-- A call that leaves the arrays alone acts as one that leaves the map alone. -/
theorem actsAsMap_of_kept (t : Store) (c : Call) (a : Answer) (h : Inv t)
    (hcall : call t.s c = (a, t.s)) (hmap : mapCall t.m c = (a, t.m)) : ActsAsMap t c := by
  refine ⟨?_, ?_, ?_⟩
  · rw [hcall, hmap]
  · rw [hcall, hmap]
    exact h
  · rw [hcall]
    exact fun _ => rfl

theorem actsAsMap_new_known (t : Store) (heap : ValueHeap) (cmdKey : Nat) (numEntries : Int)
    (e : KeyEntry) (h : Inv t) (hl : lookup KeyEntry.cmdKey cmdKey t.m = some e) :
    ActsAsMap t (.new heap cmdKey numEntries) := by
  apply actsAsMap_of_kept t _ (.ok, none) h
  · rw [call_new, new_known heap cmdKey numEntries t.s t.m e h hl]
  · exact mapCall_new_known heap cmdKey numEntries t.m e hl

/-- Without memory for more entries the call fails, which the map does not know of. -/
theorem new_not_actsAsMap (t : Store) (heap : ValueHeap) (cmdKey : Nat) (numEntries : Int)
    (h : Inv t) (hl : lookup KeyEntry.cmdKey cmdKey t.m = none)
    (hgrow : ¬ (t.s.maxMsgFieldValues ≤ t.s.numMsgFieldValues → heap.infos = true)) :
    ¬ ActsAsMap t (.new heap cmdKey numEntries) := by
  intro hacts
  have hfull : t.s.maxMsgFieldValues ≤ t.s.numMsgFieldValues ∧ heap.infos = false := by
    simpa using hgrow
  obtain ⟨g, hg⟩ := growInfos_failed heap t.s hfull.1 hfull.2
  have hanswer := hacts.answer
  rw [call_new, new_refused heap cmdKey numEntries t.s t.m g _ h hl hg,
    mapCall_new heap cmdKey numEntries t.m hl] at hanswer
  cases hanswer

theorem actsAsMap_new_missing (t : Store) (heap : ValueHeap) (cmdKey : Nat) (numEntries : Int)
    (h : Inv t) (hl : lookup KeyEntry.cmdKey cmdKey t.m = none)
    (hgrow : t.s.maxMsgFieldValues ≤ t.s.numMsgFieldValues → heap.infos = true) :
    ActsAsMap t (.new heap cmdKey numEntries) ↔
      t.s.numMsgFieldValues < 65535 ∧ Announceable heap numEntries := by
  obtain ⟨g, hg, hents, hgnum, hin, hroom⟩ := growInfos_spec heap t.s t.m h hgrow
  have hcall := new_missing heap cmdKey numEntries t.s t.m g h hl hg
  have hmap := mapCall_new heap cmdKey numEntries t.m hl
  have hret : (addInfo heap cmdKey numEntries g).1 = .ok := by
    rw [addInfo, hents]
  constructor
  · intro hacts
    have hrep := hacts.represents
    rw [call_new, hcall, hmap] at hrep
    exact of_addInfo_represents heap cmdKey numEntries t.s g t.m h hents hgnum hrep
  · rintro ⟨hnum, hann⟩
    obtain ⟨hlt, hodd, hsmall⟩ := hroom hnum
    obtain ⟨hnew, hok⟩ := (newMsgFieldValue_store heap cmdKey numEntries).mpr hann
    refine ⟨?_, ?_, ?_⟩
    · rw [call_new, hcall, hmap, hret]
    · rw [call_new, hcall, hmap]
      exact addInfo_represents heap cmdKey numEntries t.s g t.m h hl hnum hents hgnum hin hlt
        hodd hsmall hnew hok
    · rw [call_new, hcall, hret]
      exact fun hne => absurd rfl hne

theorem actsAsMap_new (t : Store) (heap : ValueHeap) (cmdKey : Nat) (numEntries : Int)
    (h : Inv t) :
    ActsAsMap t (.new heap cmdKey numEntries) ↔ Provided t (.new heap cmdKey numEntries) := by
  cases hl : lookup KeyEntry.cmdKey cmdKey t.m with
  | some e =>
    refine ⟨fun _ hnone => ?_, fun _ => actsAsMap_new_known t heap cmdKey numEntries e h hl⟩
    rw [hl] at hnone
    cases hnone
  | none =>
    by_cases hgrow : t.s.maxMsgFieldValues ≤ t.s.numMsgFieldValues → heap.infos = true
    · rw [actsAsMap_new_missing t heap cmdKey numEntries h hl hgrow]
      constructor
      · rintro ⟨hnum, hann⟩ _
        exact ⟨hann, hnum, hgrow⟩
      · intro hprov
        exact ⟨(hprov hl).2.1, (hprov hl).1⟩
    · have hnot := new_not_actsAsMap t heap cmdKey numEntries h hl hgrow
      exact ⟨fun hacts => absurd hacts hnot, fun hprov => absurd (hprov hl).2.2 hgrow⟩

theorem get_known (cmdKey : Nat) (s : MsgFieldValueInfos) (m : KeyMap) (e : KeyEntry)
    (h : Represents s m) (hl : lookup KeyEntry.cmdKey cmdKey m = some e) :
    ∃ idx, getMsgFieldValueInfo cmdKey s = (.ok, some idx) ∧ m[idx]? = some e ∧
      ∀ f, update KeyEntry.cmdKey f cmdKey m = m.set idx (f e) := by
  rw [getMsgFieldValueInfo, represents_entries s m h]
  dsimp only
  rw [findKey_store]
  cases hi : m.findIdx? fun e => e.cmdKey = cmdKey with
  | none =>
    rw [(findIdx_eq_none KeyEntry.cmdKey cmdKey m).mp hi] at hl
    cases hl
  | some idx =>
    obtain ⟨e', hidx, hl', hupdate⟩ := findIdx_spec KeyEntry.cmdKey cmdKey idx m hi
    rw [hl] at hl'
    cases hl'
    exact ⟨idx, rfl, hidx, hupdate⟩

theorem get_missing (cmdKey : Nat) (s : MsgFieldValueInfos) (m : KeyMap) (h : Represents s m)
    (hl : lookup KeyEntry.cmdKey cmdKey m = none) :
    getMsgFieldValueInfo cmdKey s = (.error .fieldValueInfoNotFound, none) := by
  rw [getMsgFieldValueInfo, represents_entries s m h]
  dsimp only
  rw [findKey_store, (findIdx_eq_none KeyEntry.cmdKey cmdKey m).mpr hl]

theorem actsAsMap_get (t : Store) (cmdKey : Nat) (h : Inv t) : ActsAsMap t (.get cmdKey) := by
  cases hl : lookup KeyEntry.cmdKey cmdKey t.m with
  | some e =>
    obtain ⟨idx, hget, -, -⟩ := get_known cmdKey t.s t.m e h hl
    apply actsAsMap_of_kept t _ (.ok, none) h
    · rw [call, hget]
    · rw [mapCall, hl]
  | none =>
    apply actsAsMap_of_kept t _ (.error .fieldValueInfoNotFound, none) h
    · rw [call, get_missing cmdKey t.s t.m h hl]
    · rw [mapCall, hl]

theorem getFieldValueInfo_eq (s : MsgFieldValueInfos) (m : KeyMap) (cmdKey fieldNameId : Nat)
    (h : Represents s m) (hid : fieldNameId ≠ 0) :
    getFieldValueInfo cmdKey fieldNameId s = mapValue m cmdKey fieldNameId := by
  rw [getFieldValueInfo, represents_entries s m h]
  exact findFieldValue_store cmdKey fieldNameId m h.keys h.ok hid

theorem actsAsMap_value (t : Store) (cmdKey fieldNameId : Nat) (hid : fieldNameId ≠ 0)
    (h : Inv t) : ActsAsMap t (.value cmdKey fieldNameId hid) := by
  apply actsAsMap_of_kept t _ (mapValue t.m cmdKey fieldNameId) h
  · rw [call, getFieldValueInfo_eq t.s t.m cmdKey fieldNameId h hid]
  · rfl

theorem insertValue_refused (names : CompMsgTypesAndNames) (e : KeyEntry) (v : FieldValue)
    (h : (insertValue names e v).1 ≠ .ok) : (insertValue names e v).2 = e.values := by
  revert h
  rw [insertValue]
  split
  · exact fun _ => rfl
  · exact fun _ => rfl
  · split
    · exact fun h => absurd rfl h
    · exact fun _ => rfl

theorem insertValue_ne_crash (names : CompMsgTypesAndNames) (e : KeyEntry) (v : FieldValue) :
    (insertValue names e v).1 ≠ .crash := by
  rw [insertValue]
  split
  · exact Ret.noConfusion
  · exact Ret.noConfusion
  · split
    · exact Ret.noConfusion
    · exact Ret.noConfusion

/-- The loop finds a free place, and the lookup of the name follows a null pointer. -/
theorem setMsgFieldValueInfo_crash (names : CompMsgTypesAndNames) (e : KeyEntry) (v : FieldValue)
    (h : EntryOk e) (hname : ¬ NameReadable names e v) :
    (setMsgFieldValueInfo names v (store e)).1 = .crash := by
  rw [NameReadable, Classical.not_imp, Classical.not_imp, Classical.not_not] at hname
  obtain ⟨hin, hfull, hcrash⟩ := hname
  have hid : v.fieldNameId.toNat = valueId v := rfl
  have hfree : ¬ e.announced.toNat - e.values.length = 0 := by omega
  rw [setMsgFieldValueInfo, valueEntries_store e h]
  dsimp only
  rw [fill, searchValues_used v.fieldNameId 0 _ e.values h.nonzero, hid, if_neg hin,
    if_neg hfree]
  dsimp only
  rw [hcrash]
  rfl

/-- A call of `setMsgFieldValueInfo` on the entry of a key that is known. -/
theorem set_known (names : CompMsgTypesAndNames) (cmdKey : Nat) (v : FieldValue)
    (s : MsgFieldValueInfos) (m : KeyMap) (e : KeyEntry) (h : Represents s m)
    (hl : lookup KeyEntry.cmdKey cmdKey m = some e) :
    ∃ idx, m[idx]? = some e ∧ s.msgFieldValues = some (m.map store) ∧
      (∀ f, update KeyEntry.cmdKey f cmdKey m = m.set idx (f e)) ∧
      setValue names cmdKey v s = ((setMsgFieldValueInfo names v (store e)).1, { s with
        msgFieldValues :=
          some ((m.map store).set idx (setMsgFieldValueInfo names v (store e)).2) }) := by
  obtain ⟨idx, hget, hidx, hupdate⟩ := get_known cmdKey s m e h hl
  have hents : s.msgFieldValues = some (m.map store) := by
    have hentries := h.entries
    cases hs : s.msgFieldValues with
    | some es =>
      rw [hs, Option.getD_some] at hentries
      rw [hentries]
    | none =>
      rw [hs, Option.getD_none, List.nil_eq, List.map_eq_nil_iff] at hentries
      rw [hentries] at hidx
      cases hidx
  have hstore : (m.map store)[idx]? = some (store e) := by
    rw [List.getElem?_map, hidx, Option.map_some]
  refine ⟨idx, hidx, hents, hupdate, ?_⟩
  rw [setValue, hget, hents]
  dsimp only
  rw [hstore]

/-- Changing the values of an entry in the arrays changes them in the map. -/
theorem set_represents (s : MsgFieldValueInfos) (m : KeyMap) (cmdKey idx : Nat) (e : KeyEntry)
    (values : List FieldValue) (h : Represents s m)
    (hupdate : ∀ f, update KeyEntry.cmdKey f cmdKey m = m.set idx (f e))
    (hok : EntryOk { e with values := values }) :
    Represents
      { s with msgFieldValues := some ((m.map store).set idx (store { e with values := values })) }
      (update KeyEntry.cmdKey (fun e => { e with values := values }) cmdKey m) := by
  refine ⟨?_, ?_, fun hnone => absurd hnone (Option.some_ne_none _), h.room, h.odd, h.small,
    h.inBounds, ?_, ?_⟩
  · rw [Option.getD_some, hupdate, List.map_set]
  · rw [length_update]
    exact h.count
  · rw [map_update KeyEntry.cmdKey KeyEntry.cmdKey (fun e => { e with values := values }) cmdKey m
      fun _ => rfl]
    exact h.keys
  · intro e' he'
    rw [hupdate] at he'
    obtain he' | he' := List.mem_or_eq_of_mem_set he'
    · exact h.ok e' he'
    · rw [he']
      exact hok

theorem mapCall_set (m : KeyMap) (names : CompMsgTypesAndNames) (cmdKey : Nat) (v : FieldValue)
    (hv : v.fieldNameId ≠ 0) (e : KeyEntry) (hl : lookup KeyEntry.cmdKey cmdKey m = some e) :
    mapCall m (.set names cmdKey v hv) = (((insertValue names e v).1, none),
      update KeyEntry.cmdKey (fun e' => { e' with values := (insertValue names e v).2 })
        cmdKey m) := by
  rw [mapCall, hl]

theorem actsAsMap_set_missing (t : Store) (names : CompMsgTypesAndNames) (cmdKey : Nat)
    (v : FieldValue) (hv : v.fieldNameId ≠ 0) (h : Inv t)
    (hl : lookup KeyEntry.cmdKey cmdKey t.m = none) :
    ActsAsMap t (.set names cmdKey v hv) := by
  apply actsAsMap_of_kept t _ (.error .fieldValueInfoNotFound, none) h
  · rw [call, setValue, get_missing cmdKey t.s t.m h hl]
  · rw [mapCall, hl]

theorem set_not_actsAsMap (t : Store) (names : CompMsgTypesAndNames) (cmdKey : Nat)
    (v : FieldValue) (hv : v.fieldNameId ≠ 0) (e : KeyEntry) (h : Inv t)
    (hl : lookup KeyEntry.cmdKey cmdKey t.m = some e) (hname : ¬ NameReadable names e v) :
    ¬ ActsAsMap t (.set names cmdKey v hv) := by
  intro hacts
  obtain ⟨idx, -, -, -, hset⟩ := set_known names cmdKey v t.s t.m e h hl
  have he : EntryOk e := h.ok e (lookup_mem KeyEntry.cmdKey cmdKey t.m e hl).1
  have hanswer := hacts.answer
  rw [call, hset, mapCall_set t.m names cmdKey v hv e hl,
    setMsgFieldValueInfo_crash names e v he hname] at hanswer
  exact insertValue_ne_crash names e v (congrArg (fun a : Answer => a.1) hanswer).symm

theorem actsAsMap_set_known (t : Store) (names : CompMsgTypesAndNames) (cmdKey : Nat)
    (v : FieldValue) (hv : v.fieldNameId ≠ 0) (e : KeyEntry) (h : Inv t)
    (hl : lookup KeyEntry.cmdKey cmdKey t.m = some e) (hname : NameReadable names e v) :
    ActsAsMap t (.set names cmdKey v hv) := by
  obtain ⟨idx, hidx, hents, hupdate, hset⟩ := set_known names cmdKey v t.s t.m e h hl
  have hmap := mapCall_set t.m names cmdKey v hv e hl
  have he : EntryOk e := h.ok e (lookup_mem KeyEntry.cmdKey cmdKey t.m e hl).1
  rw [setMsgFieldValueInfo_store names e v he hname] at hset
  refine ⟨by rw [call, hset, hmap], ?_, ?_⟩
  · rw [call, hset, hmap]
    exact set_represents t.s t.m cmdKey idx e _ h hupdate (insertValue_ok names e v he hv)
  · rw [call, hset]
    dsimp only
    intro hne
    have hstore : (t.m.map store)[idx]? = some (store e) := by
      rw [List.getElem?_map, hidx, Option.map_some]
    obtain ⟨hlt, hget⟩ := List.getElem?_eq_some_iff.mp hstore
    have hsame : (t.m.map store).set idx
        (store { e with values := (insertValue names e v).2 }) = t.m.map store := by
      rw [insertValue_refused names e v hne]
      calc (t.m.map store).set idx (store e)
          = (t.m.map store).set idx (t.m.map store)[idx] := by rw [hget]
        _ = t.m.map store := List.set_getElem_self hlt
    rw [hsame, ← hents]

theorem actsAsMap_set (t : Store) (names : CompMsgTypesAndNames) (cmdKey : Nat) (v : FieldValue)
    (hv : v.fieldNameId ≠ 0) (h : Inv t) :
    ActsAsMap t (.set names cmdKey v hv) ↔ Provided t (.set names cmdKey v hv) := by
  constructor
  · intro hacts e hl
    by_contra hname
    exact set_not_actsAsMap t names cmdKey v hv e h hl hname hacts
  · intro hprov
    cases hl : lookup KeyEntry.cmdKey cmdKey t.m with
    | none => exact actsAsMap_set_missing t names cmdKey v hv h hl
    | some e => exact actsAsMap_set_known t names cmdKey v hv e h hl (hprov e hl)

theorem insertValue_lookup (names : CompMsgTypesAndNames) (e : KeyEntry) (v : FieldValue)
    (fieldNameId : Nat) (h : (insertValue names e v).1 = .ok) :
    lookup valueId fieldNameId (insertValue names e v).2 =
      if fieldNameId = valueId v then some v else lookup valueId fieldNameId e.values := by
  revert h
  rw [insertValue]
  split
  · exact Ret.noConfusion
  · exact Ret.noConfusion
  · rename_i values heq
    split
    · exact fun _ => lookup_insert valueId e.announced v e.values values fieldNameId heq
    · exact Ret.noConfusion

theorem mapValue_set (m : KeyMap) (names : CompMsgTypesAndNames) (cmdKey : Nat) (v : FieldValue)
    (hv : v.fieldNameId ≠ 0) (h : (mapCall m (.set names cmdKey v hv)).1.1 = .ok)
    (key fieldNameId : Nat) :
    mapValue (mapCall m (.set names cmdKey v hv)).2 key fieldNameId =
      if key = cmdKey ∧ fieldNameId = valueId v then (.ok, some v)
      else mapValue m key fieldNameId := by
  cases hl : lookup KeyEntry.cmdKey cmdKey m with
  | none =>
    rw [mapCall, hl] at h
    cases h
  | some e =>
    rw [mapCall_set m names cmdKey v hv e hl] at h ⊢
    have hlookup := lookup_update KeyEntry.cmdKey
      (fun e' => { e' with values := (insertValue names e v).2 }) cmdKey key m fun _ => rfl
    rw [mapValue, hlookup]
    by_cases hkey : key = cmdKey
    · rw [if_pos hkey, hl, Option.map_some, Option.bind_some,
        insertValue_lookup names e v fieldNameId h]
      by_cases hid : fieldNameId = valueId v
      · rw [if_pos hid, if_pos ⟨hkey, hid⟩]
      · rw [if_neg hid, if_neg fun hboth => hid hboth.2, mapValue, hkey, hl, Option.bind_some]
    · rw [if_neg hkey, if_neg fun hboth => hkey hboth.1, mapValue]

/-- A value that has been set is found, and every other lookup answers as before. -/
theorem getFieldValueInfo_setValue (t : Store) (names : CompMsgTypesAndNames) (cmdKey : Nat)
    (v : FieldValue) (hv : v.fieldNameId ≠ 0) (h : Inv t)
    (hprov : Provided t (.set names cmdKey v hv)) (hok : (setValue names cmdKey v t.s).1 = .ok)
    (key fieldNameId : Nat) (hid : fieldNameId ≠ 0) :
    getFieldValueInfo key fieldNameId (setValue names cmdKey v t.s).2 =
      if key = cmdKey ∧ fieldNameId = valueId v then (.ok, some v)
      else getFieldValueInfo key fieldNameId t.s := by
  have hacts := (actsAsMap_set t names cmdKey v hv h).mpr hprov
  have hmap : (mapCall t.m (.set names cmdKey v hv)).1.1 = .ok := by
    rw [← hacts.answer]
    exact hok
  rw [getFieldValueInfo_eq t.s t.m key fieldNameId h hid,
    ← mapValue_set t.m names cmdKey v hv hmap key fieldNameId]
  exact getFieldValueInfo_eq _ _ key fieldNameId hacts.represents hid

/-- A call acts as one on the map if and only if what it needs is provided. -/
theorem actsAsMap_iff (t : Store) (c : Call) (h : Inv t) : ActsAsMap t c ↔ Provided t c := by
  cases c with
  | new heap cmdKey numEntries => exact actsAsMap_new t heap cmdKey numEntries h
  | get cmdKey => exact ⟨fun _ => trivial, fun _ => actsAsMap_get t cmdKey h⟩
  | set names cmdKey fieldValue nonzero => exact actsAsMap_set t names cmdKey fieldValue nonzero h
  | value cmdKey fieldNameId nonzero =>
    exact ⟨fun _ => trivial, fun _ => actsAsMap_value t cmdKey fieldNameId nonzero h⟩

/-- The store acts as the map in a whole run if and only if in the run every call is provided
for. -/
theorem valueTable_isMap_iff (calls : List Call) :
    Along step ActsAsMap start calls ↔ Along step Provided start calls := by
  apply along_congr step ActsAsMap Provided Inv
  · exact fun t c h => actsAsMap_iff t c h
  · exact fun t c _ h => h.represents
  · exact init_represents

/-- A command key that 65536 values are announced for takes none. -/
theorem announced_65536_refuses : ¬ Along step ActsAsMap start
    [.new ⟨true, true⟩ 1 65536,
      .set ⟨0, 0, none, 0, 0, true⟩ 1 ⟨1, 0, 0, .numeric 7, 0⟩ (by decide)] := by
  rintro ⟨-, hset, -⟩
  exact absurd hset.answer (by decide)

end NodeMcu.CompMsg.ValueMap
