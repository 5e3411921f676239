import Mathlib.Data.List.Nodup
import Mathlib.Logic.Function.Basic
import NodeMcu.Lib.Run

namespace NodeMcu.CompMsg.Callbacks

open NodeMcu.Lib.Run

/-- `fieldValueCallbackInfos_t`. The callback is a pointer. -/
structure CallbackInfo where
  callbackId : UInt8
  callback : Nat
  deriving DecidableEq, Repr

/-- What `os_zalloc` and `c_memset` leave. -/
def zeroInfo : CallbackInfo := ⟨0, 0⟩

/-- The registry in `compMsgUtil_t`, with the entries that are allocated. Both counters are
`uint8_t` values. -/
structure Registry where
  numFieldValueCallbackInfos : Nat
  maxFieldValueCallbackInfos : Nat
  fieldValueCallbackInfos : Option (List CallbackInfo)
  deriving DecidableEq, Repr

inductive Code
  | ok
  | outOfMemory
  | fieldValueCallbackNotFound
  deriving DecidableEq, Repr

/-- The comma in `(fieldValueCallbackInfo->callbackId, callbackId)` drops the id of the entry. -/
def isMatch (_fieldValueCallbackInfo : CallbackInfo) (callbackId : UInt8) : Bool :=
  callbackId != 0

/-! The loops go through the entries for so many rounds; there is no result where one of them is
not allocated. -/

/-- The loop of `setFieldValueCallback`: the entries behind it, if one of them matches. -/
def setLoop (callbackId : UInt8) (callback : Nat) :
    Nat → List CallbackInfo → Option (Option (List CallbackInfo))
  | 0, _ => some none
  | _ + 1, [] => none
  | n + 1, e :: es =>
    if isMatch e callbackId then some (some ({ e with callback := callback } :: es))
    else (setLoop callbackId callback n es).map fun r => r.map fun es => e :: es

def setFieldValueCallback (callbackId : UInt8) (callback : Nat) (s : Registry) :
    Option (Code × Registry) :=
  (setLoop callbackId callback s.numFieldValueCallbackInfos
      (s.fieldValueCallbackInfos.getD [])).map fun
    | none => (.fieldValueCallbackNotFound, s)
    | some es => (.ok, { s with fieldValueCallbackInfos := some es })

/-- The allocation in front of a new entry. What `os_realloc` puts behind the old entries is not
read, and a reallocation that fails is not noticed. -/
def growInfos (heap : Bool) (s : Registry) : Code × Registry :=
  if s.maxFieldValueCallbackInfos ≤ s.numFieldValueCallbackInfos then
    match s.fieldValueCallbackInfos with
    | none =>
      if heap then
        (.ok, { s with
          maxFieldValueCallbackInfos := 40
          fieldValueCallbackInfos := some (List.replicate 40 zeroInfo) })
      else (.outOfMemory, { s with maxFieldValueCallbackInfos := 40 })
    | some es =>
      let max := (s.maxFieldValueCallbackInfos + 5) % 256
      (.ok, { s with
        maxFieldValueCallbackInfos := max
        fieldValueCallbackInfos :=
          if heap then some (es.take max ++ List.replicate (max - es.length) zeroInfo)
          else none })
  else (.ok, s)

/-- There is no result where the new entry is not in an allocated array. -/
def addFieldValueCallbackId (heap : Bool) (callbackId : UInt8) (callback : Nat) (s : Registry) :
    Option (Code × Registry) :=
  match growInfos heap s with
  | (.ok, s) =>
    match s.fieldValueCallbackInfos with
    | none => none
    | some es =>
      if s.numFieldValueCallbackInfos < es.length then
        some (.ok, { s with
          fieldValueCallbackInfos :=
            some (es.set s.numFieldValueCallbackInfos ⟨callbackId, callback⟩)
          numFieldValueCallbackInfos := (s.numFieldValueCallbackInfos + 1) % 256 })
      else none
  | r => some r

/-- The loop of `getFieldValueCallback`. -/
def getLoop (callbackId : UInt8) : Nat → List CallbackInfo → Option (Option Nat)
  | 0, _ => some none
  | _ + 1, [] => none
  | n + 1, e :: es =>
    if isMatch e callbackId then some (some e.callback) else getLoop callbackId n es

/-- The callback, or `none` for `FIELD_VALUE_CALLBACK_NOT_FOUND`. -/
def getFieldValueCallback (callbackId : UInt8) (s : Registry) : Option (Option Nat) :=
  getLoop callbackId s.numFieldValueCallbackInfos (s.fieldValueCallbackInfos.getD [])

/-! ## Runs -/

inductive Op
  | add (heap : Bool) (callbackId : UInt8) (callback : Nat)
  | set (callbackId : UInt8) (callback : Nat)
  | get (callbackId : UInt8)

/-- The registry, and the callback that has been registered last under each id. -/
structure Session where
  registry : Registry
  registered : UInt8 → Option Nat

/-- A callback is registered by an addition that succeeds, or for an id that has been added. -/
def step : Option Session → Op → Option Session
  | none, _ => none
  | some x, .add heap callbackId callback =>
    (addFieldValueCallbackId heap callbackId callback x.registry).map fun r =>
      ⟨r.2, if r.1 = .ok then Function.update x.registered callbackId (some callback)
        else x.registered⟩
  | some x, .set callbackId callback =>
    (setFieldValueCallback callbackId callback x.registry).map fun r =>
      ⟨r.2, if x.registered callbackId = none then x.registered
        else Function.update x.registered callbackId (some callback)⟩
  | some x, .get callbackId => (getFieldValueCallback callbackId x.registry).map fun _ => x

def start : Option Session := some ⟨⟨0, 0, none⟩, fun _ => none⟩

/-- The entries in use. -/
def entries (s : Registry) : List CallbackInfo :=
  (s.fieldValueCallbackInfos.getD []).take s.numFieldValueCallbackInfos

/-- The entries are the registered callbacks. -/
def Represents (x : Session) : Prop :=
  ∀ callbackId callback,
    ⟨callbackId, callback⟩ ∈ entries x.registry ↔ x.registered callbackId = some callback

/-- The answer to a question: the callback registered last, or that there is none. -/
def Answered (x : Session) : Op → Prop
  | .get callbackId =>
    getFieldValueCallback callbackId x.registry = some (x.registered callbackId)
  | _ => True

/-- The step touches allocated entries only, changes no entry but that of its id, and gives the
right answer. -/
def Right (s : Option Session) (op : Op) : Prop :=
  (∃ x, step s op = some x ∧ Represents x) ∧ ∀ x, s = some x → Answered x op

/-- An id is not added again. -/
def Op.added : Op → Option UInt8
  | .add _ callbackId _ => some callbackId
  | _ => none

/-- A sequence of calls that adds pairwise distinct ids. -/
structure Calls where
  ops : List Op
  distinct : (ops.filterMap Op.added).Nodup

def Calls.Faithful (calls : Calls) : Prop := Along step Right start calls.ops

/-- The wrong comparison and the wrong allocations make no difference to the step. -/
def Harmless : Option Session → Op → Prop
  | none, _ => True
  | some x, .add heap _ _ =>
    match x.registry.fieldValueCallbackInfos with
    | none => x.registry.maxFieldValueCallbackInfos = 0
    | some _ =>
      x.registry.maxFieldValueCallbackInfos ≤ x.registry.numFieldValueCallbackInfos →
        heap = true ∧ x.registry.maxFieldValueCallbackInfos < 255
  | some x, .set callbackId callback =>
    ∀ e, (entries x.registry).head? = some e →
      (callbackId ≠ 0 ∧ e.callbackId = callbackId) ∨
      ((∀ c, x.registered callbackId = some c → c = callback) ∧
        (callbackId ≠ 0 → e.callback = callback))
  | some x, .get callbackId =>
    ∀ e, (entries x.registry).head? = some e →
      x.registered callbackId = if callbackId = 0 then none else some e.callback

/-! ## Lists of callbacks -/

section Entries

variable {es : List CallbackInfo} {m : UInt8 → Option Nat}

/-- The list holds the pairs of the map. -/
def Lists (es : List CallbackInfo) (m : UInt8 → Option Nat) : Prop :=
  ∀ callbackId callback, ⟨callbackId, callback⟩ ∈ es ↔ m callbackId = some callback

/-- What is registered behind a call for an id that may not have been added. -/
def updated (m : UInt8 → Option Nat) (callbackId : UInt8) (callback : Nat) :
    UInt8 → Option Nat :=
  if m callbackId = none then m else Function.update m callbackId (some callback)

theorem lists_nil (h : Lists [] m) (callbackId : UInt8) : m callbackId = none := by
  rw [Option.eq_none_iff_forall_ne_some]
  intro callback hc
  exact absurd ((h callbackId callback).mpr hc) List.not_mem_nil

theorem lists_unique {m' : UInt8 → Option Nat} (h : Lists es m) (h' : Lists es m') : m = m' := by
  funext callbackId
  apply Option.ext
  intro callback
  exact (h callbackId callback).symm.trans (h' callbackId callback)

theorem updated_eq_iff (m : UInt8 → Option Nat) (callbackId : UInt8) (callback : Nat) :
    updated m callbackId callback = m ↔ ∀ c, m callbackId = some c → c = callback := by
  unfold updated
  cases hm : m callbackId with
  | none => simp
  | some c =>
    rw [if_neg (Option.some_ne_none c), Function.update_eq_self_iff, hm]
    simp [eq_comm]

/-- Where the list stays, the call must not have had anything to change. -/
theorem lists_updated_iff (h : Lists es m) (callbackId : UInt8) (callback : Nat) :
    Lists es (updated m callbackId callback) ↔ ∀ c, m callbackId = some c → c = callback := by
  rw [← updated_eq_iff]
  constructor
  · intro h'
    exact (lists_unique h h').symm
  · intro h'
    rwa [h']

theorem lists_setHead {e : CallbackInfo} (h : Lists (e :: es) m)
    (hn : ((e :: es).map CallbackInfo.callbackId).Nodup) (callback : Nat) :
    Lists ({ e with callback := callback } :: es) (Function.update m e.callbackId callback) := by
  intro i c
  have hnot : e.callbackId ∉ es.map CallbackInfo.callbackId := (List.nodup_cons.mp hn).1
  by_cases hi : i = e.callbackId
  · have hes : (⟨e.callbackId, c⟩ : CallbackInfo) ∉ es :=
      fun hmem => hnot (List.mem_map.mpr ⟨_, hmem, rfl⟩)
    rw [hi, Function.update_self, List.mem_cons]
    simp [hes, eq_comm]
  · rw [Function.update_of_ne hi, ← h i c]
    have h1 : (⟨i, c⟩ : CallbackInfo) ≠ { e with callback := callback } := by
      intro he
      exact hi (congrArg CallbackInfo.callbackId he)
    have h2 : (⟨i, c⟩ : CallbackInfo) ≠ e := by
      intro he
      exact hi (congrArg CallbackInfo.callbackId he)
    simp [h1, h2]

/-- The first entry is changed: this is right if it is the one of the id, or if it stays the
same. -/
theorem lists_setHead_iff {e : CallbackInfo} (h : Lists (e :: es) m)
    (hn : ((e :: es).map CallbackInfo.callbackId).Nodup) (callbackId : UInt8) (callback : Nat) :
    Lists ({ e with callback := callback } :: es) (updated m callbackId callback) ↔
      e.callbackId = callbackId ∨
        ((∀ c, m callbackId = some c → c = callback) ∧ e.callback = callback) := by
  have hhead : m e.callbackId = some e.callback := (h _ _).mp List.mem_cons_self
  by_cases hid : e.callbackId = callbackId
  · have hup : updated m callbackId callback =
        Function.update m e.callbackId (some callback) := by
      rw [← hid, updated, if_neg (by rw [hhead]; simp)]
    rw [hup]
    exact iff_of_true (lists_setHead h hn callback) (.inl hid)
  · simp only [hid, false_or]
    have hsame : e.callback = callback → ({ e with callback := callback } : CallbackInfo) = e := by
      rintro rfl
      rfl
    constructor
    · intro h'
      have hkept : updated m callbackId callback e.callbackId = m e.callbackId := by
        unfold updated
        split
        · rfl
        · exact Function.update_of_ne hid _ _
      have hcall : e.callback = callback := by
        have hnew := (h' e.callbackId callback).mp List.mem_cons_self
        rw [hkept, hhead] at hnew
        exact Option.some.inj hnew
      rw [hsame hcall, lists_updated_iff h] at h'
      exact ⟨h', hcall⟩
    · rintro ⟨hreg, hcall⟩
      rw [hsame hcall, lists_updated_iff h]
      exact hreg

theorem lists_append (h : Lists es m) (callbackId : UInt8) (callback : Nat)
    (hnew : m callbackId = none) :
    Lists (es ++ [⟨callbackId, callback⟩]) (Function.update m callbackId (some callback)) := by
  intro i c
  rw [List.mem_append, List.mem_singleton, h i c, Function.update_apply]
  by_cases hi : i = callbackId
  · simp [hi, hnew, eq_comm]
  · simp [hi]

theorem not_mem_ids (h : Lists es m) (callbackId : UInt8) (hnew : m callbackId = none) :
    callbackId ∉ es.map CallbackInfo.callbackId := by
  intro hmem
  obtain ⟨e, he, rfl⟩ := List.mem_map.mp hmem
  have hsome := (h e.callbackId e.callback).mp he
  rw [hnew] at hsome
  cases hsome

end Entries

/-! ## The loops -/

theorem setLoop_zero (callback n : Nat) (es : List CallbackInfo) (h : n ≤ es.length) :
    setLoop 0 callback n es = some none := by
  induction n generalizing es with
  | zero => rfl
  | succ n ih =>
    cases es with
    | nil => simp at h
    | cons e es =>
      have hes := ih es (Nat.le_of_succ_le_succ h)
      simp [setLoop, isMatch, hes]

theorem getLoop_zero (n : Nat) (es : List CallbackInfo) (h : n ≤ es.length) :
    getLoop 0 n es = some none := by
  induction n generalizing es with
  | zero => rfl
  | succ n ih =>
    cases es with
    | nil => simp at h
    | cons e es =>
      have hes := ih es (Nat.le_of_succ_le_succ h)
      simp [getLoop, isMatch, hes]

theorem setLoop_cons (callbackId : UInt8) (callback n : Nat) (e : CallbackInfo)
    (es : List CallbackInfo) (h : callbackId ≠ 0) :
    setLoop callbackId callback (n + 1) (e :: es) =
      some (some ({ e with callback := callback } :: es)) := by
  simp [setLoop, isMatch, h]

theorem getLoop_cons (callbackId : UInt8) (n : Nat) (e : CallbackInfo) (es : List CallbackInfo)
    (h : callbackId ≠ 0) : getLoop callbackId (n + 1) (e :: es) = some (some e.callback) := by
  simp [getLoop, isMatch, h]

/-! ## What holds along a run -/

/-- The counters fit the array. -/
def Shaped (s : Registry) : Prop :=
  match s.fieldValueCallbackInfos with
  | none => s.numFieldValueCallbackInfos = 0 ∧
      (s.maxFieldValueCallbackInfos = 0 ∨ s.maxFieldValueCallbackInfos = 40)
  | some es => es.length = s.maxFieldValueCallbackInfos ∧
      s.numFieldValueCallbackInfos ≤ s.maxFieldValueCallbackInfos ∧
      s.maxFieldValueCallbackInfos ≤ 255 ∧ 5 ∣ s.maxFieldValueCallbackInfos

structure Sane (x : Session) : Prop where
  shaped : Shaped x.registry
  lists : Lists (entries x.registry) x.registered
  nodup : ((entries x.registry).map CallbackInfo.callbackId).Nodup

def Inside (s : Option Session) : Prop := ∃ x, s = some x ∧ Sane x

theorem shaped_length (s : Registry) (h : Shaped s) :
    s.numFieldValueCallbackInfos ≤ (s.fieldValueCallbackInfos.getD []).length := by
  unfold Shaped at h
  split at h
  · rename_i hnone
    rw [hnone, h.1]
    exact Nat.zero_le _
  · rename_i es hes
    rw [hes, Option.getD_some, h.1]
    exact h.2.1

theorem entries_nil (s : Registry) (h : s.numFieldValueCallbackInfos = 0) : entries s = [] := by
  rw [entries, h, List.take_zero]

/-- A registry with entries in use. -/
theorem entries_cases (s : Registry) (h : Shaped s) :
    s.numFieldValueCallbackInfos = 0 ∨ ∃ e es n, s.fieldValueCallbackInfos = some (e :: es) ∧
      s.numFieldValueCallbackInfos = n + 1 ∧ entries s = e :: es.take n := by
  have hlen := shaped_length s h
  cases hn : s.numFieldValueCallbackInfos with
  | zero => exact .inl rfl
  | succ n =>
    rw [hn] at hlen
    cases hes : s.fieldValueCallbackInfos with
    | none =>
      rw [hes] at hlen
      simp at hlen
    | some es =>
      rw [hes] at hlen
      cases es with
      | nil => simp at hlen
      | cons e es =>
        refine .inr ⟨e, es, n, rfl, rfl, ?_⟩
        rw [entries, hes, hn]
        rfl

theorem setFieldValueCallback_kept (s : Registry) (h : Shaped s) (callbackId : UInt8)
    (callback : Nat) (hkept : s.numFieldValueCallbackInfos = 0 ∨ callbackId = 0) :
    setFieldValueCallback callbackId callback s = some (.fieldValueCallbackNotFound, s) := by
  have hloop : setLoop callbackId callback s.numFieldValueCallbackInfos
      (s.fieldValueCallbackInfos.getD []) = some none := by
    cases hkept with
    | inl hn => rw [hn, setLoop]
    | inr h0 => rw [h0, setLoop_zero callback _ _ (shaped_length s h)]
  simp only [setFieldValueCallback, hloop, Option.map_some]

theorem setFieldValueCallback_first (s : Registry) (callbackId : UInt8) (callback : Nat)
    (e : CallbackInfo) (es : List CallbackInfo) (n : Nat)
    (hes : s.fieldValueCallbackInfos = some (e :: es))
    (hn : s.numFieldValueCallbackInfos = n + 1) (h0 : callbackId ≠ 0) :
    setFieldValueCallback callbackId callback s = some (.ok, { s with
      fieldValueCallbackInfos := some ({ e with callback := callback } :: es) }) := by
  simp only [setFieldValueCallback, hes, hn, Option.getD_some,
    setLoop_cons callbackId callback n e es h0, Option.map_some]

theorem getFieldValueCallback_kept (s : Registry) (h : Shaped s) (callbackId : UInt8)
    (hkept : s.numFieldValueCallbackInfos = 0 ∨ callbackId = 0) :
    getFieldValueCallback callbackId s = some none := by
  rw [getFieldValueCallback]
  cases hkept with
  | inl hn => rw [hn, getLoop]
  | inr h0 => rw [h0, getLoop_zero _ _ (shaped_length s h)]

section Steps

variable (x : Session) (h : Sane x)

include h

theorem registered_of_none (hn : x.registry.numFieldValueCallbackInfos = 0)
    (callbackId : UInt8) : x.registered callbackId = none := by
  have hlists := h.lists
  rw [entries_nil x.registry hn] at hlists
  exact lists_nil hlists callbackId

/-- A question leaves everything as it is, and is answered from the first entry. -/
theorem step_get (callbackId : UInt8) :
    step (some x) (.get callbackId) = some x ∧
      (Answered x (.get callbackId) ↔ Harmless (some x) (.get callbackId)) := by
  obtain hn | ⟨e, es, n, hes, hn, hentries⟩ := entries_cases x.registry h.shaped
  · have hget := getFieldValueCallback_kept x.registry h.shaped callbackId (.inl hn)
    refine ⟨by rw [step, hget]; rfl, ?_⟩
    rw [Answered, hget, registered_of_none x h hn, Harmless, entries_nil x.registry hn]
    simp
  · have hget : getFieldValueCallback callbackId x.registry =
        some (if callbackId = 0 then none else some e.callback) := by
      by_cases h0 : callbackId = 0
      · rw [getFieldValueCallback_kept x.registry h.shaped callbackId (.inr h0), if_pos h0]
      · rw [getFieldValueCallback, hes, hn, Option.getD_some, getLoop_cons callbackId n e es h0,
          if_neg h0]
    refine ⟨by rw [step, hget]; rfl, ?_⟩
    rw [Answered, hget, Harmless, hentries]
    simp [eq_comm]

/-- A change leaves the ids as they are. -/
theorem step_set (callbackId : UInt8) (callback : Nat) :
    ∃ s, step (some x) (.set callbackId callback) =
        some ⟨s, updated x.registered callbackId callback⟩ ∧ Shaped s ∧
      ((entries s).map CallbackInfo.callbackId).Nodup ∧
      (Lists (entries s) (updated x.registered callbackId callback) ↔
        Harmless (some x) (.set callbackId callback)) := by
  obtain hn | ⟨e, es, n, hes, hn, hentries⟩ := entries_cases x.registry h.shaped
  · have hset := setFieldValueCallback_kept x.registry h.shaped callbackId callback (.inl hn)
    refine ⟨x.registry, by rw [step, hset]; rfl, h.shaped, h.nodup, ?_⟩
    rw [lists_updated_iff h.lists, registered_of_none x h hn, Harmless,
      entries_nil x.registry hn]
    simp
  · by_cases h0 : callbackId = 0
    · have hset := setFieldValueCallback_kept x.registry h.shaped callbackId callback (.inr h0)
      refine ⟨x.registry, by rw [step, hset]; rfl, h.shaped, h.nodup, ?_⟩
      rw [lists_updated_iff h.lists, Harmless, hentries]
      simp [h0]
    · have hset := setFieldValueCallback_first x.registry callbackId callback e es n hes hn h0
      have hlists := h.lists
      have hnodup := h.nodup
      rw [hentries] at hlists hnodup
      refine ⟨_, by rw [step, hset]; rfl, ?_, ?_, ?_⟩
      · have hshaped := h.shaped
        simp only [Shaped, hes] at hshaped ⊢
        exact hshaped
      · simp only [entries, hn, Option.getD_some]
        exact hnodup
      · simp only [entries, hn, Option.getD_some, List.take_succ_cons]
        rw [lists_setHead_iff hlists hnodup, Harmless, hentries]
        simp [h0]

end Steps

/-- A new entry behind those in use. -/
theorem entries_set (num max : Nat) (es : List CallbackInfo) (e : CallbackInfo)
    (h : num < es.length) :
    entries ⟨num + 1, max, some (es.set num e)⟩ = entries ⟨num, max, some es⟩ ++ [e] := by
  simp only [entries, Option.getD_some]
  rw [List.take_add_one, List.take_set_of_le (Nat.le_refl num), List.getElem?_set_self h]
  rfl

/-- An entry of a new id in an array that has room for it. -/
theorem sane_added (num max : Nat) (es : List CallbackInfo) (registered : UInt8 → Option Nat)
    (callbackId : UInt8) (callback : Nat)
    (hlists : Lists (entries ⟨num, max, some es⟩) registered)
    (hnodup : ((entries ⟨num, max, some es⟩).map CallbackInfo.callbackId).Nodup)
    (hlen : es.length = max) (hroom : num < max) (hmax : max ≤ 255) (hdvd : 5 ∣ max)
    (hnew : registered callbackId = none) :
    Sane ⟨⟨num + 1, max, some (es.set num ⟨callbackId, callback⟩)⟩,
      Function.update registered callbackId (some callback)⟩ := by
  have hentries := entries_set num max es ⟨callbackId, callback⟩ (by omega)
  refine ⟨⟨by simp [hlen], hroom, hmax, hdvd⟩, ?_, ?_⟩
  · simp only [hentries]
    exact lists_append hlists callbackId callback hnew
  · simp only [hentries, List.map_append, List.map_cons, List.map_nil]
    rw [List.nodup_append]
    refine ⟨hnodup, List.nodup_singleton _, ?_⟩
    intro a ha b hb hab
    rw [List.mem_singleton.mp hb] at hab
    rw [hab] at ha
    exact not_mem_ids hlists callbackId hnew ha

/-- The array after a reallocation begins with the entries in use. -/
theorem entries_grown (num max max' : Nat) (es : List CallbackInfo) (hlen : es.length = max)
    (hnum : num ≤ max) (hle : max ≤ max') :
    entries ⟨num, max', some (es.take max' ++ List.replicate (max' - es.length) zeroInfo)⟩ =
      entries ⟨num, max, some es⟩ := by
  have hall : es.take max' = es := List.take_of_length_le (by omega)
  simp only [entries, Option.getD_some, hall]
  exact List.take_append_of_le_length (by omega)

section Added

variable (num max : Nat) (es : List CallbackInfo) (registered : UInt8 → Option Nat)
  (callbackId : UInt8) (callback : Nat)

/-- The first addition allocates the array. -/
theorem add_first (heap : Bool) (hlists : Lists (entries ⟨0, 0, none⟩) registered)
    (hnodup : ((entries ⟨0, 0, none⟩).map CallbackInfo.callbackId).Nodup)
    (hnew : registered callbackId = none) :
    Inside (step (some ⟨⟨0, 0, none⟩, registered⟩) (.add heap callbackId callback)) := by
  cases heap with
  | false => exact ⟨⟨⟨0, 40, none⟩, registered⟩, rfl, ⟨rfl, .inr rfl⟩, hlists, hnodup⟩
  | true =>
    refine ⟨_, rfl, ?_⟩
    exact sane_added 0 40 (List.replicate 40 zeroInfo) registered callbackId callback hlists hnodup
      (by simp) (by decide) (by decide) (by decide) hnew

variable (hlists : Lists (entries ⟨num, max, some es⟩) registered)
  (hnodup : ((entries ⟨num, max, some es⟩).map CallbackInfo.callbackId).Nodup)
  (hlen : es.length = max) (hmax : max ≤ 255) (hdvd : 5 ∣ max)
  (hnew : registered callbackId = none)

include hlists hnodup hlen hmax hdvd hnew

/-- There is room for the new entry. -/
theorem add_room (heap : Bool) (hroom : num < max) :
    Inside (step (some ⟨⟨num, max, some es⟩, registered⟩) (.add heap callbackId callback)) := by
  have hfull : ¬ max ≤ num := Nat.not_le.mpr hroom
  have hcount : (num + 1) % 256 = num + 1 := by omega
  have hstep : step (some ⟨⟨num, max, some es⟩, registered⟩) (.add heap callbackId callback) =
      some ⟨⟨num + 1, max, some (es.set num ⟨callbackId, callback⟩)⟩,
        Function.update registered callbackId (some callback)⟩ := by
    simp only [step, addFieldValueCallbackId, growInfos, hfull, if_false, hlen, hroom, if_true,
      hcount, Option.map_some]
  rw [hstep]
  refine ⟨_, rfl, ?_⟩
  exact sane_added num max es registered callbackId callback hlists hnodup hlen hroom hmax hdvd
    hnew

/-- The array is full and grows. -/
theorem add_grown (hfull : num = max) (hlast : num < 255) :
    Inside (step (some ⟨⟨num, max, some es⟩, registered⟩) (.add true callbackId callback)) := by
  subst hfull
  have hmod : (num + 5) % 256 = num + 5 := by omega
  have hcount : (num + 1) % 256 = num + 1 := by omega
  have hgrown : (es.take (num + 5) ++
      List.replicate (num + 5 - es.length) zeroInfo).length = num + 5 := by
    simp
    omega
  have hroom : num < num + 5 := by omega
  have hstep : step (some ⟨⟨num, num, some es⟩, registered⟩) (.add true callbackId callback) =
      some ⟨⟨num + 1, num + 5, some ((es.take (num + 5) ++
          List.replicate (num + 5 - es.length) zeroInfo).set num ⟨callbackId, callback⟩)⟩,
        Function.update registered callbackId (some callback)⟩ := by
    simp only [step, addFieldValueCallbackId, growInfos, Nat.le_refl, if_true, hmod, hgrown, hroom,
      hcount, Option.map_some]
  rw [hstep]
  refine ⟨_, rfl, ?_⟩
  have hentries := entries_grown num num (num + 5) es hlen (Nat.le_refl num) (by omega)
  apply sane_added num (num + 5) _ registered callbackId callback
  · rw [hentries]
    exact hlists
  · rw [hentries]
    exact hnodup
  · exact hgrown
  · omega
  · omega
  · omega
  · exact hnew

end Added

/-- An addition ends outside exactly where it is not harmless. -/
theorem step_add (x : Session) (h : Sane x) (heap : Bool) (callbackId : UInt8) (callback : Nat)
    (hnew : x.registered callbackId = none) :
    (Harmless (some x) (.add heap callbackId callback) ∧
      Inside (step (some x) (.add heap callbackId callback))) ∨
    (¬ Harmless (some x) (.add heap callbackId callback) ∧
      step (some x) (.add heap callbackId callback) = none) := by
  obtain ⟨⟨num, max, infos⟩, registered⟩ := x
  obtain ⟨hshaped, hlists, hnodup⟩ := h
  cases infos with
  | none =>
    obtain ⟨rfl, rfl | rfl⟩ := hshaped
    · exact .inl ⟨rfl, add_first registered callbackId callback heap hlists hnodup hnew⟩
    · exact .inr ⟨by simp [Harmless], rfl⟩
  | some es =>
    obtain ⟨hlen, hnum, hmax, hdvd⟩ :
      es.length = max ∧ num ≤ max ∧ max ≤ 255 ∧ 5 ∣ max := hshaped
    by_cases hfull : max ≤ num
    · obtain rfl : num = max := Nat.le_antisymm hnum hfull
      cases heap with
      | false =>
        refine .inr ⟨by simp [Harmless], ?_⟩
        simp [step, addFieldValueCallbackId, growInfos]
      | true =>
        by_cases hlast : num < 255
        · exact .inl ⟨fun _ => ⟨rfl, hlast⟩, add_grown num num es registered callbackId callback
            hlists hnodup hlen hmax hdvd hnew rfl hlast⟩
        · obtain rfl : num = 255 := by omega
          refine .inr ⟨by simp [Harmless], ?_⟩
          simp [step, addFieldValueCallbackId, growInfos, hlen]
    · exact .inl ⟨fun hle => absurd hle hfull, add_room num max es registered callbackId callback
        hlists hnodup hlen hmax hdvd hnew heap (Nat.lt_of_not_le hfull)⟩

/-- The id of an addition is a new one. -/
def Fresh (s : Option Session) (op : Op) : Prop :=
  ∀ x, s = some x → ∀ callbackId, op.added = some callbackId → x.registered callbackId = none

/-- Nothing but its addition registers an id. -/
theorem step_registered (x x' : Session) (op : Op) (callbackId : UInt8)
    (hstep : step (some x) op = some x') (hop : op.added ≠ some callbackId)
    (h : x.registered callbackId = none) : x'.registered callbackId = none := by
  cases op with
  | get i =>
    obtain ⟨-, -, rfl⟩ := Option.map_eq_some_iff.mp hstep
    exact h
  | add heap i callback =>
    obtain ⟨-, -, rfl⟩ := Option.map_eq_some_iff.mp hstep
    have hne : callbackId ≠ i := fun he => hop (congrArg some he.symm)
    dsimp only
    split
    · rw [Function.update_of_ne hne, h]
    · exact h
  | set i callback =>
    obtain ⟨-, -, rfl⟩ := Option.map_eq_some_iff.mp hstep
    dsimp only
    split
    · exact h
    · rename_i hi
      have hne : callbackId ≠ i := by
        rintro rfl
        exact hi h
      rw [Function.update_of_ne hne, h]

theorem along_fresh (ops : List Op) (s : Option Session)
    (hd : (ops.filterMap Op.added).Nodup)
    (h : ∀ x, s = some x → ∀ callbackId ∈ ops.filterMap Op.added,
      x.registered callbackId = none) : Along step Fresh s ops := by
  induction ops generalizing s with
  | nil => trivial
  | cons op ops ih =>
    have hmem : ∀ callbackId ∈ ops.filterMap Op.added,
        callbackId ∈ (op :: ops).filterMap Op.added ∧ op.added ≠ some callbackId := by
      intro callbackId hin
      cases hadd : op.added with
      | none => exact ⟨by rwa [List.filterMap_cons_none hadd], by simp⟩
      | some i =>
        rw [List.filterMap_cons_some hadd] at hd ⊢
        refine ⟨List.mem_cons_of_mem i hin, ?_⟩
        rintro hi
        obtain rfl := Option.some.inj hi
        exact (List.nodup_cons.mp hd).1 hin
    constructor
    · intro x hx callbackId hadd
      apply h x hx
      rw [List.filterMap_cons_some hadd]
      exact List.mem_cons_self
    · apply ih
      · cases hadd : op.added with
        | none => rwa [List.filterMap_cons_none hadd] at hd
        | some i =>
          rw [List.filterMap_cons_some hadd] at hd
          exact (List.nodup_cons.mp hd).2
      · intro x' hx' callbackId hin
        obtain ⟨hall, hop⟩ := hmem callbackId hin
        cases s with
        | none => cases hx'
        | some x => exact step_registered x x' op callbackId hx' hop (h x rfl callbackId hall)

/-- A harmless step leads on, and no other step is right. -/
theorem right_iff (s : Option Session) (op : Op) (hs : Inside s) (hf : Fresh s op) :
    Harmless s op ↔ Right s op := by
  obtain ⟨x, rfl, hx⟩ := hs
  cases op with
  | add heap callbackId callback =>
    obtain ⟨hh, y, hy, hsane⟩ | ⟨hh, hnone⟩ :=
      step_add x hx heap callbackId callback (hf x rfl callbackId rfl)
    · exact iff_of_true hh ⟨⟨y, hy, hsane.lists⟩, fun _ _ => trivial⟩
    · refine iff_of_false hh ?_
      rintro ⟨⟨y, hy, -⟩, -⟩
      rw [hnone] at hy
      cases hy
  | set callbackId callback =>
    obtain ⟨s, hstep, -, -, hlists⟩ := step_set x hx callbackId callback
    rw [← hlists]
    constructor
    · intro h
      exact ⟨⟨_, hstep, h⟩, fun _ _ => trivial⟩
    · rintro ⟨⟨y, hy, hrep⟩, -⟩
      obtain rfl := Option.some.inj (hstep.symm.trans hy)
      exact hrep
  | get callbackId =>
    obtain ⟨hstep, hanswer⟩ := step_get x hx callbackId
    rw [← hanswer]
    constructor
    · intro h
      refine ⟨⟨x, hstep, hx.lists⟩, ?_⟩
      intro y hy
      rwa [← Option.some.inj hy]
    · intro h
      exact h.2 x rfl

theorem inside_step (s : Option Session) (op : Op) (hs : Inside s) (hf : Fresh s op)
    (hh : Harmless s op) : Inside (step s op) := by
  obtain ⟨x, rfl, hx⟩ := hs
  cases op with
  | add heap callbackId callback =>
    obtain ⟨-, hin⟩ | ⟨hnot, -⟩ :=
      step_add x hx heap callbackId callback (hf x rfl callbackId rfl)
    · exact hin
    · exact absurd hh hnot
  | set callbackId callback =>
    obtain ⟨s, hstep, hshaped, hnodup, hlists⟩ := step_set x hx callbackId callback
    exact ⟨_, hstep, hshaped, hlists.mpr hh, hnodup⟩
  | get callbackId => exact ⟨x, (step_get x hx callbackId).1, hx⟩

theorem inside_start : Inside start := by
  refine ⟨_, rfl, ⟨rfl, .inl rfl⟩, ?_, List.nodup_nil⟩
  intro callbackId callback
  simp [entries]

/-- The registry is right all along a run exactly if its steps are harmless. -/
theorem faithful_iff_harmless (calls : Calls) :
    calls.Faithful ↔ Along step Harmless start calls.ops := by
  have hfresh : Along step Fresh start calls.ops := by
    apply along_fresh calls.ops start calls.distinct
    intro x hx callbackId _
    rw [← Option.some.inj hx]
  exact (along_congr_of step Fresh Harmless Right Inside right_iff inside_step start calls.ops
    inside_start hfresh).symm

/-- Two ids, of which the second is asked for. -/
def secondAsked : Calls := ⟨[.add true 1 10, .add true 2 20, .get 2], by decide⟩

theorem secondAsked_not_faithful : ¬ secondAsked.Faithful := by
  rintro ⟨-, -, ⟨-, hanswer⟩, -⟩
  have h : some (some 10) = some (some 20) := hanswer _ rfl
  simp at h

end NodeMcu.CompMsg.Callbacks
