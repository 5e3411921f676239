import NodeMcu.Lib.Run
import NodeMcu.Lib.Slots

namespace NodeMcu.CompMsg.Handles

open NodeMcu.Lib.Run NodeMcu.Lib.Slots

/-- `handle2Dispatcher_t`, with the string that the handle points to. -/
structure Handle2Dispatcher where
  handle : Option String
  compMsgDispatcher : Nat
  deriving DecidableEq, Repr

/-- `compMsgDispatcherHandles_t`, with the entries that are allocated. -/
structure CompMsgDispatcherHandles where
  handles : Option (List Handle2Dispatcher)
  numHandles : Nat
  deriving DecidableEq, Repr

inductive Code
  | ok
  | outOfMemory
  | handleNotFound
  deriving DecidableEq, Repr

/-! The loops go through the entries for so many rounds; there is no result where one of them is
not allocated. -/

/-- The loop of `addHandle`: the entries with the first unused one replaced, if there is one. -/
def useSlot (entry : Handle2Dispatcher) :
    Nat → List Handle2Dispatcher → Option (Option (List Handle2Dispatcher))
  | 0, _ => some none
  | _ + 1, [] => none
  | n + 1, e :: es =>
    if e.handle = none then some (some (entry :: es))
    else (useSlot entry n es).map fun r => r.map fun es => e :: es

/-- `heap` tells whether the allocation or reallocation of the call finds memory. -/
def addHandle (heap : Bool) (handle : String) (self : Nat) (s : CompMsgDispatcherHandles) :
    Option (Code × CompMsgDispatcherHandles) :=
  match s.handles with
  | none =>
    if heap then
      -- One entry is allocated, and the one behind those that were there before is written.
      if s.numHandles = 0 then some (.ok, ⟨some [⟨some handle, self⟩], 1⟩) else none
    else some (.outOfMemory, s)
  | some es =>
    match useSlot ⟨some handle, self⟩ s.numHandles es with
    | none => none
    | some (some es) => some (.ok, { s with handles := some es })
    | some none =>
      if heap then
        some (.ok, ⟨some (es.take s.numHandles ++ [⟨some handle, self⟩]), s.numHandles + 1⟩)
      else some (.outOfMemory, { s with handles := none })

/-- The loop of `deleteHandle`: the entries behind it, `numUsed` and `found`. -/
def clearSlots (handle : String) :
    Nat → List Handle2Dispatcher → Option (List Handle2Dispatcher × Nat × Nat)
  | 0, es => some (es, 0, 0)
  | _ + 1, [] => none
  | n + 1, e :: es =>
    (clearSlots handle n es).map fun (es, numUsed, found) =>
      if e.handle = some handle then ({ e with handle := none } :: es, numUsed, found + 1)
      else (e :: es, if e.handle = none then numUsed else numUsed + 1, found)

/-- The number of entries stays when they are freed. -/
def deleteHandle (handle : String) (s : CompMsgDispatcherHandles) :
    Option (Code × CompMsgDispatcherHandles) :=
  match s.handles with
  | none => some (.handleNotFound, s)
  | some es =>
    if s.numHandles = 0 then some (.ok, s)
    else
      (clearSlots handle s.numHandles es).map fun (es, numUsed, found) =>
        (if found = 0 then .handleNotFound else .ok,
          { s with handles := if numUsed = 0 then none else some es })

/-- The loop of `checkHandle`. -/
def findSlot (handle : String) : Nat → List Handle2Dispatcher → Option (Option Nat)
  | 0, _ => some none
  | _ + 1, [] => none
  | n + 1, e :: es =>
    if e.handle = some handle then some (some e.compMsgDispatcher) else findSlot handle n es

def checkHandle (handle : String) (s : CompMsgDispatcherHandles) : Option (Except Code Nat) :=
  match s.handles with
  | none => some (.error .handleNotFound)
  | some es =>
    (findSlot handle s.numHandles es).map fun
      | none => .error .handleNotFound
      | some compMsgDispatcher => .ok compMsgDispatcher

/-! ## Runs -/

inductive Op
  | addHandle (heap : Bool) (handle : String) (self : Nat)
  | deleteHandle (handle : String)

/-- The table, and what has been added and deleted so far. -/
structure Session where
  table : CompMsgDispatcherHandles
  history : List (Event String Nat)

/-- An addition that is refused is not one. -/
def step : Option Session → Op → Option Session
  | none, _ => none
  | some x, .addHandle heap handle self =>
    (addHandle heap handle self x.table).map fun r =>
      ⟨r.2, if r.1 = .ok then x.history ++ [.added handle self] else x.history⟩
  | some x, .deleteHandle handle =>
    (deleteHandle handle x.table).map fun r => ⟨r.2, x.history ++ [.removed handle]⟩

def start : Option Session := some ⟨⟨none, 0⟩, []⟩

/-- No entry outside the allocated ones has been touched, nor is one by `checkHandle`, which finds
the dispatcher in the first slot with the handle, and none if no addition is left. -/
def Mapped : Option Session → Prop
  | none => False
  | some x => ∀ handle, ∃ r, checkHandle handle x.table = some r ∧
      (∀ d, r = .ok d ↔ Finds (after x.history) handle d) ∧
      (r = .error .handleNotFound ↔ ∀ d, ¬ Live x.history handle d)

/-- The table is a finite map in every state of the run. -/
def AlwaysMapped (ops : List Op) : Prop :=
  Mapped start ∧ Along step (fun s op => Mapped (step s op)) start ops

/-- Nothing is added once the table has been freed, and a reallocation finds memory. -/
def Kept : Option Session → Op → Prop
  | some x, .addHandle heap _ _ =>
    (x.table.handles = none → heap = true → x.table.numHandles = 0) ∧
    ∀ es, x.table.handles = some es → (∀ e ∈ es, e.handle ≠ none) → heap = true
  | _, _ => True

/-! ## The table as slots -/

def entryOf (e : Handle2Dispatcher) : Option (String × Nat) :=
  e.handle.map fun handle => (handle, e.compMsgDispatcher)

def slotsOf (es : List Handle2Dispatcher) : SlotMap String Nat := fun i => es[i]?.bind entryOf

theorem entryOf_eq_none (e : Handle2Dispatcher) : entryOf e = none ↔ e.handle = none :=
  Option.map_eq_none_iff

theorem slotsOf_of_le (es : List Handle2Dispatcher) (i : Nat) (h : es.length ≤ i) :
    slotsOf es i = none := by
  simp [slotsOf, h]

theorem slotsOf_cons_succ (e : Handle2Dispatcher) (es : List Handle2Dispatcher) :
    (fun i => slotsOf (e :: es) (i + 1)) = slotsOf es := rfl

theorem slotsOf_eq_empty (es : List Handle2Dispatcher) (h : ∀ e ∈ es, e.handle = none) :
    slotsOf es = empty := by
  funext i
  rw [slotsOf, empty, Option.bind_eq_none_iff]
  intro e he
  exact (entryOf_eq_none e).mpr (h e (List.mem_of_getElem? he))

/-- What stands in a table is an entry of it. -/
theorem holds_slotsOf (es : List Handle2Dispatcher) (h : ∃ e ∈ es, e.handle ≠ none) :
    ∃ k d, Holds (slotsOf es) k d := by
  obtain ⟨e, he, hne⟩ := h
  obtain ⟨i, hi⟩ := List.getElem?_of_mem he
  obtain ⟨k, hk⟩ := Option.ne_none_iff_exists'.mp hne
  refine ⟨k, e.compMsgDispatcher, i, ?_⟩
  simp only [slotsOf, hi, Option.bind_some, entryOf, hk, Option.map_some]

theorem slotsOf_append (es : List Handle2Dispatcher) (e : Handle2Dispatcher) :
    slotsOf (es ++ [e]) = Function.update (slotsOf es) es.length (entryOf e) := by
  funext i
  by_cases hi : i = es.length
  · simp [hi, slotsOf]
  · rw [Function.update_of_ne hi, slotsOf, slotsOf]
    by_cases hlt : i < es.length
    · rw [List.getElem?_append_left hlt]
    · have hge : es.length + 1 ≤ i := by omega
      rw [List.getElem?_eq_none (by simpa using hge), List.getElem?_eq_none (by omega)]

/-- Where every entry is in use, the first free slot lies behind them. -/
theorem firstFree_length (es : List Handle2Dispatcher) (h : ∀ e ∈ es, e.handle ≠ none) :
    FirstFree (slotsOf es) es.length := by
  constructor
  · exact slotsOf_of_le es _ le_rfl
  · intro j hj hn
    rw [slotsOf, List.getElem?_eq_getElem hj, Option.bind_some, entryOf_eq_none] at hn
    exact h _ (List.getElem_mem hj) hn

/-- The loop of `addHandle` finds the first free slot among the entries, or there is none. -/
theorem useSlot_spec (entry : Handle2Dispatcher) (es : List Handle2Dispatcher) :
    ((∀ e ∈ es, e.handle ≠ none) ∧ useSlot entry es.length es = some none) ∨
    ∃ es' i, useSlot entry es.length es = some (some es') ∧ i < es.length ∧
      FirstFree (slotsOf es) i ∧ es'.length = es.length ∧ entry ∈ es' ∧
      slotsOf es' = Function.update (slotsOf es) i (entryOf entry) := by
  induction es with
  | nil => exact .inl ⟨fun e he => absurd he List.not_mem_nil, rfl⟩
  | cons e es ih =>
    rw [List.length_cons, useSlot]
    by_cases he : e.handle = none
    · refine .inr ⟨entry :: es, 0, if_pos he, Nat.succ_pos _, ?_, rfl, List.mem_cons_self, ?_⟩
      · exact ⟨(entryOf_eq_none e).mpr he, fun j hj => absurd hj (Nat.not_lt_zero j)⟩
      · funext i
        cases i with
        | zero => rfl
        | succ i => rfl
    · rw [if_neg he]
      obtain ⟨hall, hnone⟩ | ⟨es', i, hsome, hi, hfree, hlen, hmem, hslots⟩ := ih
      · refine .inl ⟨?_, by rw [hnone]; rfl⟩
        intro e' he'
        obtain rfl | hes := List.mem_cons.mp he'
        · exact he
        · exact hall e' hes
      · refine .inr ⟨e :: es', i + 1, by rw [hsome]; rfl, Nat.succ_lt_succ hi, ?_, by simp [hlen],
          List.mem_cons_of_mem e hmem, ?_⟩
        · refine ⟨hfree.free, ?_⟩
          intro j hj
          cases j with
          | zero => exact fun hn => he ((entryOf_eq_none e).mp hn)
          | succ j => exact hfree.used j (Nat.lt_of_succ_lt_succ hj)
        · funext j
          cases j with
          | zero => rfl
          | succ j =>
            have hj : slotsOf es' j = Function.update (slotsOf es) i (entryOf entry) j := by
              rw [hslots]
            rw [Function.update_apply] at hj ⊢
            simpa [slotsOf] using hj

/-- The loop of `deleteHandle` takes all entries of the handle away and counts the others. -/
theorem clearSlots_spec (handle : String) (es : List Handle2Dispatcher) :
    ∃ es' numUsed found, clearSlots handle es.length es = some (es', numUsed, found) ∧
      es'.length = es.length ∧ slotsOf es' = remove (slotsOf es) handle ∧
      (numUsed = 0 ↔ ∀ e ∈ es', e.handle = none) := by
  induction es with
  | nil =>
    refine ⟨[], 0, 0, rfl, rfl, ?_, by simp⟩
    funext i
    simp [slotsOf, remove]
  | cons e es ih =>
    obtain ⟨es', numUsed, found, hclear, hlen, hslots, hused⟩ := ih
    rw [List.length_cons, clearSlots, hclear, Option.map_some]
    by_cases he : e.handle = some handle
    · refine ⟨{ e with handle := none } :: es', numUsed, found + 1, ?_, by simp [hlen], ?_, ?_⟩
      · simp [he]
      · funext i
        cases i with
        | zero => simp [slotsOf, remove, entryOf, he, Option.filter_some]
        | succ i => exact congrFun hslots i
      · simpa using hused
    · refine ⟨e :: es', if e.handle = none then numUsed else numUsed + 1, found, ?_,
        by simp [hlen], ?_, ?_⟩
      · simp [he]
      · funext i
        cases i with
        | zero =>
          cases hh : e.handle with
          | none => simp [slotsOf, remove, entryOf, hh]
          | some k =>
            have hk : k ≠ handle := fun heq => he (by rw [hh, heq])
            simp [slotsOf, remove, entryOf, hh, hk, Option.filter_some]
        | succ i => exact congrFun hslots i
      · by_cases hn : e.handle = none
        · simp [hn, hused]
        · simp [hn]

/-- The loop of `checkHandle` finds what the slots hold. -/
theorem findSlot_spec (handle : String) (es : List Handle2Dispatcher) :
    ∃ r, findSlot handle es.length es = some r ∧
      ∀ d, r = some d ↔ Finds (slotsOf es) handle d := by
  induction es with
  | nil =>
    refine ⟨none, rfl, ?_⟩
    intro d
    simp [Finds, slotsOf]
  | cons e es ih =>
    obtain ⟨r, hr, hfinds⟩ := ih
    have hhead : ∀ d, slotsOf (e :: es) 0 = some (handle, d) ↔
        e.handle = some handle ∧ e.compMsgDispatcher = d := by
      intro d
      simp [slotsOf, entryOf]
    rw [List.length_cons, findSlot]
    by_cases he : e.handle = some handle
    · refine ⟨some e.compMsgDispatcher, if_pos he, ?_⟩
      intro d
      rw [finds_iff, hhead]
      constructor
      · intro h
        exact .inl ⟨he, Option.some.inj h⟩
      · rintro (⟨-, hd⟩ | ⟨hnot, -⟩)
        · rw [hd]
        · exact absurd ((hhead _).mpr ⟨he, rfl⟩) (hnot _)
    · refine ⟨r, by rw [if_neg he, hr], ?_⟩
      intro d
      rw [finds_iff, hhead, slotsOf_cons_succ, hfinds]
      simp [hhead, he]

/-! ## What holds along a run -/

/-- The entries are those of the history. There is no table without an entry in use. -/
def Stands (x : Session) : Prop :=
  match x.table.handles with
  | none => after x.history = empty
  | some es => es.length = x.table.numHandles ∧ slotsOf es = after x.history ∧
      ∃ e ∈ es, e.handle ≠ none

/-- The state of a run that has stayed inside. -/
def Inside (s : Option Session) : Prop := ∃ x, s = some x ∧ Stands x

theorem not_finds_empty (handle : String) (d : Nat) :
    ¬ Finds (empty : SlotMap String Nat) handle d := by
  rintro ⟨i, hi, -⟩
  cases hi

theorem not_live_iff (history : List (Event String Nat)) (handle : String) :
    (∀ d, ¬ Live history handle d) ↔ ∀ d, ¬ Finds (after history) handle d := by
  constructor
  · rintro h d ⟨i, hi, -⟩
    exact h d ((holds_after_iff history handle d).mp ⟨i, hi⟩)
  · intro h d hlive
    obtain ⟨d', hd'⟩ := finds_of_holds _ _ _ ((holds_after_iff history handle d).mpr hlive)
    exact h d' hd'

theorem mapped_of_stands (x : Session) (h : Stands x) : Mapped (some x) := by
  intro handle
  rw [not_live_iff]
  unfold Stands at h
  split at h
  · rename_i hnone
    refine ⟨.error .handleNotFound, by rw [checkHandle, hnone], ?_, ?_⟩
    · intro d
      rw [h]
      exact iff_of_false (fun hd => nomatch hd) (not_finds_empty handle d)
    · rw [h]
      exact iff_of_true rfl (not_finds_empty handle)
  · rename_i es hes
    obtain ⟨hlen, hslots, -⟩ := h
    obtain ⟨r, hr, hfinds⟩ := findSlot_spec handle es
    rw [hlen] at hr
    rw [hslots] at hfinds
    cases r with
    | none =>
      refine ⟨.error .handleNotFound, by rw [checkHandle, hes]; simp only [hr, Option.map_some],
        ?_, ?_⟩
      · intro d
        rw [← hfinds]
        simp
      · simp [← hfinds]
    | some d' =>
      refine ⟨.ok d', by rw [checkHandle, hes]; simp only [hr, Option.map_some], ?_, ?_⟩
      · intro d
        rw [← hfinds]
        simp
      · simp [← hfinds]

section Steps

variable (history : List (Event String Nat)) (handle : String)

theorem step_addFirst (self : Nat) :
    step (some ⟨⟨none, 0⟩, history⟩) (.addHandle true handle self) =
      some ⟨⟨some [⟨some handle, self⟩], 1⟩, history ++ [.added handle self]⟩ := rfl

theorem step_addBehind (numHandles self : Nat) (h : numHandles ≠ 0) :
    step (some ⟨⟨none, numHandles⟩, history⟩) (.addHandle true handle self) = none := by
  simp [step, addHandle, h]

variable (es : List Handle2Dispatcher)

theorem step_addGrown (self : Nat)
    (h : useSlot ⟨some handle, self⟩ es.length es = some none) :
    step (some ⟨⟨some es, es.length⟩, history⟩) (.addHandle true handle self) =
      some ⟨⟨some (es ++ [⟨some handle, self⟩]), es.length + 1⟩,
        history ++ [.added handle self]⟩ := by
  simp [step, addHandle, h]

theorem step_addLost (self : Nat) (h : useSlot ⟨some handle, self⟩ es.length es = some none) :
    step (some ⟨⟨some es, es.length⟩, history⟩) (.addHandle false handle self) =
      some ⟨⟨none, es.length⟩, history⟩ := by
  simp [step, addHandle, h]

theorem step_addUsed (heap : Bool) (self : Nat) (es' : List Handle2Dispatcher)
    (h : useSlot ⟨some handle, self⟩ es.length es = some (some es')) :
    step (some ⟨⟨some es, es.length⟩, history⟩) (.addHandle heap handle self) =
      some ⟨⟨some es', es.length⟩, history ++ [.added handle self]⟩ := by
  simp [step, addHandle, h]

theorem step_delete (hne : es.length ≠ 0) (es' : List Handle2Dispatcher) (numUsed found : Nat)
    (h : clearSlots handle es.length es = some (es', numUsed, found)) :
    step (some ⟨⟨some es, es.length⟩, history⟩) (.deleteHandle handle) =
      some ⟨⟨if numUsed = 0 then none else some es', es.length⟩,
        history ++ [.removed handle]⟩ := by
  simp [step, deleteHandle, hne, h]

end Steps

/-- An addition that is kept goes to the first free slot, or there is no memory for the first
one. -/
theorem stands_addHandle (x : Session) (heap : Bool) (handle : String) (self : Nat)
    (h : Stands x) (hk : Kept (some x) (.addHandle heap handle self)) :
    Inside (step (some x) (.addHandle heap handle self)) := by
  obtain ⟨⟨handles, numHandles⟩, history⟩ := x
  obtain ⟨hfirst, hgrow⟩ := hk
  have hadded : ∀ i, FirstFree (after history) i →
      after (history ++ [.added handle self]) =
        Function.update (after history) i (some (handle, self)) := by
    intro i hi
    rw [after_append]
    exact add_eq _ i handle self hi
  cases handles with
  | none =>
    cases heap with
    | false => exact ⟨_, rfl, h⟩
    | true =>
      obtain rfl : numHandles = 0 := hfirst rfl rfl
      have hafter : after history = empty := h
      have hnil : slotsOf [] = empty :=
        slotsOf_eq_empty [] (fun e he => absurd he List.not_mem_nil)
      have hfree := firstFree_length [] (fun e he => absurd he List.not_mem_nil)
      have happ := slotsOf_append [] ⟨some handle, self⟩
      rw [hnil, ← hafter] at hfree happ
      rw [step_addFirst]
      exact ⟨_, rfl, rfl, happ.trans (hadded 0 hfree).symm, _, List.mem_singleton_self _,
        by simp⟩
  | some es =>
    obtain ⟨hlen, hslots, hused⟩ := h
    obtain rfl : numHandles = es.length := hlen.symm
    obtain ⟨hall, hnone⟩ | ⟨es', i, hsome, -, hfree, hlen', hmem, hslots'⟩ :=
      useSlot_spec ⟨some handle, self⟩ es
    · obtain rfl : heap = true := hgrow es rfl hall
      have hfree := firstFree_length es hall
      have happ := slotsOf_append es ⟨some handle, self⟩
      rw [hslots] at hfree happ
      rw [step_addGrown history handle es self hnone]
      exact ⟨_, rfl, by simp, happ.trans (hadded _ hfree).symm, ⟨some handle, self⟩, by simp,
        by simp⟩
    · rw [hslots] at hfree hslots'
      rw [step_addUsed history handle es heap self es' hsome]
      exact ⟨_, rfl, hlen', hslots'.trans (hadded i hfree).symm, _, hmem, by simp⟩

theorem stands_deleteHandle (x : Session) (handle : String) (h : Stands x) :
    Inside (step (some x) (.deleteHandle handle)) := by
  obtain ⟨⟨handles, numHandles⟩, history⟩ := x
  have hremoved : after (history ++ [.removed handle]) = remove (after history) handle := by
    rw [after_append]
    rfl
  cases handles with
  | none =>
    have hafter : after history = empty := h
    refine ⟨_, rfl, hremoved.trans ?_⟩
    rw [hafter]
    rfl
  | some es =>
    obtain ⟨hlen, hslots, e, he, hne⟩ := h
    obtain rfl : numHandles = es.length := hlen.symm
    have hpos : es.length ≠ 0 := List.length_pos_of_mem he |>.ne'
    obtain ⟨es', numUsed, found, hclear, hlen', hslots', hused⟩ := clearSlots_spec handle es
    rw [hslots] at hslots'
    rw [step_delete history handle es hpos es' numUsed found hclear]
    refine ⟨_, rfl, ?_⟩
    by_cases hzero : numUsed = 0
    · rw [if_pos hzero]
      exact hremoved.trans (hslots'.symm.trans (slotsOf_eq_empty es' (hused.mp hzero)))
    · rw [if_neg hzero]
      refine ⟨hlen', hslots'.trans hremoved.symm, ?_⟩
      by_contra hnot
      push Not at hnot
      exact hzero (hused.mpr hnot)

/-- Otherwise something behind the allocated entry is written, or the table is lost with all
that it holds. -/
theorem not_mapped_of_not_kept (x : Session) (op : Op) (h : Stands x) (hk : ¬ Kept (some x) op) :
    ¬ Mapped (step (some x) op) := by
  obtain ⟨⟨handles, numHandles⟩, history⟩ := x
  cases op with
  | deleteHandle handle => exact absurd trivial hk
  | addHandle heap handle self =>
    cases handles with
    | none =>
      have hbad : heap = true ∧ numHandles ≠ 0 := by
        simpa [Kept] using hk
      obtain ⟨rfl, hnum⟩ := hbad
      rw [step_addBehind history handle numHandles self hnum]
      exact id
    | some es =>
      obtain ⟨hlen, hslots, hused⟩ := h
      obtain rfl : numHandles = es.length := hlen.symm
      have hbad : (∀ e ∈ es, e.handle ≠ none) ∧ heap = false := by
        simpa [Kept] using hk
      obtain ⟨hall, rfl⟩ := hbad
      obtain ⟨-, hnone⟩ | ⟨es', i, -, hi, hfree, -⟩ := useSlot_spec ⟨some handle, self⟩ es
      · rw [step_addLost history handle es self hnone]
        intro hmapped
        obtain ⟨k, d, hholds⟩ := holds_slotsOf es hused
        rw [hslots, holds_after_iff] at hholds
        obtain ⟨r, hr, -, hnot⟩ := hmapped k
        obtain rfl : Except.error .handleNotFound = r := Option.some.inj hr
        exact hnot.mp rfl d hholds
      · exact absurd hfree.free ((firstFree_length es hall).used i hi)

theorem inside_step (s : Option Session) (op : Op) (hs : Inside s) (hk : Kept s op) :
    Inside (step s op) := by
  obtain ⟨x, rfl, hx⟩ := hs
  cases op with
  | addHandle heap handle self => exact stands_addHandle x heap handle self hx hk
  | deleteHandle handle => exact stands_deleteHandle x handle hx

theorem mapped_of_inside (s : Option Session) (hs : Inside s) : Mapped s := by
  obtain ⟨x, rfl, hx⟩ := hs
  exact mapped_of_stands x hx

theorem mapped_step_iff (s : Option Session) (op : Op) (hs : Inside s) :
    Kept s op ↔ Mapped (step s op) := by
  constructor
  · intro hk
    exact mapped_of_inside _ (inside_step s op hs hk)
  · intro hm
    by_contra hk
    obtain ⟨x, rfl, hx⟩ := hs
    exact not_mapped_of_not_kept x op hx hk hm

theorem inside_start : Inside start := ⟨_, rfl, rfl⟩

/-- The table is a finite map all along a run exactly if nothing is added to a freed table and no
reallocation fails. -/
theorem alwaysMapped_iff_kept (ops : List Op) : AlwaysMapped ops ↔ Along step Kept start ops := by
  rw [along_congr step Kept _ Inside mapped_step_iff inside_step start ops inside_start]
  constructor
  · intro h
    exact h.2
  · intro h
    exact ⟨mapped_of_inside start inside_start, h⟩

/-- A dispatcher comes, goes and comes back. -/
def comeBack : List Op := [.addHandle true "a" 1, .deleteHandle "a", .addHandle true "a" 1]

theorem comeBack_not_alwaysMapped : ¬ AlwaysMapped comeBack := by
  rintro ⟨-, -, -, hmapped, -⟩
  exact hmapped

end NodeMcu.CompMsg.Handles
