import Mathlib.Algebra.Group.Nat.Defs
import Mathlib.Data.List.Nodup
import Mathlib.Logic.Function.Basic
import NodeMcu.Lib.Block
import NodeMcu.Lib.Packed
import NodeMcu.Lib.Run

namespace NodeMcu.Task.Handles

open NodeMcu.Lib.Block NodeMcu.Lib.Packed NodeMcu.Lib.Run

/-! ## Handles of tasks -/

def taskHandleMoniker : UInt32 := 0x68680000
def taskHandleMask : UInt32 := 0xFFF80000
def taskHandleUnmask : UInt32 := ~~~taskHandleMask
def taskHandleShift : Nat := 2
def taskHandleAllocationBrick : Nat := 4
def taskDefaultQueueLen : Nat := 8
def taskPriorityMask : UInt32 := 3

def taskPriorityHigh : UInt8 := 2
def taskPriorityCount : Nat := 3

structure OsEvent where
  sig : UInt32
  par : UInt32
  deriving DecidableEq

/-- The address of a callback. -/
abbrev TaskCallback := UInt32

/-- The queues, the callbacks and how many of them there are. A pointer may be null. -/
structure Tasks where
  taskQ : Nat → Option (List OsEvent)
  taskFunc : Option (List TaskCallback)
  taskCount : Nat

inductive Effect
  | called (callback : TaskCallback) (par : UInt32) (prio : UInt8)
  | invalid (handle : UInt32)
  deriving DecidableEq

/-- There is no result where an entry behind the table is called. -/
def taskDispatch (s : Tasks) (e : OsEvent) : Option Effect :=
  let handle := e.sig
  if handle &&& taskHandleMask = taskHandleMoniker then
    let entry := ((handle &&& taskHandleUnmask) >>> UInt32.ofNat taskHandleShift).toUInt16
    let priority := (handle &&& taskPriorityMask).toUInt8
    match s.taskFunc with
    | none => some (.invalid handle)
    | some block =>
      if priority ≤ taskPriorityHigh ∧ entry.toNat < s.taskCount then
        block[entry.toNat]?.map fun callback => .called callback e.par priority
      else some (.invalid handle)
  else some (.invalid handle)

/-- A call of `task_get_id`: the callback, whether each queue is obtained and then accepted by the
system, whether the table is, and what new memory holds. -/
structure Call where
  callback : TaskCallback
  queueOk : Nat → Bool
  taskOk : Nat → Bool
  tableOk : Bool
  junk : Nat → TaskCallback

/-- The queue is filled with zeros before it is known to be there, and there is no result where it
is not. -/
def taskInitHandler (c : Call) (priority qlen : Nat) (taskQ : Nat → Option (List OsEvent)) :
    Option (Bool × (Nat → Option (List OsEvent))) :=
  if priority ≤ taskPriorityHigh.toNat ∧ taskQ priority = none then
    if c.queueOk priority then
      some (c.taskOk priority,
        Function.update taskQ priority (some (List.replicate qlen ⟨0, 0⟩)))
    else none
  else some (false, taskQ)

/-- The loop over the priorities below `p`, from the highest. -/
def initQueues (c : Call) : Nat → (Nat → Option (List OsEvent)) →
    Option (Bool × (Nat → Option (List OsEvent)))
  | 0, taskQ => some (true, taskQ)
  | p + 1, taskQ =>
    if taskQ p = none then
      (taskInitHandler c p taskDefaultQueueLen taskQ).bind fun (ok, taskQ) =>
        if ok then initQueues c p taskQ else some (false, taskQ)
    else initQueues c p taskQ

/-- The new pointer to the table takes the place of the old one, whether it is null or not. -/
def growTable (c : Call) (s : Tasks) : Option (Bool × Tasks) :=
  if s.taskCount &&& (taskHandleAllocationBrick - 1) = 0 then
    if c.tableOk then
      let block := resize c.junk (s.taskFunc.getD []) (s.taskCount + taskHandleAllocationBrick)
      (put block s.taskCount (List.replicate taskHandleAllocationBrick 0)).map fun block =>
        (true, { s with taskFunc := some block })
    else some (false, { s with taskFunc := none })
  else some (true, s)

/-- The callback goes behind the others. There is no result where the table has no such entry. -/
def storeCallback (c : Call) (s : Tasks) : Option Tasks :=
  (s.taskFunc.bind fun block => put block s.taskCount [c.callback]).map fun block =>
    { s with taskFunc := some block, taskCount := s.taskCount + 1 }

/-- The text of a check that fails, after which 0 is returned, or the handle. -/
abbrev Answer := Except String UInt32

def taskGetId (c : Call) (s : Tasks) : Option (Tasks × Answer) :=
  (initQueues c taskPriorityCount s.taskQ).bind fun (ok, taskQ) =>
    let s := { s with taskQ := taskQ }
    if ok then
      (growTable c s).bind fun (ok, s) =>
        if ok then
          (storeCallback c s).map fun s =>
            (s, .ok (taskHandleMoniker +
              UInt32.ofNat ((s.taskCount - 1) <<< taskHandleShift)))
        else some (s, .error "Malloc failure in task_get_id")
    else some (s, .error "Task initialisation failed")

/-- The event that `task_post` hands to the system. -/
def taskPost (priority : UInt8) (handle param : UInt32) : OsEvent :=
  ⟨handle ||| priority.toUInt32, param⟩

/-- The module with the handles that were returned so far and what they were obtained for. -/
structure Module where
  tasks : Tasks
  issued : List (UInt32 × TaskCallback)

def issuedBy (c : Call) : Answer → List (UInt32 × TaskCallback)
  | .ok handle => [(handle, c.callback)]
  | .error _ => []

/-- There is no module behind an access through a null pointer. -/
def step : Option Module → Call → Option Module
  | none, _ => none
  | some m, c =>
    (taskGetId c m.tasks).map fun (tasks, answer) => ⟨tasks, m.issued ++ issuedBy c answer⟩

def start : Option Module := some ⟨⟨fun _ => none, none, 0⟩, []⟩

/-! ## What is expected of the handles -/

/-- Whatever is posted to a handle goes to the callback. -/
def Dispatches (s : Tasks) (handle : UInt32) (callback : TaskCallback) : Prop :=
  ∀ priority ≤ taskPriorityHigh, ∀ param,
    taskDispatch s (taskPost priority handle param) = some (.called callback param priority)

structure Kept (m : Module) : Prop where
  nonzero : ∀ x ∈ m.issued, x.1 ≠ 0
  distinct : (m.issued.map Prod.fst).Nodup
  dispatches : ∀ x ∈ m.issued, Dispatches m.tasks x.1 x.2

/-- No null pointer was accessed, and all handles work. -/
def Lawful : Option Module → Prop
  | none => False
  | some m => Kept m

/-! ## When it is met -/

/-- Every queue that a call asks for is obtained. Those of lower priority are not asked for when
the system refuses one. -/
def Obtained (c : Call) (n : Nat) (taskQ : Nat → Option (List OsEvent)) : Prop :=
  ∀ p < n, taskQ p = none → (∀ q < n, p < q → taskQ q = none → c.taskOk q = true) →
    c.queueOk p = true

/-- The queues are obtained, and so is the table wherever it has to grow. -/
structure Sound (s : Tasks) (c : Call) : Prop where
  queues : Obtained c taskPriorityCount s.taskQ
  table : 0 < s.taskCount → s.taskCount % taskHandleAllocationBrick = 0 → c.tableOk = true

def SoundAt : Option Module → Call → Prop
  | none, _ => True
  | some m, c => Sound m.tasks c

instance (c : Call) (n : Nat) (taskQ : Nat → Option (List OsEvent)) :
    Decidable (Obtained c n taskQ) :=
  inferInstanceAs (Decidable (∀ p < n, taskQ p = none →
    (∀ q < n, p < q → taskQ q = none → c.taskOk q = true) → c.queueOk p = true))

instance (s : Tasks) (c : Call) : Decidable (Sound s c) :=
  decidable_of_iff (Obtained c taskPriorityCount s.taskQ ∧
    (0 < s.taskCount → s.taskCount % taskHandleAllocationBrick = 0 → c.tableOk = true))
    ⟨fun h => ⟨h.1, h.2⟩, fun h => ⟨h.queues, h.table⟩⟩

instance : ∀ m c, Decidable (SoundAt m c)
  | none, _ => isTrue trivial
  | some m, c => inferInstanceAs (Decidable (Sound m.tasks c))

/-! ## Handles as numbers -/

def handleOf (i : Nat) : UInt32 := taskHandleMoniker + UInt32.ofNat (i <<< taskHandleShift)

section Words

variable {i j : Nat}

theorem toNat_handleOf (hi : i < 2 ^ 16) : (handleOf i).toNat = (0x1A1A0000 + i) * 2 ^ 2 := by
  have hmoniker : taskHandleMoniker.toNat = 0x1A1A0000 * 2 ^ 2 := rfl
  have hshift : (UInt32.ofNat (i <<< taskHandleShift)).toNat = i * 2 ^ 2 := by
    rw [Nat.shiftLeft_eq, taskHandleShift]
    apply UInt32.toNat_ofNat_of_lt'
    rw [show UInt32.size = 2 ^ 32 from rfl]
    omega
  rw [handleOf, UInt32.toNat_add, hmoniker, hshift]
  omega

theorem handleOf_ne_zero (hi : i < 2 ^ 16) : handleOf i ≠ 0 := by
  intro h
  have hnat := toNat_handleOf hi
  rw [h, UInt32.toNat_zero] at hnat
  omega

theorem handleOf_injective (hi : i < 2 ^ 16) (hj : j < 2 ^ 16) (h : handleOf i = handleOf j) :
    i = j := by
  have hnat := toNat_handleOf hi
  rw [h, toNat_handleOf hj] at hnat
  omega

variable {priority : UInt8}

theorem toNat_le (hp : priority ≤ taskPriorityHigh) : priority.toNat ≤ 2 :=
  UInt8.le_iff_toNat_le.mp hp

/-- The fields of what is posted: the entry and the priority below the header. -/
theorem toNat_posted (hi : i < 2 ^ 16) (hp : priority ≤ taskPriorityHigh) :
    (handleOf i ||| priority.toUInt32).toNat = 0xD0D * 2 ^ 19 + (i * 2 ^ 2 + priority.toNat) := by
  have hlow : priority.toNat < 2 ^ 2 := Nat.lt_of_le_of_lt (toNat_le hp) (by decide)
  rw [UInt32.toNat_or, toNat_handleOf hi, UInt8.toNat_toUInt32, ← Nat.shiftLeft_eq,
    or_shiftLeft _ _ _ hlow]
  omega

theorem posted_header (hi : i < 2 ^ 16) (hp : priority ≤ taskPriorityHigh) :
    (handleOf i ||| priority.toUInt32) &&& taskHandleMask = taskHandleMoniker := by
  have hle := toNat_le hp
  have hmask : taskHandleMask.toNat = 0x1FFF * 2 ^ 19 := rfl
  apply UInt32.toNat_inj.mp
  rw [UInt32.toNat_and, toNat_posted hi hp, hmask, and_high _ (by omega)]
  rfl

theorem posted_entry (hi : i < 2 ^ 16) (hp : priority ≤ taskPriorityHigh) :
    (((handleOf i ||| priority.toUInt32) &&& taskHandleUnmask) >>>
      UInt32.ofNat taskHandleShift).toUInt16.toNat = i := by
  have hle := toNat_le hp
  have hmask : taskHandleUnmask.toNat = 2 ^ 19 - 1 := rfl
  have hshift : (UInt32.ofNat taskHandleShift).toNat % 32 = 2 := rfl
  rw [UInt32.toNat_toUInt16, UInt32.toNat_shiftRight, hshift, UInt32.toNat_and,
    toNat_posted hi hp, hmask, and_low (by omega), Nat.shiftRight_eq_div_pow,
    packed_div (by omega), Nat.mod_eq_of_lt hi]

theorem posted_priority (hi : i < 2 ^ 16) (hp : priority ≤ taskPriorityHigh) :
    ((handleOf i ||| priority.toUInt32) &&& taskPriorityMask).toUInt8 = priority := by
  have hle := toNat_le hp
  have hmask : taskPriorityMask.toNat = 2 ^ 2 - 1 := rfl
  have hfields : 0xD0D * 2 ^ 19 + (i * 2 ^ 2 + priority.toNat) =
      (0x1A1A0000 + i) * 2 ^ 2 + priority.toNat := by omega
  apply UInt8.toNat_inj.mp
  rw [UInt32.toNat_toUInt8, UInt32.toNat_and, toNat_posted hi hp, hmask, hfields,
    and_low (by omega)]
  omega

theorem taskDispatch_posted {s : Tasks} {block : List TaskCallback}
    (htable : s.taskFunc = some block) (hcount : i < s.taskCount) (hi : i < 2 ^ 16)
    (hp : priority ≤ taskPriorityHigh) (param : UInt32) :
    taskDispatch s (taskPost priority (handleOf i) param) =
      block[i]?.map fun callback => .called callback param priority := by
  simp only [taskDispatch, taskPost, posted_header hi hp, posted_entry hi hp,
    posted_priority hi hp, htable, if_true]
  rw [if_pos ⟨hp, hcount⟩]

end Words

/-! ## The queues -/

section Queues

variable {c : Call} {taskQ taskQ' : Nat → Option (List OsEvent)} {n : Nat}

theorem taskInitHandler_eq (hn : n < taskPriorityCount) (hnone : taskQ n = none) (qlen : Nat) :
    taskInitHandler c n qlen taskQ =
      if c.queueOk n then
        some (c.taskOk n, Function.update taskQ n (some (List.replicate qlen ⟨0, 0⟩)))
      else none := by
  have hhigh : n ≤ taskPriorityHigh.toNat := Nat.le_of_lt_succ hn
  rw [taskInitHandler, if_pos ⟨hhigh, hnone⟩]

theorem obtained_update (c : Call) (taskQ : Nat → Option (List OsEvent)) (n : Nat)
    (q : Option (List OsEvent)) :
    Obtained c n (Function.update taskQ n q) ↔ Obtained c n taskQ := by
  have hsame : ∀ p < n, Function.update taskQ n q p = taskQ p := by
    intro p hp
    exact Function.update_of_ne (Nat.ne_of_lt hp) _ _
  constructor
  · intro h p hp hnone hq
    refine h p hp (hsame p hp ▸ hnone) ?_
    intro r hr hpr hrnone
    exact hq r hr hpr (hsame r hr ▸ hrnone)
  · intro h p hp hnone hq
    refine h p hp ((hsame p hp).symm.trans hnone) ?_
    intro r hr hpr hrnone
    exact hq r hr hpr ((hsame r hr).trans hrnone)

theorem obtained_succ_some (h : taskQ n ≠ none) :
    Obtained c (n + 1) taskQ ↔ Obtained c n taskQ := by
  constructor
  · intro hobtained p hp hnone hq
    refine hobtained p (Nat.lt_succ_of_lt hp) hnone ?_
    intro q hqn hpq hqnone
    obtain hlt | rfl := Nat.lt_succ_iff_lt_or_eq.mp hqn
    · exact hq q hlt hpq hqnone
    · exact absurd hqnone h
  · intro hobtained p hp hnone hq
    obtain hlt | rfl := Nat.lt_succ_iff_lt_or_eq.mp hp
    · exact hobtained p hlt hnone fun q hqn => hq q (Nat.lt_succ_of_lt hqn)
    · exact absurd hnone h

theorem obtained_succ_none (h : taskQ n = none) :
    Obtained c (n + 1) taskQ ↔
      c.queueOk n = true ∧ (c.taskOk n = true → Obtained c n taskQ) := by
  constructor
  · intro hobtained
    refine ⟨hobtained n (Nat.lt_succ_self n) h ?_, ?_⟩
    · intro q hqn hnq
      exact absurd hnq (Nat.not_lt.mpr (Nat.le_of_lt_succ hqn))
    · intro hok p hp hnone hq
      refine hobtained p (Nat.lt_succ_of_lt hp) hnone ?_
      intro q hqn hpq hqnone
      obtain hlt | rfl := Nat.lt_succ_iff_lt_or_eq.mp hqn
      · exact hq q hlt hpq hqnone
      · exact hok
  · rintro ⟨hqueue, hrest⟩ p hp hnone hq
    obtain hlt | rfl := Nat.lt_succ_iff_lt_or_eq.mp hp
    · have hok := hq n (Nat.lt_succ_self n) hlt h
      exact hrest hok p hlt hnone fun q hqn => hq q (Nat.lt_succ_of_lt hqn)
    · exact hqueue

/-- The loop gets to its end or stops where the system refuses a queue, unless one is not
obtained. -/
theorem initQueues_isSome_iff (hn : n ≤ taskPriorityCount) :
    (initQueues c n taskQ).isSome ↔ Obtained c n taskQ := by
  induction n generalizing taskQ with
  | zero => exact iff_of_true rfl fun p hp => absurd hp (Nat.not_lt_zero p)
  | succ n ih =>
    rw [initQueues]
    by_cases hnone : taskQ n = none
    · rw [if_pos hnone, taskInitHandler_eq hn hnone, obtained_succ_none hnone]
      cases hqueue : c.queueOk n with
      | false => simp
      | true =>
        cases htask : c.taskOk n with
        | false => simp
        | true =>
          rw [if_pos rfl, Option.bind_some]
          dsimp only
          rw [if_pos rfl, ih (Nat.le_of_succ_le hn), obtained_update]
          simp
    · rw [if_neg hnone, ih (Nat.le_of_succ_le hn), obtained_succ_some hnone]

theorem initQueues_of_present (h : ∀ p < n, taskQ p ≠ none) :
    initQueues c n taskQ = some (true, taskQ) := by
  induction n with
  | zero => rfl
  | succ n ih =>
    rw [initQueues, if_neg (h n (Nat.lt_succ_self n))]
    exact ih fun p hp => h p (Nat.lt_succ_of_lt hp)

/-- The queues that were there before stay, and behind the loop all are there. -/
theorem initQueues_present (hn : n ≤ taskPriorityCount)
    (h : initQueues c n taskQ = some (true, taskQ')) :
    (∀ p < n, taskQ' p ≠ none) ∧ ∀ p, taskQ p ≠ none → taskQ' p ≠ none := by
  induction n generalizing taskQ with
  | zero =>
    obtain ⟨-, rfl⟩ := Prod.mk.inj (Option.some.inj h)
    exact ⟨fun p hp => absurd hp (Nat.not_lt_zero p), fun _ => id⟩
  | succ n ih =>
    rw [initQueues] at h
    by_cases hnone : taskQ n = none
    · rw [if_pos hnone, taskInitHandler_eq hn hnone] at h
      obtain ⟨⟨ok, q⟩, hinit, h⟩ := Option.bind_eq_some_iff.mp h
      obtain ⟨-, heq⟩ := Option.ite_none_right_eq_some.mp hinit
      obtain ⟨-, rfl⟩ := Prod.mk.inj (Option.some.inj heq)
      dsimp only at h
      split at h
      · obtain ⟨hbelow, hkept⟩ := ih (Nat.le_of_succ_le hn) h
        have hqueue : taskQ' n ≠ none := hkept n (by rw [Function.update_self]; exact nofun)
        refine ⟨?_, ?_⟩
        · intro p hp
          obtain hlt | rfl := Nat.lt_succ_iff_lt_or_eq.mp hp
          · exact hbelow p hlt
          · exact hqueue
        · intro p hp
          obtain rfl | hne := eq_or_ne p n
          · exact hqueue
          · exact hkept p (by rwa [Function.update_of_ne hne])
      · cases h
    · rw [if_neg hnone] at h
      obtain ⟨hbelow, hkept⟩ := ih (Nat.le_of_succ_le hn) h
      refine ⟨?_, hkept⟩
      intro p hp
      obtain hlt | rfl := Nat.lt_succ_iff_lt_or_eq.mp hp
      · exact hbelow p hlt
      · exact hkept p hnone

end Queues

/-! ## The table -/

/-- The handles of the callbacks `ts`, which were stored one after the other. -/
def handlesOf (ts : List TaskCallback) : List (UInt32 × TaskCallback) :=
  ((List.range ts.length).map handleOf).zip ts

/-- The callbacks `ts` are what the table begins with, and it has room up to the next brick. -/
structure Holds (s : Tasks) (ts : List TaskCallback) : Prop where
  count : s.taskCount = ts.length
  table : ts ≠ [] → ∃ block, s.taskFunc = some block ∧ ts <+: block ∧
    taskHandleAllocationBrick ∣ block.length

structure Stored (m : Module) (ts : List TaskCallback) : Prop where
  holds : Holds m.tasks ts
  queues : ts ≠ [] → ∀ p < taskPriorityCount, m.tasks.taskQ p ≠ none
  issued : m.issued = handlesOf ts

section Table

variable {ts : List TaskCallback}

@[simp] theorem handlesOf_eq_nil : handlesOf ts = [] ↔ ts = [] := by
  cases ts with
  | nil => exact iff_of_true rfl rfl
  | cons t ts => simp [handlesOf]

@[simp] theorem length_handlesOf (ts : List TaskCallback) :
    (handlesOf ts).length = ts.length := by
  simp [handlesOf]

theorem handlesOf_append (ts : List TaskCallback) (t : TaskCallback) :
    handlesOf (ts ++ [t]) = handlesOf ts ++ [(handleOf ts.length, t)] := by
  rw [handlesOf, List.length_append, List.length_singleton, List.range_succ, List.map_append,
    List.zip_append (by rw [List.length_map, List.length_range])]
  rfl

theorem mem_handlesOf {x : UInt32 × TaskCallback} (h : x ∈ handlesOf ts) :
    ∃ i < ts.length, x.1 = handleOf i ∧ ts[i]? = some x.2 := by
  obtain ⟨i, hi⟩ := List.mem_iff_getElem?.mp h
  rw [handlesOf, List.getElem?_zip_eq_some, List.getElem?_map] at hi
  obtain ⟨hhandle, hcallback⟩ := hi
  have hlt := (List.getElem?_eq_some_iff.mp hcallback).1
  rw [List.getElem?_range hlt, Option.map_some, Option.some.injEq] at hhandle
  exact ⟨i, hlt, hhandle.symm, hcallback⟩

theorem handlesOf_nodup (h : ts.length ≤ 2 ^ 16) : ((handlesOf ts).map Prod.fst).Nodup := by
  rw [handlesOf, List.map_fst_zip (by rw [List.length_map, List.length_range])]
  apply List.Nodup.map_on _ List.nodup_range
  intro i hi j hj heq
  have hilt := List.mem_range.mp hi
  have hjlt := List.mem_range.mp hj
  exact handleOf_injective (by omega) (by omega) heq

end Table

/-- A table that begins with the callbacks and has room for one more. -/
structure Room (block ts : List TaskCallback) : Prop where
  begins : ts <+: block
  bricks : taskHandleAllocationBrick ∣ block.length
  room : ts.length < block.length

section Growth

variable {c : Call} {s : Tasks} {ts block : List TaskCallback}

theorem mask_brick (n : Nat) :
    n &&& (taskHandleAllocationBrick - 1) = n % taskHandleAllocationBrick :=
  Nat.and_two_pow_sub_one_eq_mod n 2

/-- A new brick of zeros goes behind what the resized table begins with. -/
theorem growTable_resized (hcount : s.taskCount = ts.length)
    (hfull : s.taskCount % taskHandleAllocationBrick = 0) (hok : c.tableOk = true)
    (hresized : ts <+: resize c.junk (s.taskFunc.getD [])
      (s.taskCount + taskHandleAllocationBrick)) :
    ∃ block, growTable c s = some (true, ⟨s.taskQ, some block, s.taskCount⟩) ∧ Room block ts := by
  obtain ⟨block, hput⟩ : ∃ block, put (resize c.junk (s.taskFunc.getD [])
      (s.taskCount + taskHandleAllocationBrick)) s.taskCount
        (List.replicate taskHandleAllocationBrick 0) = some block :=
    ⟨_, put_of_le (by rw [List.length_replicate, length_resize])⟩
  have hlength := put_length hput
  rw [length_resize] at hlength
  refine ⟨block, ?_, ?_, ?_, ?_⟩
  · rw [growTable, mask_brick, if_pos hfull, if_pos hok]
    simp only [hput, Option.map_some]
  · rw [hcount] at hput hresized
    exact (List.prefix_append _ _).trans (prefix_put hresized hput)
  · rw [hlength]
    exact Nat.dvd_add (Nat.dvd_of_mod_eq_zero hfull) (Nat.dvd_refl _)
  · rw [hlength, hcount]
    exact Nat.lt_add_of_pos_right (by decide)

theorem growTable_room (h : Holds s ts)
    (hok : s.taskCount % taskHandleAllocationBrick = 0 → c.tableOk = true) :
    ∃ block, growTable c s = some (true, ⟨s.taskQ, some block, s.taskCount⟩) ∧ Room block ts := by
  by_cases hfull : s.taskCount % taskHandleAllocationBrick = 0
  · have hprefix : ts <+: s.taskFunc.getD [] := by
      cases ts with
      | nil => exact List.nil_prefix
      | cons t ts =>
        obtain ⟨block, htable, hprefix, -⟩ := h.table (List.cons_ne_nil t ts)
        rw [htable]
        exact hprefix
    apply growTable_resized h.count hfull (hok hfull)
    exact prefix_resize hprefix (by rw [h.count]; exact Nat.le_add_right _ _)
  · have hne : ts ≠ [] := by
      rintro rfl
      rw [h.count] at hfull
      exact hfull rfl
    obtain ⟨block, htable, hprefix, hbricks⟩ := h.table hne
    have hle := hprefix.length_le
    refine ⟨block, ?_, hprefix, hbricks, ?_⟩
    · rw [growTable, mask_brick, if_neg hfull, ← htable]
    · rw [h.count] at hfull
      rw [taskHandleAllocationBrick] at *
      omega

theorem growTable_lost (hfull : s.taskCount % taskHandleAllocationBrick = 0)
    (hno : c.tableOk = false) :
    growTable c s = some (false, { s with taskFunc := none }) := by
  rw [growTable, mask_brick, if_pos hfull, hno]
  rfl

/-- A callback is stored behind the others. -/
theorem storeCallback_holds (hcount : s.taskCount = ts.length)
    (htable : s.taskFunc = some block) (hroom : Room block ts) :
    ∃ s', storeCallback c s = some s' ∧ Holds s' (ts ++ [c.callback]) ∧ s'.taskQ = s.taskQ := by
  obtain ⟨block', hput⟩ : ∃ block', put block s.taskCount [c.callback] = some block' :=
    ⟨_, put_of_le (by rw [hcount]; exact hroom.room)⟩
  have hlength := put_length hput
  refine ⟨⟨s.taskQ, some block', s.taskCount + 1⟩, ?_, ⟨?_, ?_⟩, rfl⟩
  · rw [storeCallback, htable, Option.bind_some, hput, Option.map_some]
  · rw [List.length_append, ← hcount]
    rfl
  · intro _
    rw [hcount] at hput
    exact ⟨block', rfl, prefix_put hroom.begins hput, hlength ▸ hroom.bricks⟩

end Growth

/-! ## Calls -/

section Calls

variable {c : Call} {s : Tasks} {taskQ : Nat → Option (List OsEvent)}
  {ts block : List TaskCallback}

theorem taskGetId_refused (hinit : initQueues c taskPriorityCount s.taskQ = some (false, taskQ)) :
    taskGetId c s = some ({ s with taskQ := taskQ }, .error "Task initialisation failed") := by
  rw [taskGetId, hinit, Option.bind_some]
  rfl

theorem taskGetId_lost (hinit : initQueues c taskPriorityCount s.taskQ = some (true, taskQ))
    (hfull : s.taskCount % taskHandleAllocationBrick = 0) (hno : c.tableOk = false) :
    taskGetId c s =
      some (⟨taskQ, none, s.taskCount⟩, .error "Malloc failure in task_get_id") := by
  have hgrow : growTable c { s with taskQ := taskQ } = some (false, ⟨taskQ, none, s.taskCount⟩) :=
    growTable_lost hfull hno
  rw [taskGetId, hinit, Option.bind_some]
  dsimp only
  rw [if_pos rfl, hgrow]
  rfl

theorem taskGetId_stored (hcount : s.taskCount = ts.length)
    (hinit : initQueues c taskPriorityCount s.taskQ = some (true, taskQ))
    (hgrow : growTable c { s with taskQ := taskQ } = some (true, ⟨taskQ, some block, s.taskCount⟩))
    (hroom : Room block ts) :
    ∃ s', taskGetId c s = some (s', .ok (handleOf ts.length)) ∧ Holds s' (ts ++ [c.callback]) ∧
      s'.taskQ = taskQ := by
  obtain ⟨s', hstore, hholds, hqueues⟩ :
      ∃ s', storeCallback c ⟨taskQ, some block, s.taskCount⟩ = some s' ∧
        Holds s' (ts ++ [c.callback]) ∧ s'.taskQ = taskQ :=
    storeCallback_holds hcount rfl hroom
  have hlast : s'.taskCount - 1 = ts.length := by
    rw [hholds.count, List.length_append, List.length_singleton, Nat.add_sub_cancel]
  refine ⟨s', ?_, hholds, hqueues⟩
  rw [taskGetId, hinit, Option.bind_some]
  dsimp only
  rw [if_pos rfl, hgrow, Option.bind_some]
  dsimp only
  rw [if_pos rfl, hstore, Option.map_some, hlast]
  rfl

theorem Holds.dispatch (h : Holds s ts) {i : Nat} {callback : TaskCallback} (hi : i < 2 ^ 16)
    (hcallback : ts[i]? = some callback) {priority : UInt8} (hp : priority ≤ taskPriorityHigh)
    (param : UInt32) :
    taskDispatch s (taskPost priority (handleOf i) param) =
      some (.called callback param priority) := by
  have hlt := (List.getElem?_eq_some_iff.mp hcallback).1
  obtain ⟨block, htable, ⟨rest, rfl⟩, -⟩ := h.table (List.ne_nil_of_length_pos (by omega))
  rw [taskDispatch_posted htable (by rw [h.count]; exact hlt) hi hp,
    List.getElem?_append_left hlt, hcallback, Option.map_some]

/-- Where the table was lost, a call that finds a new one does not bring the old callbacks back:
whatever the memory held is called in their place. -/
theorem junk_called (hnull : s.taskFunc = none)
    (hqueues : ∀ p < taskPriorityCount, s.taskQ p ≠ none)
    (hfull : s.taskCount % taskHandleAllocationBrick = 0) (hok : c.tableOk = true) {i : Nat}
    (hi : i < s.taskCount) (hbound : i < 2 ^ 16) {priority : UInt8}
    (hp : priority ≤ taskPriorityHigh) (param : UInt32) :
    ∃ s' handle, taskGetId c s = some (s', .ok handle) ∧
      taskDispatch s' (taskPost priority (handleOf i) param) =
        some (.called (c.junk i) param priority) := by
  have hcount : s.taskCount = (fresh c.junk s.taskCount).length := (length_fresh _ _).symm
  have hresized : fresh c.junk s.taskCount <+: resize c.junk (s.taskFunc.getD [])
      (s.taskCount + taskHandleAllocationBrick) := by
    rw [hnull, resize, fresh, fresh, List.range_add, List.map_append]
    exact List.prefix_append _ _
  obtain ⟨block, hgrow, hroom⟩ := growTable_resized hcount hfull hok hresized
  obtain ⟨s', hcall, hholds, -⟩ :=
    taskGetId_stored hcount (initQueues_of_present hqueues) hgrow hroom
  refine ⟨s', _, hcall, hholds.dispatch hbound ?_ hp param⟩
  rw [List.getElem?_append_left (hcount ▸ hi), fresh, List.getElem?_map, List.getElem?_range hi,
    Option.map_some]

theorem taskDispatch_null (h : s.taskFunc = none) (e : OsEvent) :
    taskDispatch s e = some (.invalid e.sig) := by
  simp only [taskDispatch, h, ite_self]

end Calls

section Steps

variable {c : Call} {m : Module} {ts : List TaskCallback}

theorem Stored.kept (h : Stored m ts) (hlen : ts.length ≤ 2 ^ 16) : Kept m := by
  refine ⟨?_, ?_, ?_⟩
  · intro x hx
    obtain ⟨i, hi, hhandle, -⟩ := mem_handlesOf (h.issued ▸ hx)
    rw [hhandle]
    exact handleOf_ne_zero (by omega)
  · rw [h.issued]
    exact handlesOf_nodup hlen
  · intro x hx priority hp param
    obtain ⟨i, hi, hhandle, hcallback⟩ := mem_handlesOf (h.issued ▸ hx)
    rw [hhandle]
    exact h.holds.dispatch (by omega) hcallback hp param

theorem step_eq {s : Tasks} {answer : Answer} (h : taskGetId c m.tasks = some (s, answer)) :
    step (some m) c = some ⟨s, m.issued ++ issuedBy c answer⟩ := by
  rw [step, h, Option.map_some]

theorem Stored.nil_of_not_present {r : Bool × (Nat → Option (List OsEvent))} (h : Stored m ts)
    (hinit : initQueues c taskPriorityCount m.tasks.taskQ = some r)
    (hr : r ≠ (true, m.tasks.taskQ)) : ts = [] := by
  by_contra hne
  rw [initQueues_of_present (h.queues hne)] at hinit
  exact hr (Option.some.inj hinit).symm

/-- A call that finds the memory it asks for stores its callback, and one that fails has none to
lose. -/
theorem step_stored (h : Stored m ts) (hsound : Sound m.tasks c) :
    ∃ m' ts', step (some m) c = some m' ∧ Stored m' ts' ∧ ts'.length ≤ ts.length + 1 := by
  obtain ⟨⟨ok, taskQ⟩, hinit⟩ := Option.isSome_iff_exists.mp
    ((initQueues_isSome_iff (Nat.le_refl _)).mpr hsound.queues)
  cases ok with
  | false =>
    obtain rfl := h.nil_of_not_present hinit (by simp)
    refine ⟨_, [], step_eq (taskGetId_refused hinit), ⟨⟨h.holds.count, ?_⟩, ?_, ?_⟩,
      Nat.zero_le _⟩
    · exact fun hne => absurd rfl hne
    · exact fun hne => absurd rfl hne
    · rw [issuedBy, List.append_nil]
      exact h.issued
  | true =>
    by_cases hok : m.tasks.taskCount % taskHandleAllocationBrick = 0 → c.tableOk = true
    · have hholds : Holds { m.tasks with taskQ := taskQ } ts := ⟨h.holds.count, h.holds.table⟩
      obtain ⟨block, hgrow, hroom⟩ := growTable_room hholds hok
      obtain ⟨s', hstored, hholds', hqueues⟩ := taskGetId_stored h.holds.count hinit hgrow hroom
      refine ⟨_, ts ++ [c.callback], step_eq hstored, ⟨hholds', ?_, ?_⟩, ?_⟩
      · intro _
        rw [hqueues]
        exact (initQueues_present (Nat.le_refl _) hinit).1
      · rw [handlesOf_append, h.issued]
        rfl
      · rw [List.length_append, List.length_singleton]
    · obtain ⟨hfull, hno⟩ := Classical.not_imp.mp hok
      have hnil : ts = [] := by
        by_contra hne
        have hpos : 0 < m.tasks.taskCount := h.holds.count ▸ List.length_pos_of_ne_nil hne
        exact hno (hsound.table hpos hfull)
      subst hnil
      refine ⟨_, [], step_eq (taskGetId_lost hinit hfull (Bool.not_eq_true _ ▸ hno)),
        ⟨⟨h.holds.count, ?_⟩, ?_, ?_⟩, Nat.zero_le _⟩
      · exact fun hne => absurd rfl hne
      · exact fun hne => absurd rfl hne
      · rw [issuedBy, List.append_nil]
        exact h.issued

/-- Where a queue is missing, there is no module any more, and where the table is, no handle works
that was returned before. -/
theorem sound_of_lawful (h : Stored m ts) (hlawful : Lawful (step (some m) c)) :
    Sound m.tasks c := by
  refine ⟨?_, ?_⟩
  · rw [← initQueues_isSome_iff (Nat.le_refl _), Option.isSome_iff_ne_none]
    intro hnone
    rw [step, taskGetId, hnone] at hlawful
    exact hlawful
  · intro hpos hfull
    by_contra hno
    have hne : ts ≠ [] := List.ne_nil_of_length_pos (h.holds.count ▸ hpos)
    have hlost := taskGetId_lost (initQueues_of_present (h.queues hne)) hfull
      (Bool.not_eq_true _ ▸ hno)
    rw [step_eq hlost, issuedBy, List.append_nil] at hlawful
    obtain ⟨x, hx⟩ := List.exists_mem_of_ne_nil m.issued (by rw [h.issued]; simpa using hne)
    have hcalled := hlawful.dispatches x hx 0 (by decide) 0
    rw [taskDispatch_null rfl] at hcalled
    cases hcalled

end Steps

/-! ## Runs -/

def issuedCount : Option Module → Nat
  | none => 0
  | some m => m.issued.length

theorem step_issuedCount (m : Option Module) (c : Call) :
    issuedCount (step m c) ≤ issuedCount m + 1 := by
  cases m with
  | none => exact Nat.zero_le _
  | some m =>
    cases hcall : taskGetId c m.tasks with
    | none =>
      rw [step, hcall]
      exact Nat.zero_le _
    | some r =>
      obtain ⟨s, answer⟩ := r
      rw [step_eq hcall, issuedCount, issuedCount, List.length_append]
      cases answer with
      | ok handle => exact Nat.le_refl _
      | error msg => exact Nat.le_succ _

def Inv : Option Module → Prop
  | none => False
  | some m => ∃ ts, Stored m ts

theorem start_inv : Inv start :=
  ⟨[], ⟨⟨rfl, fun hne => absurd rfl hne⟩, fun hne => absurd rfl hne, rfl⟩⟩

/-- Of so many calls that their numbers fit the handles, every one returns, and all handles that
were returned are not zero, distinct and work from then on, when and only when every queue that is
asked for is obtained and the table grows wherever it has to. -/
theorem handles_dispatch_iff (cs : List Call) (h : cs.length ≤ 2 ^ 16) :
    Along step (fun m c => Lawful (step m c)) start cs ↔ Along step SoundAt start cs := by
  have hcount : Along step (fun m _ => issuedCount m < 2 ^ 16) start cs :=
    along_lt step issuedCount _ step_issuedCount start cs (by rw [start]; simpa [issuedCount])
  refine along_congr_of step _ _ _ Inv ?_ ?_ start cs start_inv hcount
  · intro m c hinv hlt
    cases m with
    | none => exact hinv.elim
    | some m =>
      obtain ⟨ts, hstored⟩ := hinv
      constructor
      · exact sound_of_lawful hstored
      · intro hsound
        obtain ⟨m', ts', hstep, hstored', hlen⟩ := step_stored hstored hsound
        rw [issuedCount, hstored.issued, length_handlesOf] at hlt
        rw [hstep]
        exact hstored'.kept (by omega)
  · intro m c hinv _ hlawful
    cases m with
    | none => exact hinv.elim
    | some m =>
      obtain ⟨ts, hstored⟩ := hinv
      obtain ⟨m', ts', hstep, hstored', -⟩ := step_stored hstored (sound_of_lawful hstored hlawful)
      rw [hstep]
      exact ⟨ts', hstored'⟩

/-- A call that finds all the memory it asks for. -/
def provided (callback : TaskCallback) : Call :=
  ⟨callback, fun _ => true, fun _ => true, true, fun _ => 0xA5A5A5A5⟩

/-- The first call finds no table, and the last one makes it grow. -/
def grown : List Call :=
  { provided 1 with tableOk := false } :: [1, 2, 3, 4, 5].map provided

theorem handles_dispatch_grown : grown.length ≤ 2 ^ 16 ∧
    Along step (fun m c => Lawful (step m c)) start grown :=
  ⟨by decide, (handles_dispatch_iff grown (by decide)).mpr (by decide)⟩

/-- The table is lost where it is to grow for a fifth callback. -/
def lostTable : List Call :=
  [1, 2, 3, 4].map provided ++ [{ provided 5 with tableOk := false }]

theorem handles_lost : ¬ Along step (fun m c => Lawful (step m c)) start lostTable := by
  rintro ⟨-, -, -, -, h, -⟩
  have hcalled := h.dispatches (handleOf 0, 1) (by decide) 0 (by decide) 0
  exact absurd hcalled (by decide)

end NodeMcu.Task.Handles
