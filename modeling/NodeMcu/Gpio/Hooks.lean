import Mathlib.Data.List.Nodup
import NodeMcu.Lib.Masks
import NodeMcu.Lib.Run

namespace NodeMcu.Gpio.Hooks

open NodeMcu.Lib.Masks NodeMcu.Lib.Run

/-! ## The hooks of the interrupt handler -/

variable {φ : Type}

structure HookEntry (φ : Type) where
  func : φ
  bits : BitVec 32

/-- The entries, and the bits of all of them. -/
structure GpioHook (φ : Type) where
  entry : List (HookEntry φ)
  allBits : BitVec 32

/-- The hooks after a call, and whether it was taken. Where the bits of a hook are changed the mask
of all bits is changed in a copy only. -/
def platformGpioRegisterIntrHook [DecidableEq φ] (bits : BitVec 32) (hook : Option φ) (mem : Bool)
    (oh : GpioHook φ) : GpioHook φ × Bool :=
  match hook with
  | none => (oh, false)
  | some hook =>
    match oh.entry.findIdx? (·.func = hook) with
    | some i =>
      let oldBits := (oh.entry[i]?.map (·.bits)).getD 0
      if bits = 0 then
        if oh.entry.length - 1 ≠ 0 ∧ mem = false then (oh, false)
        else (⟨oh.entry.eraseIdx i, oh.allBits &&& ~~~oldBits⟩, true)
      else if bits &&& (oh.allBits &&& ~~~oldBits) ≠ 0 then (oh, false)
      else (⟨oh.entry.modify i fun e => { e with bits }, oh.allBits⟩, true)
    | none =>
      if bits &&& oh.allBits ≠ 0 ∨ mem = false then (oh, false)
      else (⟨oh.entry ++ [⟨hook, bits⟩], oh.allBits ||| bits⟩, true)

structure Call (φ : Type) where
  bits : BitVec 32
  hook : Option φ
  mem : Bool

def step [DecidableEq φ] (h : GpioHook φ) (c : Call φ) : GpioHook φ :=
  (platformGpioRegisterIntrHook c.bits c.hook c.mem h).1

def noHooks : GpioHook φ := ⟨[], 0⟩

/-! ### What the mask of all bits is -/

/-- No function has two entries. -/
def Once (h : GpioHook φ) : Prop := (h.entry.map (·.func)).Nodup

/-- The mask of all bits is that of the entries, no two of which have a bit in common. -/
def Law (h : GpioHook φ) : Prop :=
  h.allBits = union (h.entry.map (·.bits)) ∧ Apart (h.entry.map (·.bits))

/-- Where a hook is registered again and its bits are free, they are the ones that it has. -/
def Keeps (h : GpioHook φ) (c : Call φ) : Prop :=
  ∀ e ∈ h.entry, c.hook = some e.func → c.bits ≠ 0 →
    c.bits &&& (h.allBits &&& ~~~e.bits) = 0 → c.bits = e.bits

instance [DecidableEq φ] (h : GpioHook φ) (c : Call φ) : Decidable (Keeps h c) :=
  inferInstanceAs (Decidable (∀ e ∈ h.entry, _ → _ → _ → _))

/-- What a call does to the hooks. -/
inductive Change (c : Call φ) (h : GpioHook φ) : GpioHook φ → Prop
  | refused (hkeeps : Keeps h c) : Change c h h
  | added {hook : φ} (hhook : c.hook = some hook) (hnew : ∀ e ∈ h.entry, e.func ≠ hook)
      (hbits : c.bits &&& h.allBits = 0) :
      Change c h ⟨h.entry ++ [⟨hook, c.bits⟩], h.allBits ||| c.bits⟩
  | removed {before after : List (HookEntry φ)} {e : HookEntry φ}
      (hentry : h.entry = before ++ e :: after) (hzero : c.bits = 0) :
      Change c h ⟨before ++ after, h.allBits &&& ~~~e.bits⟩
  | moved {before after : List (HookEntry φ)} {e : HookEntry φ}
      (hentry : h.entry = before ++ e :: after) (hhook : c.hook = some e.func) (hne : c.bits ≠ 0)
      (hbits : c.bits &&& (h.allBits &&& ~~~e.bits) = 0) :
      Change c h ⟨before ++ { e with bits := c.bits } :: after, h.allBits⟩

variable {c : Call φ} {h h' : GpioHook φ}

theorem Once.eq_of_func {e e' : HookEntry φ} (honce : Once h) (he : e ∈ h.entry)
    (he' : e' ∈ h.entry) (hfunc : e.func = e'.func) : e = e' :=
  List.inj_on_of_nodup_map honce he he' hfunc

theorem step_change [DecidableEq φ] (c : Call φ) (honce : Once h) : Change c h (step h c) := by
  rw [step, platformGpioRegisterIntrHook.eq_def]
  cases hhook : c.hook with
  | none => exact .refused fun e _ he => by simp [hhook] at he
  | some hook =>
    dsimp only
    cases hfind : h.entry.findIdx? (·.func = hook) with
    | none =>
      have hnew : ∀ e ∈ h.entry, e.func ≠ hook := fun e he => by
        simpa using List.findIdx?_eq_none_iff.mp hfind e he
      dsimp only
      split_ifs with hrefused
      · refine .refused fun e he hfunc => absurd ?_ (hnew e he)
        exact (Option.some.inj (hhook.symm.trans hfunc)).symm
      · rw [not_or, not_not] at hrefused
        exact .added hhook hnew hrefused.1
    | some i =>
      obtain ⟨hi, hfunc, -⟩ := List.findIdx?_eq_some_iff_getElem.mp hfind
      have hfunc : h.entry[i].func = hook := by simpa using hfunc
      have hsplit : h.entry = h.entry.take i ++ h.entry[i] :: h.entry.drop (i + 1) := by
        rw [List.getElem_cons_drop, List.take_append_drop]
      simp only [List.getElem?_eq_getElem hi, Option.map_some, Option.getD_some]
      split_ifs with hbits hmem hhooked
      · exact .refused fun _ _ _ hne => absurd hbits hne
      · rw [List.eraseIdx_eq_take_drop_succ]
        exact .removed hsplit hbits
      · refine .refused fun e he hsame _ hfree => absurd ?_ hhooked
        have heq : e.func = h.entry[i].func :=
          (Option.some.inj (hhook.symm.trans hsame)).symm.trans hfunc.symm
        rw [honce.eq_of_func he (List.getElem_mem hi) heq] at hfree
        exact hfree
      · rw [List.modify_eq_take_cons_drop hi]
        exact .moved hsplit (hfunc ▸ hhook) hbits (not_not.mp hhooked)

theorem Change.once (hc : Change c h h') (honce : Once h) : Once h' := by
  rw [Once] at honce ⊢
  cases hc with
  | refused => exact honce
  | added _ hnew _ =>
    rw [List.map_append, List.map_singleton, List.nodup_append]
    refine ⟨honce, List.nodup_singleton _, ?_⟩
    intro f hf g hg
    obtain ⟨e, he, rfl⟩ := List.mem_map.mp hf
    rw [List.mem_singleton.mp hg]
    exact hnew e he
  | removed hentry _ =>
    rw [hentry, List.map_append, List.map_cons, List.nodup_middle, List.nodup_cons] at honce
    rw [List.map_append]
    exact honce.2
  | moved hentry _ _ _ =>
    rw [hentry] at honce
    rw [List.map_append, List.map_cons] at honce ⊢
    exact honce

theorem Change.law_iff (hc : Change c h h') (hlaw : Law h) (honce : Once h) :
    Law h' ↔ Keeps h c := by
  obtain ⟨hall, hapart⟩ := hlaw
  cases hc with
  | refused hkeeps => exact ⟨fun _ => hkeeps, fun _ => ⟨hall, hapart⟩⟩
  | @added hook hhook hnew hbits =>
    refine ⟨fun _ e he hfunc => absurd ?_ (hnew e he), fun _ => ?_⟩
    · exact (Option.some.inj (hhook.symm.trans hfunc)).symm
    · rw [Law, List.map_append, List.map_singleton, union_middle, apart_middle, List.append_nil,
        ← hall]
      exact ⟨BitVec.or_comm .., hapart, hbits⟩
  | @removed before after e hentry hzero =>
    refine ⟨fun _ _ _ _ hne => absurd hzero hne, fun _ => ?_⟩
    rw [hentry, List.map_append, List.map_cons] at hall hapart
    rw [apart_middle] at hapart
    rw [union_middle] at hall
    rw [Law, List.map_append, hall, or_and_not hapart.2]
    exact ⟨rfl, hapart.1⟩
  | @moved before after e hentry hhook hne hbits =>
    rw [hentry, List.map_append, List.map_cons] at hall hapart
    rw [apart_middle] at hapart
    rw [union_middle] at hall
    have hfree := hbits
    rw [hall, or_and_not hapart.2] at hfree
    rw [Law, List.map_append, List.map_cons, union_middle, apart_middle, hall]
    have hsame := or_left_inj hapart.2 hfree
    constructor
    · rintro ⟨heq, -⟩ e' he' hfunc _ _
      have heq' : e' = e := by
        refine honce.eq_of_func he' (by simp [hentry]) ?_
        exact Option.some.inj (hfunc.symm.trans hhook)
      rw [heq']
      exact (hsame.mp heq).symm
    · intro hkeeps
      have heq := hkeeps e (by simp [hentry]) hhook hne hbits
      exact ⟨by rw [heq], hapart.1, hfree⟩

theorem sound_noHooks : Law (noHooks : GpioHook φ) ∧ Once (noHooks : GpioHook φ) :=
  ⟨⟨rfl, List.Pairwise.nil⟩, List.nodup_nil⟩

/-- In every run the mask is right in each state if and only if no hook is given other bits. -/
theorem hooks_run_iff [DecidableEq φ] (calls : List (Call φ)) :
    Along step (fun h c => Law (step h c)) noHooks calls ↔ Along step Keeps noHooks calls :=
  along_congr step _ _ (fun h => Law h ∧ Once h)
    (fun _ c hi => (step_change c hi.2).law_iff hi.1 hi.2)
    (fun _ c hi hlaw => ⟨hlaw, (step_change c hi.2).once hi.2⟩) _ _ sound_noHooks

/-! ## The interrupt handler -/

/-- The number of the pad of each pin. -/
def pinNum : List Nat := [16, 5, 4, 0, 2, 14, 12, 13, 15, 3, 1, 9, 10]

def gpioPinNumInv : Nat := 17

/-- The pin of a pad. A pad without one has the pin 0, whose interrupt is never set. -/
def pinOf (j : Nat) : Nat := (pinNum.idxOf? j).getD 0

def pinNumInv (j : Nat) : Option Nat := if j < gpioPinNumInv then some (pinOf j) else none

/-- The hooks that are called, and what they leave of the status. -/
def callHooks (func : φ → BitVec 32 → BitVec 32) (entry : List (HookEntry φ))
    (status : BitVec 32) (called : List φ) : BitVec 32 × List φ :=
  match entry with
  | [] => (status, called)
  | e :: entry =>
    if status &&& e.bits ≠ 0 then callHooks func entry (func e.func status) (called ++ [e.func])
    else callHooks func entry status called

/-- What is posted for a pin. -/
def param (pin : Nat) (level : Bool) : Nat := (pin <<< 1) + level.toNat

/-- From a pad on, what is posted for those whose bits are set and whose pins have an interrupt. It
is disabled. There is no result where the table of pins is left. -/
def scan (pinIntType : Nat → Nat) (level : Nat → Bool) (j : Nat) (status : BitVec 32) :
    Nat → Option (List Nat)
  | 0 => some []
  | n + 1 =>
    if status = 0 then some []
    else if status.getLsbD 0 then
      (pinNumInv j).bind fun i =>
        (scan pinIntType level (j + 1) (status >>> 1) n).map fun posts =>
          if pinIntType i ≠ 0 then param i (level j) :: posts else posts
    else scan pinIntType level (j + 1) (status >>> 1) n

/-- The hooks that are called, and what is posted. -/
def platformGpioIntrDispatcher (func : φ → BitVec 32 → BitVec 32) (h : GpioHook φ)
    (pinIntType : Nat → Nat) (level : Nat → Bool) (status : BitVec 32) :
    List φ × Option (List Nat) :=
  let (left, called) :=
    if status &&& h.allBits ≠ 0 then callHooks func h.entry status [] else (status, [])
  (called, scan pinIntType level 0 left 32)

/-- A hook takes away none but its own bits. -/
structure Honest (func : BitVec 32 → BitVec 32) (bits : BitVec 32) : Prop where
  others (status : BitVec 32) (j : Nat) (h : bits.getLsbD j = false) :
    (func status).getLsbD j = status.getLsbD j
  less (status : BitVec 32) (j : Nat) (h : (func status).getLsbD j = true) :
    status.getLsbD j = true

section Dispatcher

variable {func : φ → BitVec 32 → BitVec 32} {status left : BitVec 32}
variable {entry : List (HookEntry φ)} {called : List φ}

/-- What is left of a status. -/
structure Leaves (entry : List (HookEntry φ)) (status left : BitVec 32) : Prop where
  others (j : Nat) (h : ∀ e ∈ entry, e.bits.getLsbD j = false) :
    left.getLsbD j = status.getLsbD j
  less (j : Nat) (h : left.getLsbD j = true) : status.getLsbD j = true

/-- Each hook of which a bit is set is called once. -/
theorem callHooks_spec (status : BitVec 32) (called : List φ)
    (hhonest : ∀ e ∈ entry, Honest (func e.func) e.bits)
    (hapart : Apart (entry.map (·.bits))) :
    Leaves entry status (callHooks func entry status called).1 ∧
      (callHooks func entry status called).2 =
        called ++ (entry.filter fun e => status &&& e.bits ≠ 0).map (·.func) := by
  induction entry generalizing status called with
  | nil => exact ⟨⟨fun _ _ => rfl, fun _ h => h⟩, by simp [callHooks]⟩
  | cons e entry ih =>
    rw [List.forall_mem_cons] at hhonest
    obtain ⟨he, hhonest⟩ := hhonest
    rw [List.map_cons, Apart, List.pairwise_cons] at hapart
    obtain ⟨hfirst, hapart⟩ := hapart
    rw [callHooks]
    split_ifs with hset
    · obtain ⟨hleaves, hcalled⟩ := ih (func e.func status) (called ++ [e.func]) hhonest hapart
      have hsame : ∀ e' ∈ entry, func e.func status &&& e'.bits = status &&& e'.bits := by
        intro e' he'
        have hno := and_eq_zero_iff.mp (hfirst e'.bits (List.mem_map_of_mem he'))
        refine BitVec.eq_of_getLsbD_eq fun j _ => ?_
        rw [BitVec.getLsbD_and, BitVec.getLsbD_and]
        cases hj : e'.bits.getLsbD j with
        | false => simp
        | true =>
          rw [he.others status j]
          by_contra hbit
          rw [Bool.not_eq_false] at hbit
          rw [hno j hbit] at hj
          cases hj
      refine ⟨⟨fun j hj => ?_, fun j hj => he.less status j (hleaves.less j hj)⟩, ?_⟩
      · rw [List.forall_mem_cons] at hj
        rw [hleaves.others j hj.2, he.others status j hj.1]
      · rw [hcalled, List.filter_cons_of_pos (by simpa using hset), List.map_cons,
          List.append_assoc, List.singleton_append]
        congr 3
        exact List.filter_congr fun e' he' => by rw [hsame e' he']
    · obtain ⟨hleaves, hcalled⟩ := ih status called hhonest hapart
      refine ⟨⟨fun j hj => hleaves.others j (List.forall_mem_cons.mp hj).2, hleaves.less⟩, ?_⟩
      rw [hcalled, List.filter_cons_of_neg (by simpa using hset)]

/-- The pads for which something is posted, in order. -/
def posted (pinIntType : Nat → Nat) (status : BitVec 32) (j n : Nat) : List Nat :=
  (List.range n).filter fun k => status.getLsbD k && pinIntType (pinOf (j + k)) != 0

theorem posted_succ (pinIntType : Nat → Nat) (status : BitVec 32) (j n : Nat) :
    posted pinIntType status j (n + 1) =
      (if status.getLsbD 0 && pinIntType (pinOf j) != 0 then [0] else []) ++
        (posted pinIntType (status >>> 1) (j + 1) n).map (· + 1) := by
  rw [posted, List.range_succ_eq_map, List.filter_cons, List.filter_map, posted]
  have hrest : (fun k => status.getLsbD k && pinIntType (pinOf (j + k)) != 0) ∘ Nat.succ =
      fun k => (status >>> 1).getLsbD k && pinIntType (pinOf (j + 1 + k)) != 0 := by
    funext k
    rw [Function.comp_apply, BitVec.getLsbD_ushiftRight, Nat.succ_eq_add_one, Nat.add_comm 1 k,
      Nat.add_assoc j 1 k, Nat.add_comm 1 k]
  rw [hrest, Nat.add_zero]
  split_ifs <;> rfl

theorem scan_eq (pinIntType : Nat → Nat) (level : Nat → Bool) (j n : Nat) (status : BitVec 32)
    (hpads : ∀ k, status.getLsbD k = true → j + k < gpioPinNumInv) :
    scan pinIntType level j status n =
      some ((posted pinIntType status j n).map fun k => param (pinOf (j + k)) (level (j + k))) := by
  induction n generalizing j status with
  | zero => rfl
  | succ n ih =>
    have hrest := ih (j + 1) (status >>> 1) fun k hk => by
      rw [BitVec.getLsbD_ushiftRight] at hk
      have := hpads _ hk
      omega
    have hshift : (posted pinIntType (status >>> 1) (j + 1) n).map
          (fun k => param (pinOf (j + 1 + k)) (level (j + 1 + k))) =
        ((posted pinIntType (status >>> 1) (j + 1) n).map (· + 1)).map
          fun k => param (pinOf (j + k)) (level (j + k)) := by
      rw [List.map_map]
      refine List.map_congr_left fun k _ => ?_
      rw [Function.comp_apply, Nat.add_assoc, Nat.add_comm 1 k]
    rw [scan, posted_succ, List.map_append, hrest, hshift]
    by_cases hzero : status = 0
    · subst hzero
      simp [posted]
    · rw [if_neg hzero]
      cases hbit : status.getLsbD 0 with
      | false => simp
      | true =>
        have hpad := hpads 0 hbit
        rw [Nat.add_zero] at hpad
        rw [if_pos rfl, pinNumInv, if_pos hpad, Option.bind_some, Option.map_some, Bool.true_and]
        by_cases htype : pinIntType (pinOf j) = 0 <;> simp [htype]

theorem posted_pads (pinIntType : Nat → Nat) (hpads : ∀ j, left.getLsbD j = true → j < 16) :
    posted pinIntType left 0 32 =
      (List.range 16).filter fun j => left.getLsbD j && pinIntType (pinOf j) != 0 := by
  have hbehind : ((List.range 16).map (16 + ·)).filter
      (fun j => left.getLsbD j && pinIntType (pinOf j) != 0) = [] := by
    rw [List.filter_eq_nil_iff]
    intro j hj
    obtain ⟨k, -, rfl⟩ := List.mem_map.mp hj
    intro hbit
    rw [Bool.and_eq_true] at hbit
    have := hpads _ hbit.1
    omega
  have hrange : List.range 32 = List.range 16 ++ (List.range 16).map (16 + ·) :=
    @List.range_add 16 16
  simp only [posted, Nat.zero_add]
  rw [hrange, List.filter_append, hbehind, List.append_nil]

theorem Law.none_set {h : GpioHook φ} (hlaw : Law h) (hnone : status &&& h.allBits = 0) :
    h.entry.filter (fun e => status &&& e.bits ≠ 0) = [] := by
  rw [hlaw.1, and_union_eq_zero_iff] at hnone
  rw [List.filter_eq_nil_iff]
  intro e he
  simpa using hnone e.bits (List.mem_map_of_mem he)

theorem dispatcher_spec {h : GpioHook φ} (hlaw : Law h)
    (hhonest : ∀ e ∈ h.entry, Honest (func e.func) e.bits) (pinIntType : Nat → Nat)
    (level : Nat → Bool) (hpads : ∀ j, status.getLsbD j = true → j < 16) :
    ∃ left, Leaves h.entry status left ∧
      platformGpioIntrDispatcher func h pinIntType level status =
        ((h.entry.filter fun e => status &&& e.bits ≠ 0).map (·.func),
          some (((List.range 16).filter fun j => left.getLsbD j && pinIntType (pinOf j) != 0).map
            fun j => param (pinOf j) (level j))) := by
  have hscan {left : BitVec 32} (hleaves : Leaves h.entry status left) :
      scan pinIntType level 0 left 32 =
        some (((List.range 16).filter fun j => left.getLsbD j && pinIntType (pinOf j) != 0).map
          fun j => param (pinOf j) (level j)) := by
    have hleft : ∀ j, left.getLsbD j = true → j < 16 := fun j hj => hpads j (hleaves.less j hj)
    rw [scan_eq _ _ _ _ _ fun k hk => by
      have := hleft k hk
      rw [gpioPinNumInv]
      omega, posted_pads pinIntType hleft]
    simp only [Nat.zero_add]
  rw [platformGpioIntrDispatcher]
  by_cases hany : status &&& h.allBits = 0
  · have hleaves : Leaves h.entry status status := ⟨fun _ _ => rfl, fun _ hj => hj⟩
    refine ⟨status, hleaves, ?_⟩
    rw [if_neg (not_not.mpr hany), hlaw.none_set hany]
    simp only [hscan hleaves, List.map_nil]
  · obtain ⟨hleaves, hcalled⟩ :=
      callHooks_spec status [] hhonest hlaw.2
    refine ⟨_, hleaves, ?_⟩
    rw [if_pos hany]
    simp only [hscan hleaves, hcalled, List.nil_append]

theorem honest_clear (bits : BitVec 32) : Honest (fun status => status &&& ~~~bits) bits where
  others status j h := by
    obtain hj | hj := Nat.lt_or_ge j 32
    · rw [BitVec.getLsbD_and, BitVec.getLsbD_not, h]
      simp [hj]
    · simp [BitVec.getLsbD_of_ge, hj]
  less status j h := by
    rw [BitVec.getLsbD_and, Bool.and_eq_true] at h
    exact h.1

/-- The bits of two hooks, which each clears. -/
def maskOf : Bool → BitVec 32
  | false => 0x30
  | true => 0x1000

def twoHooks : List (Call Bool) := [⟨0x30, some false, true⟩, ⟨0x1000, some true, true⟩]

end Dispatcher

end NodeMcu.Gpio.Hooks
