import Mathlib.Data.List.Basic
import Mathlib.Logic.Function.Basic
import Mathlib.Order.Lattice.Nat

namespace NodeMcu.Lib.Slots

variable {κ δ : Type}

/-- What the slots of a table hold. There is no last one. -/
abbrev SlotMap (κ δ : Type) := Nat → Option (κ × δ)

def empty : SlotMap κ δ := fun _ => none

structure FirstFree (m : SlotMap κ δ) (i : Nat) : Prop where
  free : m i = none
  used : ∀ j, j < i → m j ≠ none

noncomputable def firstFree (m : SlotMap κ δ) : Nat := sInf { i | m i = none }

/-- An entry goes to the first slot that is free. -/
noncomputable def add (m : SlotMap κ δ) (k : κ) (d : δ) : SlotMap κ δ :=
  Function.update m (firstFree m) (some (k, d))

/-- All entries of a key go. -/
def remove [DecidableEq κ] (m : SlotMap κ δ) (k : κ) : SlotMap κ δ :=
  fun i => (m i).filter fun e => e.1 ≠ k

def Holds (m : SlotMap κ δ) (k : κ) (d : δ) : Prop := ∃ i, m i = some (k, d)

/-- The first slot with the key holds the datum. -/
def Finds (m : SlotMap κ δ) (k : κ) (d : δ) : Prop :=
  ∃ i, m i = some (k, d) ∧ ∀ j, j < i → ∀ d', m j ≠ some (k, d')

inductive Event (κ δ : Type)
  | added (k : κ) (d : δ)
  | removed (k : κ)

variable [DecidableEq κ]

noncomputable def step (m : SlotMap κ δ) : Event κ δ → SlotMap κ δ
  | .added k d => add m k d
  | .removed k => remove m k

/-- The table after a history. -/
noncomputable def after (es : List (Event κ δ)) : SlotMap κ δ := es.foldl step empty

omit [DecidableEq κ] in
/-- An entry has been added and its key has not been removed since. -/
def Live (es : List (Event κ δ)) (k : κ) (d : δ) : Prop :=
  ∃ before since, es = before ++ .added k d :: since ∧ .removed k ∉ since

omit [DecidableEq κ] in
theorem firstFree_eq (m : SlotMap κ δ) (i : Nat) (h : FirstFree m i) : firstFree m = i := by
  apply IsLeast.csInf_eq
  constructor
  · exact h.free
  · intro j hj
    by_contra hlt
    exact h.used j (Nat.lt_of_not_le hlt) hj

omit [DecidableEq κ] in
theorem add_eq (m : SlotMap κ δ) (i : Nat) (k : κ) (d : δ) (h : FirstFree m i) :
    add m k d = Function.update m i (some (k, d)) := by
  rw [add, firstFree_eq m i h]

omit [DecidableEq κ] in
theorem firstFree_free (m : SlotMap κ δ) (i : Nat) (h : m i = none) : m (firstFree m) = none :=
  Nat.sInf_mem (s := { i | m i = none }) ⟨i, h⟩

omit [DecidableEq κ] in
theorem holds_add (m : SlotMap κ δ) (i : Nat) (k k' : κ) (d d' : δ) (h : m i = none) :
    Holds (add m k d) k' d' ↔ (k' = k ∧ d' = d) ∨ Holds m k' d' := by
  have hfree := firstFree_free m i h
  constructor
  · rintro ⟨j, hj⟩
    by_cases hji : j = firstFree m
    · rw [add, hji, Function.update_self] at hj
      obtain ⟨rfl, rfl⟩ := Prod.mk.inj (Option.some.inj hj)
      exact .inl ⟨rfl, rfl⟩
    · rw [add, Function.update_of_ne hji] at hj
      exact .inr ⟨j, hj⟩
  · rintro (⟨rfl, rfl⟩ | ⟨j, hj⟩)
    · exact ⟨firstFree m, by rw [add, Function.update_self]⟩
    · have hji : j ≠ firstFree m := by
        rintro rfl
        rw [hfree] at hj
        cases hj
      exact ⟨j, by rw [add, Function.update_of_ne hji, hj]⟩

theorem remove_eq_some (m : SlotMap κ δ) (i : Nat) (k k' : κ) (d : δ) :
    remove m k i = some (k', d) ↔ k' ≠ k ∧ m i = some (k', d) := by
  simp [remove, Option.filter_eq_some_iff, and_comm]

theorem holds_remove (m : SlotMap κ δ) (k k' : κ) (d : δ) :
    Holds (remove m k) k' d ↔ k' ≠ k ∧ Holds m k' d := by
  simp only [Holds, remove_eq_some, exists_and_left]

theorem after_append (es : List (Event κ δ)) (e : Event κ δ) :
    after (es ++ [e]) = step (after es) e := by
  simp [after]

/-- A history fills finitely many slots. -/
theorem after_free (es : List (Event κ δ)) : ∃ n, ∀ i, n ≤ i → after es i = none := by
  induction es using List.reverseRecOn with
  | nil => exact ⟨0, fun _ _ => rfl⟩
  | append_singleton es e ih =>
    obtain ⟨n, hn⟩ := ih
    rw [after_append]
    cases e with
    | added k d =>
      refine ⟨max n (firstFree (after es) + 1), ?_⟩
      intro i hi
      have hne : i ≠ firstFree (after es) := by omega
      rw [step, add, Function.update_of_ne hne]
      exact hn i (by omega)
    | removed k =>
      refine ⟨n, ?_⟩
      intro i hi
      simp [step, remove, hn i hi]

omit [DecidableEq κ] in
/-- The last event of a history is the addition, or it comes after it. -/
theorem live_append (es : List (Event κ δ)) (e : Event κ δ) (k : κ) (d : δ) :
    Live (es ++ [e]) k d ↔ e = .added k d ∨ (e ≠ .removed k ∧ Live es k d) := by
  constructor
  · rintro ⟨before, since, hes, hnot⟩
    obtain rfl | ⟨since, e', rfl⟩ := List.eq_nil_or_concat since
    · obtain ⟨-, he⟩ := List.append_inj' hes rfl
      exact .inl (List.cons.inj he).1
    · rw [List.concat_eq_append] at hes hnot
      rw [← List.cons_append, ← List.append_assoc] at hes
      obtain ⟨hfront, he⟩ := List.append_inj' hes rfl
      obtain rfl : e = e' := (List.cons.inj he).1
      rw [List.mem_append, List.mem_singleton, not_or] at hnot
      exact .inr ⟨Ne.symm hnot.2, before, since, hfront, hnot.1⟩
  · rintro (rfl | ⟨hne, before, since, rfl, hnot⟩)
    · exact ⟨es, [], rfl, List.not_mem_nil⟩
    · refine ⟨before, since ++ [e], by simp, ?_⟩
      rw [List.mem_append, List.mem_singleton, not_or]
      exact ⟨hnot, Ne.symm hne⟩

/-- The table holds what has been added and not removed since. -/
theorem holds_after_iff (es : List (Event κ δ)) (k : κ) (d : δ) :
    Holds (after es) k d ↔ Live es k d := by
  induction es using List.reverseRecOn with
  | nil =>
    constructor
    · rintro ⟨i, hi⟩
      simp [after, empty] at hi
    · rintro ⟨before, since, hes, -⟩
      simp at hes
  | append_singleton es e ih =>
    rw [after_append, live_append, ← ih]
    cases e with
    | added k' d' =>
      obtain ⟨n, hn⟩ := after_free es
      rw [step, holds_add (after es) n k' k d' d (hn n le_rfl)]
      simp [eq_comm]
    | removed k' =>
      rw [step, holds_remove]
      simp [eq_comm]

omit [DecidableEq κ] in
theorem finds_of_holds (m : SlotMap κ δ) (k : κ) (d : δ) (h : Holds m k d) :
    ∃ d', Finds m k d' := by
  classical
  have hex : ∃ i, ∃ d, m i = some (k, d) := by
    obtain ⟨i, hi⟩ := h
    exact ⟨i, d, hi⟩
  obtain ⟨d', hd'⟩ := Nat.find_spec hex
  refine ⟨d', Nat.find hex, hd', ?_⟩
  intro j hj d'' hd''
  exact Nat.find_min hex hj ⟨d'', hd''⟩

omit [DecidableEq κ] in
/-- A search looks at the first slot, and goes on behind it if the key is not there. -/
theorem finds_iff (m : SlotMap κ δ) (k : κ) (d : δ) :
    Finds m k d ↔ m 0 = some (k, d) ∨
      ((∀ d', m 0 ≠ some (k, d')) ∧ Finds (fun i => m (i + 1)) k d) := by
  constructor
  · rintro ⟨i, hi, hbefore⟩
    cases i with
    | zero => exact .inl hi
    | succ i =>
      refine .inr ⟨hbefore 0 (Nat.succ_pos i), i, hi, ?_⟩
      intro j hj
      exact hbefore (j + 1) (Nat.succ_lt_succ hj)
  · rintro (h | ⟨h0, i, hi, hbefore⟩)
    · exact ⟨0, h, fun j hj => absurd hj (Nat.not_lt_zero j)⟩
    · refine ⟨i + 1, hi, ?_⟩
      intro j hj
      cases j with
      | zero => exact h0
      | succ j => exact hbefore j (Nat.lt_of_succ_lt_succ hj)

end NodeMcu.Lib.Slots
