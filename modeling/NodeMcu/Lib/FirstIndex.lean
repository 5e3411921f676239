import Mathlib.Data.List.Basic

namespace NodeMcu.Lib.FirstIndex

variable {α : Type} (p r : α → Bool) (xs : List α)

def HoldsAt (j : Nat) : Prop := ∃ x, xs[j]? = some x ∧ p x = true

/-- The first index at or after `i` at which `p` holds. -/
structure FirstFrom (i j : Nat) : Prop where
  le : i ≤ j
  holds : HoldsAt p xs j
  before : ∀ l, i ≤ l → l < j → ¬ HoldsAt p xs l

/-- `p` holds nowhere at or after `i`. -/
def NoneFrom (i : Nat) : Prop := ∀ l, i ≤ l → ¬ HoldsAt p xs l

theorem holdsAt_lt (j : Nat) (h : HoldsAt p xs j) : j < xs.length := by
  obtain ⟨x, hx, -⟩ := h
  exact (List.getElem?_eq_some_iff.mp hx).1

theorem firstFrom_of_findIdx (i k : Nat) (h : (xs.drop i).findIdx? p = some k) :
    FirstFrom p xs i (i + k) := by
  obtain ⟨hk, hp, hbefore⟩ := List.findIdx?_eq_some_iff_getElem.mp h
  refine ⟨Nat.le_add_right i k, ⟨(xs.drop i)[k], ?_, hp⟩, ?_⟩
  · rw [← List.getElem?_drop, List.getElem?_eq_getElem hk]
  · rintro l hil hlk ⟨x, hx, hpx⟩
    refine hbefore (l - i) (by omega) ?_
    have hl : (xs.drop i)[l - i]? = some x := by
      rw [List.getElem?_drop, Nat.add_sub_cancel' hil, hx]
    rw [(List.getElem?_eq_some_iff.mp hl).2]
    exact hpx

theorem noneFrom_of_findIdx (i : Nat) (h : (xs.drop i).findIdx? p = none) :
    NoneFrom p xs i := by
  rintro l hil ⟨x, hx, hpx⟩
  have hget : (xs.drop i)[l - i]? = some x := by
    rw [List.getElem?_drop, Nat.add_sub_cancel' hil, hx]
  rw [List.findIdx?_eq_none_iff.mp h x (List.mem_of_getElem? hget)] at hpx
  cases hpx

theorem firstFrom_unique (i j k : Nat) (hj : FirstFrom p xs i j) (hk : FirstFrom p xs i k) :
    j = k := by
  obtain h | h | h := Nat.lt_trichotomy j k
  · exact absurd hj.holds (hk.before j hj.le h)
  · exact h
  · exact absurd hk.holds (hj.before k hk.le h)

theorem firstFrom_or_noneFrom (i : Nat) : (∃ j, FirstFrom p xs i j) ∨ NoneFrom p xs i := by
  cases h : (xs.drop i).findIdx? p with
  | none => exact .inr (noneFrom_of_findIdx p xs i h)
  | some k => exact .inl ⟨i + k, firstFrom_of_findIdx p xs i k h⟩

theorem not_noneFrom (i j : Nat) (h : FirstFrom p xs i j) : ¬ NoneFrom p xs i :=
  fun hnone => hnone j h.le h.holds

/-- A finer search ends where a coarser one ends if it holds there. -/
theorem firstFrom_finer (i j : Nat) (h : FirstFrom p xs i j) (hrp : ∀ x, r x = true → p x = true)
    (hr : HoldsAt r xs j) : FirstFrom r xs i j := by
  refine ⟨h.le, hr, ?_⟩
  rintro l hil hlj ⟨x, hx, hrx⟩
  exact h.before l hil hlj ⟨x, hx, hrp x hrx⟩

/-- If it does not hold there, it goes on behind. -/
theorem firstFrom_skip (i j k : Nat) (h : FirstFrom p xs i j)
    (hrp : ∀ x, r x = true → p x = true) (hr : ¬ HoldsAt r xs j) :
    FirstFrom r xs i k ↔ FirstFrom r xs (j + 1) k := by
  constructor
  · intro hk
    refine ⟨?_, hk.holds, fun l hl hlk => hk.before l (by have := h.le; omega) hlk⟩
    by_contra hlt
    obtain ⟨x, hx, hrx⟩ := hk.holds
    obtain hkj | hkj := Nat.lt_or_ge k j
    · exact h.before k hk.le hkj ⟨x, hx, hrp x hrx⟩
    · rw [show j = k by omega] at hr
      exact hr hk.holds
  · intro hk
    refine ⟨Nat.le_trans h.le (Nat.le_of_succ_le hk.le), hk.holds, ?_⟩
    rintro l hil hlk hrl
    obtain hlj | rfl | hlj := Nat.lt_trichotomy l j
    · obtain ⟨x, hx, hrx⟩ := hrl
      exact h.before l hil hlj ⟨x, hx, hrp x hrx⟩
    · exact hr hrl
    · exact hk.before l hlj hlk hrl

theorem noneFrom_skip (i j : Nat) (h : FirstFrom p xs i j)
    (hrp : ∀ x, r x = true → p x = true) (hr : ¬ HoldsAt r xs j) :
    NoneFrom r xs i ↔ NoneFrom r xs (j + 1) := by
  constructor
  · exact fun hnone l hl => hnone l (Nat.le_trans h.le (Nat.le_of_succ_le hl))
  · rintro hnone l hil hrl
    obtain hlj | rfl | hlj := Nat.lt_trichotomy l j
    · obtain ⟨x, hx, hrx⟩ := hrl
      exact h.before l hil hlj ⟨x, hx, hrp x hrx⟩
    · exact hr hrl
    · exact hnone l hlj hrl

theorem noneFrom_finer (i : Nat) (h : NoneFrom p xs i) (hrp : ∀ x, r x = true → p x = true) :
    NoneFrom r xs i := by
  rintro l hil ⟨x, hx, hrx⟩
  exact h l hil ⟨x, hx, hrp x hrx⟩

end NodeMcu.Lib.FirstIndex
