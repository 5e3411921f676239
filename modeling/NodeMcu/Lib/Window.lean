import Mathlib.Data.List.Basic
import Mathlib.Data.Nat.ModEq
import Mathlib.Logic.Function.Basic

namespace NodeMcu.Lib.Window

variable {α : Type} {n : Nat} {slots : Nat → α} {log : List α} {lo lo' : Nat}

/-- Slots that are used in turn hold the entries of a log from a position on. -/
def Shows (n : Nat) (slots : Nat → α) (log : List α) (lo : Nat) : Prop :=
  ∀ i, lo ≤ i → i < log.length → log[i]? = some (slots (i % n))

/-- The entries from a position on, read from the slots. -/
def window (n : Nat) (slots : Nat → α) (lo hi : Nat) : List α :=
  (List.range (hi - lo)).map fun i => slots ((lo + i) % n)

theorem shows_nil (n : Nat) (slots : Nat → α) : Shows n slots [] 0 :=
  fun _ _ h => absurd h (Nat.not_lt_zero _)

theorem shows_mono (h : Shows n slots log lo) (hle : lo ≤ lo') : Shows n slots log lo' :=
  fun i hi => h i (Nat.le_trans hle hi)

theorem mod_ne {i j : Nat} (hij : i < j) (hn : j < i + n) : i % n ≠ j % n := by
  intro h
  have hdvd : n ∣ j - i := (Nat.modEq_iff_dvd' (Nat.le_of_lt hij)).mp h
  have := Nat.le_of_dvd (by omega) hdvd
  omega

/-- A new entry takes the place of the one a turn before it. -/
theorem shows_append (h : Shows n slots log lo) (hlo : lo ≤ lo') (hn : log.length < lo' + n)
    (x : α) : Shows n (Function.update slots (log.length % n) x) (log ++ [x]) lo' := by
  intro i hi hlt
  rw [List.length_append, List.length_singleton] at hlt
  obtain hlt | rfl := Nat.lt_succ_iff_lt_or_eq.mp hlt
  · have hne : i % n ≠ log.length % n := mod_ne hlt (by omega)
    rw [List.getElem?_append_left hlt, Function.update_of_ne hne]
    exact h i (Nat.le_trans hlo hi) hlt
  · rw [List.getElem?_concat_length, Function.update_self]

/-- The last entry is written again. -/
theorem shows_replace (h : Shows n slots log lo) (hne : log ≠ []) (hn : log.length ≤ lo + n)
    (x : α) :
    Shows n (Function.update slots ((log.length - 1) % n) x) (log.dropLast ++ [x]) lo := by
  have hpos := List.length_pos_iff.mpr hne
  have hfront : Shows n slots log.dropLast lo := by
    intro i hi hlt
    rw [List.length_dropLast] at hlt
    rw [List.getElem?_dropLast, if_pos hlt]
    exact h i hi (by omega)
  have happend := shows_append hfront (Nat.le_refl lo) (by rw [List.length_dropLast]; omega) x
  rwa [List.length_dropLast] at happend

theorem window_eq_drop (h : Shows n slots log lo) : window n slots lo log.length = log.drop lo := by
  apply List.ext_getElem?
  intro i
  rw [window, List.getElem?_map, List.getElem?_drop]
  obtain hi | hi := Nat.lt_or_ge i (log.length - lo)
  · rw [List.getElem?_range hi, h (lo + i) (Nat.le_add_right lo i) (by omega)]
    rfl
  · rw [List.getElem?_eq_none (by rw [List.length_range]; exact hi),
      List.getElem?_eq_none (by omega)]
    rfl

theorem window_empty (n : Nat) (slots : Nat → α) (lo : Nat) : window n slots lo lo = [] := by
  rw [window, Nat.sub_self]
  rfl

theorem window_cons (n : Nat) (slots : Nat → α) {lo hi : Nat} (h : lo < hi) :
    window n slots lo hi = slots (lo % n) :: window n slots (lo + 1) hi := by
  have hlen : hi - lo = hi - (lo + 1) + 1 := by omega
  rw [window, hlen, List.range_succ_eq_map, List.map_cons, List.map_map, window]
  congr 1
  apply List.map_congr_left
  intro i _
  simp only [Function.comp_apply]
  congr 2
  omega

end NodeMcu.Lib.Window
