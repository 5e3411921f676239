import Mathlib.Algebra.Group.Nat.Defs
import Mathlib.Data.List.Nodup
import Mathlib.Data.List.Range
import Mathlib.Logic.Function.Basic

namespace NodeMcu.Lib.Ring

/-! ## Positions of a ring

The ring consists of the positions from `lo` on in front of `hi`. -/

section Positions

variable (lo hi : Nat)

/-- The position behind another one. -/
def next (i : Nat) : Nat := if hi ≤ i + 1 then lo else i + 1

/-- The position so many steps behind another one, at most once around. -/
def slot (start n : Nat) : Nat := if start + n < hi then start + n else start + n - (hi - lo)

variable {lo hi}

theorem slot_zero {start : Nat} (h : start < hi) : slot lo hi start 0 = start := by
  rw [slot, Nat.add_zero, if_pos h]

theorem le_slot {start n : Nat} (hlo : lo ≤ start) (hhi : start < hi) :
    lo ≤ slot lo hi start n := by
  rw [slot]
  split_ifs <;> omega

theorem slot_lt {start n : Nat} (hlo : lo ≤ start) (hhi : start < hi) (hn : n ≤ hi - lo) :
    slot lo hi start n < hi := by
  rw [slot]
  split_ifs <;> omega

theorem le_next {i : Nat} (h : lo ≤ i) : lo ≤ next lo hi i := by
  rw [next]
  split_ifs <;> omega

theorem next_lt {i : Nat} (h : lo < hi) : next lo hi i < hi := by
  rw [next]
  split_ifs <;> omega

theorem slot_next {start n : Nat} (hlo : lo ≤ start) (hhi : start < hi) (hn : n < hi - lo) :
    slot lo hi (next lo hi start) n = slot lo hi start (n + 1) := by
  simp only [slot, next]
  split_ifs <;> omega

theorem next_slot {start n : Nat} (hlo : lo ≤ start) (hhi : start < hi) (hn : n < hi - lo) :
    next lo hi (slot lo hi start n) = slot lo hi start (n + 1) := by
  simp only [slot, next]
  split_ifs <;> omega

/-- So many single steps. -/
theorem iterate_next {start n : Nat} (hlo : lo ≤ start) (hhi : start < hi) (hn : n ≤ hi - lo) :
    (next lo hi)^[n] start = slot lo hi start n := by
  induction n with
  | zero => exact (slot_zero hhi).symm
  | succ n ih => rw [Function.iterate_succ_apply', ih (by omega), next_slot hlo hhi hn]

/-- A way around leads back, and no shorter one does. -/
theorem slot_eq_start {start n : Nat} (hlo : lo ≤ start) (hhi : start < hi) (hn : n ≤ hi - lo) :
    slot lo hi start n = start ↔ n = 0 ∨ n = hi - lo := by
  rw [slot]
  split_ifs <;> omega

theorem slot_injective {start m n : Nat} (hm : m < hi - lo) (hn : n < hi - lo)
    (h : slot lo hi start m = slot lo hi start n) : m = n := by
  simp only [slot] at h
  split_ifs at h <;> omega

end Positions

/-! ## What a ring holds -/

section Contents

variable {α : Type} (lo hi : Nat)

/-- What stands at so many positions, from one on. -/
def contents (f : Nat → α) (start n : Nat) : List α :=
  (List.range n).map fun i => f (slot lo hi start i)

variable {lo hi}

@[simp] theorem contents_zero (f : Nat → α) (start : Nat) : contents lo hi f start 0 = [] := rfl

@[simp] theorem contents_length (f : Nat → α) (start n : Nat) :
    (contents lo hi f start n).length = n := by
  rw [contents, List.length_map, List.length_range]

/-- The first and the others. -/
theorem contents_cons (f : Nat → α) {start n : Nat} (hlo : lo ≤ start) (hhi : start < hi)
    (hn : n < hi - lo) :
    contents lo hi f start (n + 1) = f start :: contents lo hi f (next lo hi start) n := by
  rw [contents, List.range_succ_eq_map, List.map_cons, List.map_map, slot_zero hhi, contents]
  congr 1
  refine List.map_congr_left fun i hi' => ?_
  have hi'' := List.mem_range.mp hi'
  rw [slot_next hlo hhi (by omega)]
  rfl

/-- The last and the others. -/
theorem contents_snoc (f : Nat → α) (start n : Nat) :
    contents lo hi f start (n + 1) = contents lo hi f start n ++ [f (slot lo hi start n)] := by
  rw [contents, List.range_succ, List.map_append]
  rfl

theorem contents_congr {f g : Nat → α} {start n : Nat} (hlo : lo ≤ start) (hhi : start < hi)
    (hn : n ≤ hi - lo) (h : ∀ i, lo ≤ i → i < hi → f i = g i) :
    contents lo hi f start n = contents lo hi g start n := by
  refine List.map_congr_left fun i hi' => ?_
  have hi'' := List.mem_range.mp hi'
  exact h _ (le_slot hlo hhi) (slot_lt hlo hhi (by omega))

/-- A write behind the last position. -/
theorem contents_update (f : Nat → α) {start n : Nat} (x : α)
    (hn : n < hi - lo) :
    contents lo hi (Function.update f (slot lo hi start n) x) start (n + 1) =
      contents lo hi f start n ++ [x] := by
  rw [contents_snoc, Function.update_self]
  congr 1
  refine List.map_congr_left fun i hi' => ?_
  have hi'' := List.mem_range.mp hi'
  refine Function.update_of_ne (fun h => ?_) x f
  have := slot_injective (by omega) hn h
  omega

end Contents

end NodeMcu.Lib.Ring
