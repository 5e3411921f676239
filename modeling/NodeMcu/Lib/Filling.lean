import NodeMcu.Lib.Intervals

namespace NodeMcu.Lib.Filling

open NodeMcu.Lib.Intervals

variable {α : Type}

/-- An array of `cap` entries whose first ones have been written. -/
def fill (cap : Nat) (z : α) (xs : List α) : List α := xs ++ List.replicate (cap - xs.length) z

theorem length_fill (cap : Nat) (z : α) (xs : List α) (h : xs.length ≤ cap) :
    (fill cap z xs).length = cap := by
  simp only [fill, List.length_append, List.length_replicate]
  omega

/-- Writing the next entry. -/
theorem fill_set (cap : Nat) (z x : α) (xs : List α) (h : xs.length < cap) :
    (fill cap z xs).set xs.length x = fill cap z (xs ++ [x]) := by
  obtain ⟨n, hn⟩ : ∃ n, cap - xs.length = n + 1 := ⟨cap - xs.length - 1, by omega⟩
  have hm : cap - (xs ++ [x]).length = n := by
    rw [List.length_append, List.length_singleton]
    omega
  rw [fill, fill, hn, hm, List.set_append_right _ _ (Nat.le_refl _), Nat.sub_self,
    List.replicate_succ, List.set_cons_zero, List.append_assoc, List.singleton_append]

theorem take_fill (cap : Nat) (z : α) (xs : List α) : (fill cap z xs).take xs.length = xs := by
  rw [fill, List.take_left]

theorem fill_getElem? (cap : Nat) (z : α) (xs : List α) (i : Nat) (h : i < xs.length) :
    (fill cap z xs)[i]? = xs[i]? := by
  rw [fill, List.getElem?_append_left h]

theorem fill_getElem?_behind (cap : Nat) (z : α) (xs : List α) (i : Nat) (h : xs.length ≤ i)
    (hc : i < cap) : (fill cap z xs)[i]? = some z := by
  rw [fill, List.getElem?_append_right h, List.getElem?_replicate, if_pos (by omega)]

/-- Entries that have not been written look like written ones if those are zero. -/
theorem take_fill_append (cap : Nat) (z : α) (xs ys : List α)
    (hc : xs.length + ys.length ≤ cap) :
    (fill cap z xs).take (xs ++ ys).length = xs ++ ys ↔ ∀ y ∈ ys, y = z := by
  rw [fill, List.length_append, List.take_length_add_append, List.append_cancel_left_eq,
    List.take_replicate, Nat.min_eq_left (by omega)]
  constructor
  · intro heq y hy
    rw [← heq] at hy
    exact List.eq_of_mem_replicate hy
  · intro h
    exact (List.eq_replicate_of_mem h).symm

variable (m : Nat) (f : α → Nat)

/-- The values that a sum modulo `m` runs through in front of each element. -/
def sums (start : Nat) : List α → List Nat
  | [] => []
  | a :: as => start :: sums ((start + f a) % m) as

/-- The value of that sum behind the last element. -/
def sumEnd (start : Nat) : List α → Nat
  | [] => start
  | a :: as => sumEnd ((start + f a) % m) as

@[simp] theorem length_sums (start : Nat) (as : List α) :
    (sums m f start as).length = as.length := by
  induction as generalizing start with
  | nil => rfl
  | cons a as ih => simp [sums, ih]

theorem sums_append (start : Nat) (as bs : List α) :
    sums m f start (as ++ bs) = sums m f start as ++ sums m f (sumEnd m f start as) bs := by
  induction as generalizing start with
  | nil => rfl
  | cons a as ih => simp [sums, sumEnd, ih]

theorem sumEnd_append (start : Nat) (as bs : List α) :
    sumEnd m f start (as ++ bs) = sumEnd m f (sumEnd m f start as) bs := by
  induction as generalizing start with
  | nil => rfl
  | cons a as ih => simp [sumEnd, ih]

theorem sums_getElem? (start : Nat) (as : List α) (i : Nat) (h : i < as.length) :
    (sums m f start as)[i]? = some (sumEnd m f start (as.take i)) := by
  induction as generalizing start i with
  | nil => cases h
  | cons a as ih =>
    cases i with
    | zero => rfl
    | succ i =>
      rw [sums, List.getElem?_cons_succ, List.take_succ_cons, sumEnd]
      exact ih _ i (Nat.lt_of_succ_lt_succ h)

theorem sumEnd_eq (start : Nat) (as : List α) (h : start < m) :
    sumEnd m f start as = (start + total f as) % m := by
  induction as generalizing start with
  | nil => exact (Nat.mod_eq_of_lt h).symm
  | cons a as ih =>
    rw [sumEnd, ih _ (Nat.mod_lt _ (Nat.zero_lt_of_lt h)), Nat.mod_add_mod, total_cons,
      Nat.add_assoc]

theorem total_take_le (as : List α) (i : Nat) : total f (as.take i) ≤ total f as := by
  have h := total_append f (as.take i) (as.drop i)
  rw [List.take_append_drop] at h
  omega

end NodeMcu.Lib.Filling
