import Mathlib.Data.List.Basic

namespace NodeMcu.Lib.Lines

variable {α : Type} [DecidableEq α] (sep : α)

/-- The first line with its separator, if one ends it. -/
def firstLine : List α → List α
  | [] => []
  | x :: xs => if x = sep then [x] else x :: firstLine xs

/-- All lines, each with its separator. The last one may have none. -/
def linesOf : List α → List (List α)
  | [] => []
  | x :: xs =>
    if x = sep then [x] :: linesOf xs
    else
      match linesOf xs with
      | [] => [[x]]
      | line :: rest => (x :: line) :: rest

theorem firstLine_length (xs : List α) : (firstLine sep xs).length ≤ xs.length := by
  induction xs with
  | nil => exact Nat.le_refl _
  | cons x xs ih =>
    rw [firstLine]
    split
    · simp
    · simpa using ih

@[simp] theorem firstLine_ne_nil (x : α) (xs : List α) : firstLine sep (x :: xs) ≠ [] := by
  rw [firstLine]
  split
  · exact List.cons_ne_nil _ _
  · exact List.cons_ne_nil _ _

/-- The lines are the first one and those of what follows it. -/
theorem linesOf_cons (x : α) (xs : List α) :
    linesOf sep (x :: xs) = firstLine sep (x :: xs) ::
      linesOf sep ((x :: xs).drop (firstLine sep (x :: xs)).length) := by
  induction xs generalizing x with
  | nil => by_cases h : x = sep <;> simp [linesOf, firstLine, h]
  | cons y ys ih =>
    by_cases h : x = sep
    · simp [linesOf, firstLine, h]
    · have hfirst : firstLine sep (x :: y :: ys) = x :: firstLine sep (y :: ys) := if_neg h
      rw [linesOf, if_neg h, ih y, hfirst]
      rfl

@[simp] theorem linesOf_eq_nil (xs : List α) : linesOf sep xs = [] ↔ xs = [] := by
  cases xs with
  | nil => simp [linesOf]
  | cons x xs => simp [linesOf_cons]

theorem linesOf_flatten (xs : List α) : (linesOf sep xs).flatten = xs := by
  induction xs with
  | nil => rfl
  | cons x xs ih =>
    rw [linesOf]
    split
    · rw [List.flatten_cons, ih, List.singleton_append]
    · cases h : linesOf sep xs with
      | nil =>
        rw [h] at ih
        rw [← ih]
        rfl
      | cons line rest =>
        rw [h] at ih
        rw [List.flatten_cons, List.cons_append, ← List.flatten_cons, ih]

theorem ne_nil_of_mem_linesOf (xs line : List α) (h : line ∈ linesOf sep xs) : line ≠ [] := by
  induction xs generalizing line with
  | nil => cases h
  | cons x xs ih =>
    rw [linesOf] at h
    split at h
    · obtain rfl | h := List.mem_cons.mp h
      · exact List.cons_ne_nil _ _
      · exact ih line h
    · cases hl : linesOf sep xs with
      | nil =>
        rw [hl] at h
        rw [List.mem_singleton.mp h]
        exact List.cons_ne_nil _ _
      | cons first rest =>
        rw [hl] at h ih
        obtain rfl | h := List.mem_cons.mp h
        · exact List.cons_ne_nil _ _
        · exact ih line (List.mem_cons_of_mem _ h)

theorem linesOf_length (xs : List α) : (linesOf sep xs).length ≤ xs.length := by
  induction xs with
  | nil => exact Nat.le_refl _
  | cons x xs ih =>
    rw [linesOf]
    split
    · exact Nat.succ_le_succ ih
    · cases h : linesOf sep xs with
      | nil => exact Nat.succ_le_succ (Nat.zero_le _)
      | cons line rest =>
        rw [h] at ih
        exact Nat.le_succ_of_le ih

/-- The rest of the lines are the lines of what is behind those before. -/
theorem linesOf_drop (k : Nat) (xs : List α) :
    linesOf sep (xs.drop ((linesOf sep xs).take k).flatten.length) =
      (linesOf sep xs).drop k := by
  induction k generalizing xs with
  | zero => rfl
  | succ k ih =>
    cases xs with
    | nil => rfl
    | cons x xs =>
      have hrest := ih ((x :: xs).drop (firstLine sep (x :: xs)).length)
      rw [linesOf_cons, List.take_succ_cons, List.flatten_cons, List.length_append,
        List.drop_succ_cons, ← hrest, List.drop_drop]

/-- A long enough beginning has the same first line. -/
theorem firstLine_take (n : Nat) (xs : List α) (h : (firstLine sep xs).length ≤ n) :
    firstLine sep (xs.take n) = firstLine sep xs := by
  induction xs generalizing n with
  | nil => rw [List.take_nil]
  | cons x xs ih =>
    cases n with
    | zero =>
      rw [Nat.le_zero, List.length_eq_zero_iff] at h
      exact absurd h (firstLine_ne_nil sep x xs)
    | succ n =>
      rw [List.take_succ_cons, firstLine, firstLine]
      split
      · rfl
      · next hx =>
        rw [firstLine, if_neg hx, List.length_cons] at h
        rw [ih n (Nat.le_of_succ_le_succ h)]

/-- What a beginning has of the first line. -/
theorem firstLine_take_length (n : Nat) (xs : List α) :
    (firstLine sep (xs.take n)).length = min n (firstLine sep xs).length := by
  induction xs generalizing n with
  | nil => simp [firstLine]
  | cons x xs ih =>
    cases n with
    | zero => simp [firstLine]
    | succ n =>
      rw [List.take_succ_cons, firstLine, firstLine]
      split
      · simp
      · rw [List.length_cons, List.length_cons, ih n, Nat.succ_min_succ]

/-- A line that its separator ends. -/
def Ended (line : List α) : Prop := ∀ rest, firstLine sep (line ++ rest) = line

theorem linesOf_ended (xs : List α) : (linesOf sep xs).Pairwise fun line _ => Ended sep line := by
  induction xs with
  | nil => exact List.Pairwise.nil
  | cons x xs ih =>
    rw [linesOf]
    split
    · next hx =>
      refine List.Pairwise.cons ?_ ih
      intro _ _ rest
      exact if_pos hx
    · next hx =>
      cases h : linesOf sep xs with
      | nil => exact List.pairwise_singleton _ _
      | cons line lines =>
        rw [h, List.pairwise_cons] at ih
        refine List.Pairwise.cons ?_ ih.2
        intro line' hline' rest
        rw [List.cons_append, firstLine, if_neg hx, ih.1 line' hline' rest]

theorem firstLine_of_mem (xs line : List α) (h : line ∈ linesOf sep xs) :
    firstLine sep line = line := by
  induction xs generalizing line with
  | nil => cases h
  | cons x xs ih =>
    rw [linesOf] at h
    split at h
    · next hx =>
      obtain rfl | h := List.mem_cons.mp h
      · exact if_pos hx
      · exact ih line h
    · next hx =>
      cases hl : linesOf sep xs with
      | nil =>
        rw [hl] at h
        rw [List.mem_singleton.mp h]
        exact if_neg hx
      | cons first rest =>
        rw [hl] at h ih
        obtain rfl | h := List.mem_cons.mp h
        · rw [firstLine, if_neg hx, ih first List.mem_cons_self]
        · exact ih line (List.mem_cons_of_mem _ h)

/-- Lines that are put behind each other are the lines of the whole. -/
theorem linesOf_of_ended (lines : List (List α)) (hended : lines.Pairwise fun l _ => Ended sep l)
    (hline : ∀ line ∈ lines, line ≠ [] ∧ firstLine sep line = line) :
    linesOf sep lines.flatten = lines := by
  induction lines with
  | nil => rfl
  | cons line lines ih =>
    obtain ⟨hne, hfirst⟩ := hline line List.mem_cons_self
    have hrest := ih (List.pairwise_cons.mp hended).2 fun l hl =>
      hline l (List.mem_cons_of_mem _ hl)
    have hwhole : firstLine sep (line ++ lines.flatten) = line := by
      cases lines with
      | nil => rwa [List.flatten_nil, List.append_nil]
      | cons l ls => exact (List.pairwise_cons.mp hended).1 l List.mem_cons_self _
    obtain ⟨x, xs, hx⟩ := List.exists_cons_of_ne_nil
      (show line ++ lines.flatten ≠ [] from List.append_ne_nil_of_left_ne_nil hne _)
    rw [List.flatten_cons, hx, linesOf_cons, ← hx, hwhole, List.drop_left, hrest]

/-- Some of the lines are the lines of what they make. -/
theorem linesOf_sublist (xs : List α) (lines : List (List α))
    (h : lines.Sublist (linesOf sep xs)) : linesOf sep lines.flatten = lines := by
  apply linesOf_of_ended
  · exact (linesOf_ended sep xs).sublist h
  · intro line hline
    have hmem := h.subset hline
    exact ⟨ne_nil_of_mem_linesOf sep xs line hmem, firstLine_of_mem sep xs line hmem⟩

theorem firstLine_eq_head (xs : List α) :
    firstLine sep xs = (linesOf sep xs).head?.getD [] := by
  cases xs with
  | nil => rfl
  | cons x xs => rw [linesOf_cons]; rfl

end NodeMcu.Lib.Lines
