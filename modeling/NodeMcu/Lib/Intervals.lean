import Mathlib.Data.List.Induction

namespace NodeMcu.Lib.Intervals

variable {α : Type} (off len : α → Nat)

/-- Each interval begins where the one in front of it ends. -/
def Consecutive (start : Nat) : List α → Prop
  | [] => True
  | a :: as => off a = start ∧ Consecutive (start + len a) as

def total : List α → Nat
  | [] => 0
  | a :: as => len a + total as

/-- The intervals cover exactly the indices below `n`. -/
def Tiles (as : List α) (n : Nat) : Prop :=
  ∀ i, (∃ a ∈ as, off a ≤ i ∧ i < off a + len a) ↔ i < n

@[simp] theorem total_nil : total len ([] : List α) = 0 := rfl

@[simp] theorem total_cons (a : α) (as : List α) : total len (a :: as) = len a + total len as := rfl

@[simp] theorem total_append (as bs : List α) :
    total len (as ++ bs) = total len as + total len bs := by
  induction as with
  | nil => simp
  | cons a as ih => simp [ih, Nat.add_assoc]

theorem consecutive_append (start : Nat) (as bs : List α) :
    Consecutive off len start (as ++ bs) ↔
      Consecutive off len start as ∧ Consecutive off len (start + total len as) bs := by
  induction as generalizing start with
  | nil => simp [Consecutive]
  | cons a as ih => simp [Consecutive, ih, and_assoc, Nat.add_assoc]

theorem le_of_mem_consecutive (start : Nat) (as : List α) (h : Consecutive off len start as)
    (a : α) (ha : a ∈ as) : start ≤ off a := by
  induction as generalizing start with
  | nil => simp at ha
  | cons b bs ih =>
    obtain ⟨hb, hbs⟩ := h
    obtain rfl | ha := List.mem_cons.mp ha
    · exact Nat.le_of_eq hb.symm
    · exact Nat.le_trans (Nat.le_add_right _ _) (ih _ hbs ha)

theorem end_le_of_mem_consecutive (start : Nat) (as : List α) (h : Consecutive off len start as)
    (a : α) (ha : a ∈ as) : off a + len a ≤ start + total len as := by
  induction as generalizing start with
  | nil => cases ha
  | cons b bs ih =>
    obtain ⟨hb, hbs⟩ := h
    rw [total_cons]
    cases List.mem_cons.mp ha with
    | inl he =>
      rw [he, hb]
      omega
    | inr hin =>
      have hle := ih _ hbs hin
      omega

/-- Consecutive intervals are ordered as the list is and do not overlap. -/
theorem pairwise_of_consecutive (start : Nat) (as : List α) (h : Consecutive off len start as) :
    as.Pairwise (fun a b => off a + len a ≤ off b) := by
  induction as generalizing start with
  | nil => exact List.Pairwise.nil
  | cons a as ih =>
    obtain ⟨ha, has⟩ := h
    refine List.Pairwise.cons ?_ (ih _ has)
    intro b hb
    rw [ha]
    exact le_of_mem_consecutive off len _ as has b hb

theorem mem_consecutive_iff (start : Nat) (as : List α) (h : Consecutive off len start as)
    (i : Nat) :
    (∃ a ∈ as, off a ≤ i ∧ i < off a + len a) ↔ start ≤ i ∧ i < start + total len as := by
  induction as generalizing start with
  | nil => simp
  | cons a as ih =>
    obtain ⟨ha, has⟩ := h
    simp only [List.mem_cons, exists_eq_or_imp, ih _ has, ha, total_cons]
    omega

/-- Consecutive intervals from zero on leave no gap below their total length. -/
theorem tiles_iff (as : List α) (h : Consecutive off len 0 as) (n : Nat) :
    Tiles off len as n ↔ n = total len as := by
  have hmem := mem_consecutive_iff off len 0 as h
  constructor
  · intro ht
    have hn : ∀ i, i < n ↔ i < total len as := by
      intro i
      rw [← ht i, hmem i]
      omega
    have h1 := hn n
    have h2 := hn (total len as)
    omega
  · rintro rfl i
    rw [hmem i]
    omega

end NodeMcu.Lib.Intervals
