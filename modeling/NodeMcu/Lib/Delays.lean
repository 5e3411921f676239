import Mathlib.Algebra.GroupWithZero.Nat
import Mathlib.Data.List.Perm.Basic

namespace NodeMcu.Lib.Delays

/-! ## Lists of delays

Each element of such a list keeps its delay behind the one in front of it. -/

/-- Elements with a delay that can be set, and a time at which they are due whatever their delay
says. -/
structure Delayed (α : Type) where
  delay : α → Nat
  put : Nat → α → α
  due : α → Nat
  delay_put : ∀ d a, delay (put d a) = d
  due_put : ∀ d a, due (put d a) = due a

section Delays

variable {α : Type} (D : Delayed α)

/-- The first element is due its delay after the start, each other one its delay after the one in
front of it. A delay counts units of so many time steps. -/
def Timed (unit : Nat) : Nat → List α → Prop
  | _, [] => True
  | start, a :: q => D.due a = start + unit * D.delay a ∧ Timed unit (D.due a) q

def enqueue : List α → α → List α
  | [], a => [a]
  | b :: q, a =>
    if D.delay a < D.delay b then a :: D.put (D.delay b - D.delay a) b :: q
    else b :: enqueue q (D.put (D.delay a - D.delay b) a)

/-- More delay for the first element. -/
def postpone (d : Nat) : List α → List α
  | [] => []
  | a :: q => D.put (D.delay a + d) a :: q

/-- The first element with a property leaves, and its delay goes to the one behind it. -/
def remove (p : α → Bool) : List α → List α
  | [] => []
  | a :: q => if p a then postpone D (D.delay a) q else a :: remove p q

/-- Time goes by. -/
def advance (d : Nat) : List α → List α
  | [] => []
  | a :: q => D.put (D.delay a - d) a :: q

variable {D} {unit start : Nat} {q : List α}

theorem Timed.start_le (h : Timed D unit start q) : ∀ a ∈ q, start ≤ D.due a := by
  induction q generalizing start with
  | nil => exact fun a ha => absurd ha List.not_mem_nil
  | cons b q ih =>
    obtain ⟨hb, hq⟩ := h
    intro a ha
    obtain rfl | ha := List.mem_cons.mp ha
    · omega
    · have := ih hq a ha
      omega

theorem Timed.enqueue {a : α} (h : Timed D unit start q)
    (ha : D.due a = start + unit * D.delay a) : Timed D unit start (enqueue D q a) := by
  induction q generalizing start a with
  | nil => exact ⟨ha, trivial⟩
  | cons b q ih =>
    obtain ⟨hb, hq⟩ := h
    rw [Delays.enqueue]
    split_ifs with hlt
    · obtain ⟨d, hd⟩ := Nat.exists_eq_add_of_lt hlt
      have hsub : D.delay b - D.delay a = d + 1 := by omega
      refine ⟨ha, ?_, ?_⟩
      · rw [D.due_put, D.delay_put, hb, ha, hsub, hd, Nat.add_assoc (D.delay a), Nat.mul_add]
        omega
      · rwa [D.due_put]
    · obtain ⟨d, hd⟩ := Nat.exists_eq_add_of_le (Nat.le_of_not_lt hlt)
      have hsub : D.delay a - D.delay b = d := by omega
      refine ⟨hb, ih hq ?_⟩
      rw [D.due_put, D.delay_put, hb, ha, hsub, hd, Nat.mul_add]
      omega

theorem Timed.postpone {d : Nat} (h : Timed D unit (start + unit * d) q) :
    Timed D unit start (postpone D d q) := by
  cases q with
  | nil => trivial
  | cons a q =>
    obtain ⟨ha, hq⟩ := h
    refine ⟨?_, by rwa [D.due_put]⟩
    rw [D.due_put, D.delay_put, ha, Nat.mul_add]
    omega

theorem Timed.remove (p : α → Bool) (h : Timed D unit start q) :
    Timed D unit start (remove D p q) := by
  induction q generalizing start with
  | nil => trivial
  | cons a q ih =>
    obtain ⟨ha, hq⟩ := h
    rw [Delays.remove]
    split_ifs
    · rw [ha] at hq
      exact hq.postpone
    · exact ⟨ha, ih hq⟩

theorem Timed.advance {d : Nat} (h : Timed D unit start q)
    (hhead : ∀ a ∈ q.head?, start + unit * d ≤ D.due a) (hunit : 0 < unit) :
    Timed D unit (start + unit * d) (advance D d q) := by
  cases q with
  | nil => trivial
  | cons a q =>
    obtain ⟨ha, hq⟩ := h
    have hle : unit * d ≤ unit * D.delay a := by
      have := hhead a rfl
      omega
    obtain ⟨e, he⟩ := Nat.exists_eq_add_of_le (Nat.le_of_mul_le_mul_left hle hunit)
    refine ⟨?_, by rwa [D.due_put]⟩
    rw [D.due_put, D.delay_put, ha, he, Nat.add_sub_cancel_left, Nat.mul_add]
    omega

theorem Timed.sum_lt {bound : Nat} (h : Timed D unit start q)
    (hdue : ∀ a ∈ q, D.due a < start + unit * bound) (hbound : 0 < bound) :
    (q.map D.delay).sum < bound := by
  induction q generalizing start bound with
  | nil => exact hbound
  | cons a q ih =>
    obtain ⟨ha, hq⟩ := h
    have hlt := hdue a List.mem_cons_self
    rw [ha] at hlt
    have hdelay := Nat.lt_of_mul_lt_mul_left (Nat.lt_of_add_lt_add_left hlt)
    obtain ⟨rest, rfl⟩ := Nat.exists_eq_add_of_le (Nat.le_of_lt hdelay)
    have hrest : (q.map D.delay).sum < rest := ih hq (fun b hb => by
      have := hdue b (List.mem_cons_of_mem a hb)
      rw [Nat.mul_add] at this
      omega) (by omega)
    rw [List.map_cons, List.sum_cons]
    omega

/-! ## Everything but the delays -/

section Map

variable {β : Type} {f : α → β} (hf : ∀ d a, f (D.put d a) = f a)
include hf

theorem map_enqueue (q : List α) (a : α) : ((enqueue D q a).map f).Perm (f a :: q.map f) := by
  induction q generalizing a with
  | nil => exact .refl _
  | cons b q ih =>
    rw [enqueue]
    split_ifs
    · rw [List.map_cons, List.map_cons, hf, List.map_cons]
    · have h := ih (D.put (D.delay a - D.delay b) a)
      rw [hf] at h
      exact (h.cons _).trans (.swap _ _ _)

theorem map_postpone (d : Nat) (q : List α) : (postpone D d q).map f = q.map f := by
  cases q with
  | nil => rfl
  | cons a q => rw [postpone, List.map_cons, hf, List.map_cons]

theorem map_advance (d : Nat) (q : List α) : (advance D d q).map f = q.map f := by
  cases q with
  | nil => rfl
  | cons a q => rw [advance, List.map_cons, hf, List.map_cons]

theorem map_remove {p : α → Bool} {q : List α} {a : α} (h : q.find? p = some a) :
    (q.map f).Perm (f a :: (remove D p q).map f) := by
  induction q with
  | nil => cases h
  | cons b q ih =>
    rw [remove]
    by_cases hp : p b = true
    · rw [List.find?_cons_of_pos hp] at h
      obtain rfl := Option.some.inj h
      rw [if_pos hp, map_postpone hf]
      exact .refl _
    · rw [List.find?_cons_of_neg hp] at h
      rw [if_neg hp]
      exact ((ih h).cons _).trans (.swap _ _ _)

end Map

theorem remove_self {p : α → Bool} {q : List α} (h : q.find? p = none) : remove D p q = q := by
  induction q with
  | nil => rfl
  | cons a q ih =>
    rw [List.find?_eq_none] at h
    rw [remove, if_neg (h a List.mem_cons_self), ih]
    exact List.find?_eq_none.mpr fun b hb => h b (List.mem_cons_of_mem a hb)

section Forall

variable {P : α → Prop} (hP : ∀ d a, P (D.put d a) ↔ P a)
include hP

theorem forall_enqueue {a : α} (ha : P a) (hq : ∀ b ∈ q, P b) : ∀ b ∈ enqueue D q a, P b := by
  intro b hb
  have hmem := (map_enqueue (fun d a => propext (hP d a)) q a).mem_iff.mp (List.mem_map_of_mem hb)
  obtain h | h := List.mem_cons.mp hmem
  · rwa [h]
  · obtain ⟨c, hc, h⟩ := List.mem_map.mp h
    rw [← h]
    exact hq c hc

theorem forall_remove (p : α → Bool) (hq : ∀ b ∈ q, P b) : ∀ b ∈ remove D p q, P b := by
  intro b hb
  cases h : q.find? p with
  | none =>
    rw [remove_self h] at hb
    exact hq b hb
  | some a =>
    have hmem := (map_remove (fun d a => propext (hP d a)) h).mem_iff.mpr
      (List.mem_cons_of_mem _ (List.mem_map_of_mem hb))
    obtain ⟨c, hc, h⟩ := List.mem_map.mp hmem
    rw [← h]
    exact hq c hc

end Forall

/-! ## The times of the elements -/

section Times

variable {β : Type} (D) (f : α → β)

/-- Each element, seen through `f`, with the time that its delay stands for. -/
def times : Nat → List α → List (Nat × β)
  | _, [] => []
  | start, a :: q => (start + D.delay a, f a) :: times (start + D.delay a) q

variable {D f}

theorem times_ge : ∀ e ∈ times D f start q, start ≤ e.1 := by
  induction q generalizing start with
  | nil => exact fun e he => absurd he List.not_mem_nil
  | cons a q ih =>
    intro e he
    obtain rfl | he := List.mem_cons.mp he
    · exact Nat.le_add_right _ _
    · exact Nat.le_trans (Nat.le_add_right _ _) (ih e he)

theorem times_sorted : ((times D f start q).map Prod.fst).Pairwise (· ≤ ·) := by
  induction q generalizing start with
  | nil => exact .nil
  | cons a q ih =>
    refine .cons (fun t ht => ?_) ih
    obtain ⟨e, he, rfl⟩ := List.mem_map.mp ht
    exact times_ge e he

theorem times_sum_lt {bound : Nat} (h : ∀ e ∈ times D f start q, e.1 < start + bound)
    (hbound : 0 < bound) : (q.map D.delay).sum < bound := by
  induction q generalizing start bound with
  | nil => exact hbound
  | cons a q ih =>
    have hdelay : start + D.delay a < start + bound := h _ List.mem_cons_self
    have hrest : (q.map D.delay).sum < bound - D.delay a := ih (fun e he => by
      have := h e (List.mem_cons_of_mem _ he)
      omega) (by omega)
    rw [List.map_cons, List.sum_cons]
    omega

theorem times_postpone (hf : ∀ d a, f (D.put d a) = f a) (d : Nat) :
    times D f start (postpone D d q) = times D f (start + d) q := by
  cases q with
  | nil => rfl
  | cons a q => rw [postpone, times, times, hf, D.delay_put, Nat.add_assoc, Nat.add_comm d]

/-- A new element comes between others, whose times stay as they are. -/
theorem times_enqueue (hf : ∀ d a, f (D.put d a) = f a) (a : α) :
    ∃ before behind, times D f start q = before ++ behind ∧
      times D f start (enqueue D q a) = before ++ (start + D.delay a, f a) :: behind := by
  induction q generalizing start a with
  | nil => exact ⟨[], [], rfl, rfl⟩
  | cons b q ih =>
    rw [enqueue]
    split_ifs with hlt
    · refine ⟨[], times D f start (b :: q), rfl, ?_⟩
      have htime : start + D.delay a + (D.delay b - D.delay a) = start + D.delay b := by omega
      rw [times, times, times, hf, D.delay_put, htime, List.nil_append]
    · obtain ⟨before, behind, hbefore, hbehind⟩ :=
        @ih (start + D.delay b) (D.put (D.delay a - D.delay b) a)
      have htime : start + D.delay b + (D.delay a - D.delay b) = start + D.delay a := by omega
      rw [hf, D.delay_put, htime] at hbehind
      refine ⟨(start + D.delay b, f b) :: before, behind, ?_, ?_⟩
      · rw [times, hbefore, List.cons_append]
      · rw [times, hbehind, List.cons_append]

/-- The first element with a property leaves, and the times of the others stay as they are. -/
theorem times_remove (hf : ∀ d a, f (D.put d a) = f a) {p : α → Bool} {r : β → Bool}
    (hp : ∀ a, r (f a) = p a) :
    ∃ before behind, times D f start q =
        before ++ (((times D f start q).find? fun e => r e.2).toList ++ behind) ∧
      times D f start (remove D p q) = before ++ behind := by
  induction q generalizing start with
  | nil => exact ⟨[], [], rfl, rfl⟩
  | cons a q ih =>
    rw [remove]
    by_cases ha : p a = true
    · refine ⟨[], times D f (start + D.delay a) q, ?_, ?_⟩
      · rw [times, List.find?_cons_of_pos (by rw [hp, ha])]
        rfl
      · rw [if_pos ha, times_postpone hf]
        rfl
    · obtain ⟨before, behind, hbefore, hbehind⟩ := @ih (start + D.delay a)
      refine ⟨(start + D.delay a, f a) :: before, behind, ?_, ?_⟩
      · rw [times, List.find?_cons_of_neg (by rw [hp]; exact ha), List.cons_append, ← hbefore]
      · rw [if_neg ha, times, hbehind, List.cons_append]

theorem times_concat (a : α) :
    times D f start (q ++ [a]) =
      times D f start q ++ [(start + ((q.map D.delay).sum + D.delay a), f a)] := by
  induction q generalizing start with
  | nil => rw [List.map_nil, List.sum_nil, Nat.zero_add]; rfl
  | cons b q ih =>
    rw [List.cons_append, times, ih, times, List.map_cons, List.sum_cons, List.cons_append,
      Nat.add_assoc start, Nat.add_assoc (D.delay b)]

/-- Behind the delays of all others an element comes last. -/
theorem enqueue_last (hput : ∀ d e a, D.put d (D.put e a) = D.put d a) (d : Nat) (a : α) :
    enqueue D q (D.put ((q.map D.delay).sum + d) a) = q ++ [D.put d a] := by
  induction q with
  | nil => rw [List.map_nil, List.sum_nil, Nat.zero_add]; rfl
  | cons b q ih =>
    have hle : ¬D.delay b + (q.map D.delay).sum + d < D.delay b := by omega
    have hsub : D.delay b + (q.map D.delay).sum + d - D.delay b = (q.map D.delay).sum + d := by
      omega
    rw [List.map_cons, List.sum_cons, enqueue, D.delay_put, if_neg hle, hput, hsub, ih,
      List.cons_append]

end Times

end Delays

end NodeMcu.Lib.Delays
