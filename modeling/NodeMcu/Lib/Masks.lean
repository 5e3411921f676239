import Mathlib.Data.List.Basic

namespace NodeMcu.Lib.Masks

/-! ## Bit masks as sets of bits -/

variable {w : Nat} {a b m n u : BitVec w} {masks before after : List (BitVec w)}

theorem and_eq_zero_iff : a &&& b = 0 ↔ ∀ i, a.getLsbD i = true → b.getLsbD i = false := by
  constructor
  · intro h i ha
    have hbit := congrArg (·.getLsbD i) h
    simpa [ha] using hbit
  · intro h
    refine BitVec.eq_of_getLsbD_eq fun i hi => ?_
    cases ha : a.getLsbD i with
    | false => simp [ha]
    | true => simp [ha, h i ha]

def union (masks : List (BitVec w)) : BitVec w := masks.foldr (· ||| ·) 0

/-- No two of the masks have a bit in common. -/
def Apart (masks : List (BitVec w)) : Prop := masks.Pairwise fun a b => a &&& b = 0

theorem getLsbD_union {i : Nat} :
    (union masks).getLsbD i = true ↔ ∃ m ∈ masks, m.getLsbD i = true := by
  induction masks with
  | nil => simp [union]
  | cons m masks ih =>
    rw [union, List.foldr_cons, BitVec.getLsbD_or, Bool.or_eq_true, List.exists_mem_cons_iff]
    exact or_congr_right ih

theorem and_union_eq_zero_iff : m &&& union masks = 0 ↔ ∀ n ∈ masks, m &&& n = 0 := by
  simp only [and_eq_zero_iff, Bool.eq_false_iff, ne_eq, getLsbD_union]
  constructor
  · intro h n hn i hm hni
    exact h i hm ⟨n, hn, hni⟩
  · rintro h i hm ⟨n, hn, hni⟩
    exact h n hn i hm hni

theorem union_middle : union (before ++ m :: after) = m ||| union (before ++ after) := by
  refine BitVec.eq_of_getLsbD_eq fun i _ => ?_
  rw [Bool.eq_iff_iff, getLsbD_union, BitVec.getLsbD_or, Bool.or_eq_true, getLsbD_union]
  simp only [List.mem_append, List.mem_cons]
  grind

theorem apart_middle : Apart (before ++ m :: after) ↔
    Apart (before ++ after) ∧ m &&& union (before ++ after) = 0 := by
  rw [Apart, Apart, and_union_eq_zero_iff, List.pairwise_middle (fun h => by rwa [BitVec.and_comm]),
    List.pairwise_cons, and_comm]

/-- What is apart from a mask is left without it. -/
theorem or_and_not (h : m &&& u = 0) : (m ||| u) &&& ~~~m = u := by
  rw [and_eq_zero_iff] at h
  refine BitVec.eq_of_getLsbD_eq fun i hi => ?_
  have hbit := h i
  cases hm : m.getLsbD i <;> simp_all

theorem or_left_inj (hm : m &&& u = 0) (hn : n &&& u = 0) : m ||| u = n ||| u ↔ m = n := by
  refine ⟨fun h => ?_, fun h => h ▸ rfl⟩
  rw [and_eq_zero_iff] at hm hn
  refine BitVec.eq_of_getLsbD_eq fun i _ => ?_
  have hbit := congrArg (·.getLsbD i) h
  have hmi := hm i
  have hni := hn i
  simp only [BitVec.getLsbD_or] at hbit
  cases h1 : m.getLsbD i <;> cases h2 : n.getLsbD i <;> simp_all

end NodeMcu.Lib.Masks
