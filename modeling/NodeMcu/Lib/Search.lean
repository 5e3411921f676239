import Mathlib.Data.List.Infix
import Mathlib.Data.Nat.Find

namespace NodeMcu.Lib.Search

variable {α : Type} [DecidableEq α]

/-- The rest of a text from the first place on where a pattern stands. -/
def search (pattern : List α) : List α → Option (List α)
  | [] => if pattern = [] then some [] else none
  | x :: xs => if pattern <+: x :: xs then some (x :: xs) else search pattern xs

omit [DecidableEq α] in
/-- The pattern stands at a place. -/
def StandsAt (pattern text : List α) (i : Nat) : Prop := pattern <+: text.drop i

omit [DecidableEq α] in
/-- The pattern stands at a place and nowhere before. -/
structure FirstAt (pattern text : List α) (i : Nat) : Prop where
  stands : StandsAt pattern text i
  first : ∀ j, j < i → ¬StandsAt pattern text j

instance (pattern text : List α) (i : Nat) : Decidable (StandsAt pattern text i) :=
  inferInstanceAs (Decidable (pattern <+: text.drop i))

section Places

variable {pattern text : List α} {i : Nat}

omit [DecidableEq α] in
theorem StandsAt.length_le (h : StandsAt pattern text i) :
    pattern.length ≤ text.length - i := by
  rw [← List.length_drop]
  exact List.IsPrefix.length_le h

omit [DecidableEq α] in
theorem standsAt_drop (n : Nat) :
    StandsAt pattern (text.drop n) i ↔ StandsAt pattern text (n + i) := by
  rw [StandsAt, StandsAt, List.drop_drop]

omit [DecidableEq α] in
/-- What stands in front of an end stands there without that end. -/
theorem standsAt_append (rest : List α) (hi : i + pattern.length ≤ text.length) :
    StandsAt pattern (text ++ rest) i ↔ StandsAt pattern text i := by
  rw [StandsAt, StandsAt, List.drop_append_of_le_length (by omega)]
  constructor
  · intro h
    refine List.prefix_of_prefix_length_le h (List.prefix_append _ _) ?_
    rw [List.length_drop]
    omega
  · exact fun h => h.trans (List.prefix_append _ _)

omit [DecidableEq α] in
theorem firstAt_append (rest : List α) (hi : i + pattern.length ≤ text.length) :
    FirstAt pattern (text ++ rest) i ↔ FirstAt pattern text i := by
  constructor
  · refine fun h => ⟨(standsAt_append rest hi).mp h.stands, fun j hj hs => h.first j hj ?_⟩
    exact (standsAt_append rest (by omega)).mpr hs
  · refine fun h => ⟨(standsAt_append rest hi).mpr h.stands, fun j hj hs => h.first j hj ?_⟩
    exact (standsAt_append rest (by omega)).mp hs

/-- In front of a place where the pattern stands, or there, it stands for the first time. -/
theorem exists_firstAt (h : StandsAt pattern text i) : ∃ m, m ≤ i ∧ FirstAt pattern text m := by
  have hex : ∃ m, StandsAt pattern text m := ⟨i, h⟩
  exact ⟨Nat.find hex, Nat.find_min' hex h, Nat.find_spec hex, fun j hj => Nat.find_min hex hj⟩

end Places

/-- A find is the rest of the text from the first place of the pattern on. -/
theorem search_eq_some_iff {pattern text rest : List α} : search pattern text = some rest ↔
    ∃ i, i ≤ text.length ∧ FirstAt pattern text i ∧ rest = text.drop i := by
  induction text with
  | nil =>
    rw [search, Option.ite_none_right_eq_some]
    constructor
    · rintro ⟨rfl, hrest⟩
      exact ⟨0, le_rfl, ⟨List.nil_prefix, fun j hj => absurd hj (Nat.not_lt_zero j)⟩,
        (Option.some.inj hrest).symm⟩
    · rintro ⟨i, -, hfirst, rfl⟩
      have hpattern := hfirst.stands
      rw [StandsAt, List.drop_nil] at hpattern
      exact ⟨List.prefix_nil.mp hpattern, by rw [List.drop_nil]⟩
  | cons x xs ih =>
    rw [search]
    by_cases hx : pattern <+: x :: xs
    · rw [if_pos hx]
      constructor
      · intro hrest
        exact ⟨0, Nat.zero_le _, ⟨hx, fun j hj => absurd hj (Nat.not_lt_zero j)⟩,
          (Option.some.inj hrest).symm⟩
      · rintro ⟨i, -, hfirst, rfl⟩
        cases i with
        | zero => rfl
        | succ i => exact absurd hx (hfirst.first 0 (Nat.succ_pos i))
    · rw [if_neg hx, ih]
      constructor
      · rintro ⟨i, hi, hfirst, rfl⟩
        refine ⟨i + 1, Nat.succ_le_succ hi, ⟨hfirst.stands, fun j hj => ?_⟩, rfl⟩
        cases j with
        | zero => exact hx
        | succ j => exact hfirst.first j (Nat.lt_of_succ_lt_succ hj)
      · rintro ⟨i, hi, hfirst, rfl⟩
        cases i with
        | zero => exact absurd hfirst.stands hx
        | succ i =>
          exact ⟨i, Nat.le_of_succ_le_succ hi,
            ⟨hfirst.stands, fun j hj => hfirst.first (j + 1) (Nat.succ_lt_succ hj)⟩, rfl⟩

theorem search_of_firstAt {pattern text : List α} {i : Nat} (hi : i ≤ text.length)
    (h : FirstAt pattern text i) : search pattern text = some (text.drop i) :=
  search_eq_some_iff.mpr ⟨i, hi, h, rfl⟩

/-! ## Patterns with an end of their own -/

section Infixes

variable {pattern as bs : List α} {sep : α}

omit [DecidableEq α] in
/-- What does not hold the separator lies on one of its sides. -/
theorem infix_separated (hsep : sep ∉ pattern) (h : pattern <:+: as ++ sep :: bs) :
    pattern <:+: as ∨ pattern <:+: bs := by
  obtain ⟨l, r, h⟩ := h
  rw [List.append_assoc, List.append_eq_append_iff] at h
  obtain ⟨c, rfl, h⟩ | ⟨c, rfl, h⟩ := h
  · rw [List.append_eq_append_iff] at h
    obtain ⟨x, rfl, h⟩ | ⟨x, rfl, h⟩ := h
    · left
      exact ⟨l, x, List.append_assoc l pattern x⟩
    · cases x with
      | nil =>
        left
        exact ⟨l, [], by simp only [List.append_nil]⟩
      | cons y x =>
        obtain ⟨rfl, -⟩ := List.cons.inj h
        exact absurd (List.mem_append_right c List.mem_cons_self) hsep
  · cases c with
    | nil =>
      cases pattern with
      | nil => exact Or.inl List.nil_infix
      | cons y pattern =>
        obtain ⟨rfl, -⟩ := List.cons.inj h
        exact absurd List.mem_cons_self hsep
    | cons y c =>
      obtain ⟨rfl, htail⟩ := List.cons.inj h
      right
      exact ⟨c, r, by rw [List.append_assoc]; exact htail.symm⟩

omit [DecidableEq α] in
/-- What ends with a separator lies in front of a text without it. -/
theorem infix_of_not_mem (hbs : sep ∉ bs) (h : pattern ++ [sep] <:+: as ++ bs) :
    pattern ++ [sep] <:+: as := by
  obtain ⟨l, r, h⟩ := h
  rw [List.append_eq_append_iff] at h
  obtain ⟨c, rfl, -⟩ | ⟨c, h, rfl⟩ := h
  · exact ⟨l, c, rfl⟩
  · rcases List.eq_nil_or_concat c with rfl | ⟨c, x, rfl⟩
    · exact ⟨l, [], by rw [List.append_nil, h, List.append_nil]⟩
    · rw [List.concat_eq_append] at h hbs
      rw [← List.append_assoc, ← List.append_assoc] at h
      obtain ⟨-, hx⟩ := List.append_inj' h rfl
      obtain rfl := List.singleton_inj.mp hx
      exact absurd (List.mem_append_left r (List.mem_append_right c List.mem_cons_self)) hbs

omit [DecidableEq α] in
/-- A pattern that ends with a separator it does not hold before stands first where it is
given, if it does not occur in front. -/
theorem firstAt_given (hsep : sep ∉ pattern) (has : ¬pattern ++ [sep] <:+: as) (rest : List α) :
    FirstAt (pattern ++ [sep]) (as ++ (pattern ++ [sep] ++ rest)) as.length := by
  refine ⟨?_, ?_⟩
  · rw [StandsAt, List.drop_left]
    exact List.prefix_append _ _
  · rintro j hj ⟨r, hr⟩
    rw [List.drop_append_of_le_length (Nat.le_of_lt hj)] at hr
    have hinfix : pattern ++ [sep] <:+: as.drop j → False := fun h =>
      has (h.trans (List.drop_suffix j as).isInfix)
    have hpos : 0 < (as.drop j).length := by
      rw [List.length_drop]
      omega
    generalize as.drop j = ds at hr hinfix hpos
    rw [List.append_eq_append_iff] at hr
    obtain ⟨c, rfl, -⟩ | ⟨c, hc, hr⟩ := hr
    · exact hinfix (List.prefix_append _ _).isInfix
    · rcases List.eq_nil_or_concat c with rfl | ⟨c, x, rfl⟩
      · rw [List.append_nil] at hc
        exact hinfix (hc ▸ List.infix_rfl)
      · rw [List.concat_eq_append, ← List.append_assoc] at hc
        obtain ⟨rfl, hx⟩ := List.append_inj' hc rfl
        obtain rfl := List.singleton_inj.mp hx
        rw [List.concat_eq_append, List.append_assoc, List.append_assoc c,
          List.append_eq_append_iff] at hr
        obtain ⟨x, hx, -⟩ | ⟨x, hx, hr⟩ := hr
        · have hlen := congrArg List.length hx
          rw [List.length_append, List.length_append] at hlen
          omega
        · cases x with
          | nil =>
            have hlen := congrArg List.length hx
            rw [List.length_append, List.append_nil] at hlen
            omega
          | cons y x =>
            obtain ⟨rfl, -⟩ := List.cons.inj hr
            rw [hx] at hsep
            exact hsep (List.mem_append_right c List.mem_cons_self)

end Infixes

end NodeMcu.Lib.Search
