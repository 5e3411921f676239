import Mathlib.Data.List.Nodup
import Mathlib.Logic.Function.Basic

namespace NodeMcu.Lib.Table

variable {κ ε : Type} [DecidableEq κ] (key : ε → κ)

/-- The first entry with the key. -/
def lookup (k : κ) (es : List ε) : Option ε := es.find? fun e => key e = k

/-- Changes the first entry with the key. -/
def update (f : ε → ε) (k : κ) : List ε → List ε
  | [] => []
  | e :: es => if key e = k then f e :: es else e :: update f k es

@[simp] theorem lookup_nil (k : κ) : lookup key k [] = none := rfl

theorem lookup_cons (k : κ) (e : ε) (es : List ε) :
    lookup key k (e :: es) = if key e = k then some e else lookup key k es := by
  by_cases h : key e = k
  · simp [lookup, h]
  · simp [lookup, h]

theorem lookup_eq_none (k : κ) (es : List ε) : lookup key k es = none ↔ k ∉ es.map key := by
  simp [lookup]

theorem lookup_mem (k : κ) (es : List ε) (e : ε) (h : lookup key k es = some e) :
    e ∈ es ∧ key e = k :=
  ⟨List.mem_of_find?_eq_some h, by simpa using List.find?_some h⟩

theorem lookup_of_mem (k : κ) (es : List ε) (e : ε) (hn : (es.map key).Nodup) (he : e ∈ es)
    (hk : key e = k) : lookup key k es = some e := by
  cases hl : lookup key k es with
  | none => exact absurd (List.mem_map.mpr ⟨e, he, hk⟩) ((lookup_eq_none key k es).mp hl)
  | some e' =>
    obtain ⟨he', hk'⟩ := lookup_mem key k es e' hl
    rw [List.inj_on_of_nodup_map hn he' he (hk'.trans hk.symm)]

theorem lookup_append (k : κ) (es fs : List ε) :
    lookup key k (es ++ fs) = (lookup key k es).or (lookup key k fs) := by
  simp [lookup, List.find?_append]

theorem update_id (f : ε → ε) (k : κ) (es : List ε) (h : ∀ e, f e = e) :
    update key f k es = es := by
  induction es with
  | nil => rfl
  | cons e es ih => rw [update, h, ih, ite_self]

@[simp] theorem length_update (f : ε → ε) (k : κ) (es : List ε) :
    (update key f k es).length = es.length := by
  induction es with
  | nil => rfl
  | cons e es ih =>
    rw [update]
    split
    · rfl
    · rw [List.length_cons, ih, List.length_cons]

/-- What the change of an entry leaves alone stays the same in the whole table. -/
theorem map_update {β : Type} (g : ε → β) (f : ε → ε) (k : κ) (es : List ε)
    (h : ∀ e, g (f e) = g e) : (update key f k es).map g = es.map g := by
  induction es with
  | nil => rfl
  | cons e es ih =>
    rw [update]
    split
    · rw [List.map_cons, List.map_cons, h]
    · rw [List.map_cons, List.map_cons, ih]

theorem lookup_update (f : ε → ε) (k k' : κ) (es : List ε) (hf : ∀ e, key (f e) = key e) :
    lookup key k' (update key f k es) =
      if k' = k then (lookup key k es).map f else lookup key k' es := by
  induction es with
  | nil => simp [update]
  | cons e es ih =>
    rw [update]
    by_cases he : key e = k
    · rw [if_pos he, lookup_cons, lookup_cons, lookup_cons, hf, he]
      by_cases hk : k' = k
      · rw [if_pos hk.symm, if_pos hk, if_pos rfl, Option.map_some]
      · rw [if_neg (Ne.symm hk), if_neg hk, if_neg (Ne.symm hk)]
    · rw [if_neg he, lookup_cons, ih, lookup_cons, lookup_cons, if_neg he]
      by_cases hk : k' = k
      · rw [if_neg (hk ▸ he), if_pos hk, if_pos hk]
      · rw [if_neg hk, if_neg hk]

/-- A search that yields the place of an entry finds the entry that a lookup finds, and a change
there is a change of that entry. -/
theorem findIdx_spec (k : κ) (i : Nat) (es : List ε)
    (h : es.findIdx? (fun e => key e = k) = some i) :
    ∃ e, es[i]? = some e ∧ lookup key k es = some e ∧ ∀ f, update key f k es = es.set i (f e) := by
  induction es generalizing i with
  | nil => cases h
  | cons e es ih =>
    rw [List.findIdx?_cons] at h
    by_cases he : key e = k
    · rw [if_pos (decide_eq_true he)] at h
      cases h
      exact ⟨e, rfl, by rw [lookup_cons, if_pos he], fun f => by rw [update, if_pos he]; rfl⟩
    · rw [if_neg (by simpa using he)] at h
      obtain ⟨j, hj, rfl⟩ := Option.map_eq_some_iff.mp h
      obtain ⟨e', h1, h2, h3⟩ := ih j hj
      exact ⟨e', h1, by rw [lookup_cons, if_neg he, h2], fun f => by
        rw [update, if_neg he, h3]; rfl⟩

theorem findIdx_eq_none (k : κ) (es : List ε) :
    es.findIdx? (fun e => key e = k) = none ↔ lookup key k es = none := by
  rw [List.findIdx?_eq_none_iff, lookup, List.find?_eq_none]
  simp

section filled

variable {ι α : Type} (k : ι → κ) (v : ι → α)

/-- A loop over indices leaves the other entries of a table alone. -/
theorem filled_other (t : κ → α) (x : κ) (is : List ι) (h : x ∉ is.map k) :
    is.foldl (fun t i => Function.update t (k i) (v i)) t x = t x := by
  induction is generalizing t with
  | nil => rfl
  | cons i is ih =>
    rw [List.map_cons, List.mem_cons, not_or] at h
    rw [List.foldl_cons, ih _ h.2, Function.update_of_ne h.1]

theorem filled_entry (t : κ → α) (i : ι) (is : List ι) (hn : (is.map k).Nodup) (hi : i ∈ is) :
    is.foldl (fun t i => Function.update t (k i) (v i)) t (k i) = v i := by
  induction is generalizing t with
  | nil => cases hi
  | cons j is ih =>
    rw [List.map_cons, List.nodup_cons] at hn
    rw [List.foldl_cons]
    rcases List.mem_cons.mp hi with rfl | hi
    · rw [filled_other k v _ _ is hn.1, Function.update_self]
    · exact ih _ hn.2 hi

end filled

end NodeMcu.Lib.Table
