import NodeMcu.Lib.Table

namespace NodeMcu.Lib.OnceMap

open NodeMcu.Lib.Table

variable {κ ε : Type} [DecidableEq κ] (key : ε → κ)

inductive Refusal
  | duplicate
  | full
  deriving DecidableEq

/-- Adds an entry to a map of at most `cap` entries that never changes one. -/
def insert (cap : Int) (e : ε) (es : List ε) : Except Refusal (List ε) :=
  if key e ∈ es.map key then .error .duplicate
  else if cap ≤ es.length then .error .full
  else .ok (es ++ [e])

theorem insert_duplicate (cap : Int) (e : ε) (es : List ε) (h : key e ∈ es.map key) :
    insert key cap e es = .error .duplicate := if_pos h

theorem insert_full (cap : Int) (e : ε) (es : List ε) (h : key e ∉ es.map key)
    (hc : cap ≤ es.length) : insert key cap e es = .error .full := by
  rw [insert, if_neg h, if_pos hc]

theorem insert_ok (cap : Int) (e : ε) (es : List ε) (h : key e ∉ es.map key)
    (hc : es.length < cap) : insert key cap e es = .ok (es ++ [e]) := by
  rw [insert, if_neg h, if_neg (by omega)]

theorem eq_of_insert (cap : Int) (e : ε) (es fs : List ε) (h : insert key cap e es = .ok fs) :
    key e ∉ es.map key ∧ es.length < cap ∧ fs = es ++ [e] := by
  rw [insert] at h
  split at h
  · cases h
  · rename_i hk
    split at h
    · cases h
    · cases h
      exact ⟨hk, by omega, rfl⟩

omit [DecidableEq κ] in
theorem nodup_append_singleton (e : ε) (es : List ε) (h : key e ∉ es.map key)
    (hn : (es.map key).Nodup) : ((es ++ [e]).map key).Nodup := by
  rw [List.map_append, List.map_singleton]
  exact List.nodup_append.mpr ⟨hn, List.nodup_singleton _, fun a ha b hb => by
    rw [List.mem_singleton.mp hb]
    exact fun heq => h (heq ▸ ha)⟩

/-- A lookup finds what has been inserted, and what was there before. -/
theorem lookup_append_singleton (e : ε) (es : List ε) (k : κ) (h : key e ∉ es.map key) :
    lookup key k (es ++ [e]) = if k = key e then some e else lookup key k es := by
  rw [lookup_append, lookup_cons, lookup_nil]
  by_cases hk : k = key e
  · rw [if_pos hk, if_pos hk.symm, hk, (lookup_eq_none key (key e) es).mpr h]
    rfl
  · rw [if_neg hk, if_neg (Ne.symm hk), Option.or_none]

theorem lookup_insert (cap : Int) (e : ε) (es fs : List ε) (k : κ)
    (h : insert key cap e es = .ok fs) :
    lookup key k fs = if k = key e then some e else lookup key k es := by
  obtain ⟨hk, -, rfl⟩ := eq_of_insert key cap e es fs h
  exact lookup_append_singleton key e es k hk

end NodeMcu.Lib.OnceMap
