import Mathlib.Data.List.Basic
import NodeMcu.CompMsg.TypesAndNames
import NodeMcu.Lib.Table

namespace NodeMcu.CompMsg.NameTable

open NodeMcu.Lib.Table
open NodeMcu.CompMsg.Codes NodeMcu.CompMsg.TypesAndNames

def nameEntries (s : CompMsgTypesAndNames) : List FieldName := s.names.getD []

/-- The entry of a name. -/
def known (s : CompMsgTypesAndNames) (n : String) : Option FieldName :=
  lookup FieldName.fieldName (some n) (nameEntries s)

/-- The table as long as names are only added: no entry is free and the ids count up. -/
structure Filled (s : CompMsgTypesAndNames) : Prop where
  count : (nameEntries s).length = s.numNames
  alloc : s.names = none → s.maxNames = 0
  room : s.numNames ≤ s.maxNames
  small : s.numNames ≤ 255
  ids : (nameEntries s).map FieldName.fieldNameId = List.range' 1 s.numNames
  keys : ∀ k ∈ (nameEntries s).map FieldName.fieldName, ∃ n, k = some n ∧ isSpecial n = false
  nodup : ((nameEntries s).map FieldName.fieldName).Nodup
  inBounds : s.inBounds = true
  descFields : s.numMsgDescFields = numSpecFieldIds + 1 + s.numNames
  valFields : s.numMsgValFields = numSpecFieldIds + 1 + s.numNames

theorem init_filled : Filled initTypesAndNames :=
  ⟨rfl, fun _ => rfl, Nat.le_refl _, by decide, rfl, nofun, List.nodup_nil, rfl, rfl, rfl⟩

theorem filled_entries (s : CompMsgTypesAndNames) (h : Filled s) :
    entries s = some (nameEntries s) := by
  by_cases h0 : s.numNames = 0
  · have hnil : nameEntries s = [] := List.length_eq_zero_iff.mp (h.count.trans h0)
    rw [entries, if_pos h0, hnil]
  · rw [entries, if_neg h0]
    cases hs : s.names with
    | none =>
      have h1 := h.alloc hs
      have h2 := h.room
      omega
    | some es => rw [nameEntries, hs, Option.getD_some]

theorem names_of_known (s : CompMsgTypesAndNames) (n : String) (e : FieldName)
    (h : known s n = some e) :
    s.names = some (nameEntries s) := by
  cases hs : s.names with
  | none =>
    rw [known, nameEntries, hs] at h
    cases h
  | some es => rw [nameEntries, hs, Option.getD_some]

theorem mapped_names (s : CompMsgTypesAndNames) :
    s.names.map (fun _ => nameEntries s) = s.names := by
  cases hs : s.names with
  | none => rfl
  | some es => rw [nameEntries, hs, Option.getD_some, Option.map_some]

theorem countEntry_pos (k : Int) (e : FieldName) (hk : 0 < k) :
    countEntry k e = { e with refCnt := (e.refCnt + 1) % 256 } := by
  rw [countEntry, if_neg (by omega), if_pos hk]

theorem searchNames_found (n : String) (k : Int) (nameIdx : Nat) (firstFree : Option Nat)
    (es : List FieldName) (e : FieldName)
    (hids : es.map FieldName.fieldNameId = List.range' (nameIdx + 1) es.length)
    (hsmall : nameIdx + es.length ≤ 255)
    (he : lookup FieldName.fieldName (some n) es = some e) :
    searchNames n k nameIdx firstFree es =
      ⟨update FieldName.fieldName (countEntry k) (some n) es, some (countEntry k e).fieldNameId,
        firstFree⟩ := by
  induction es generalizing nameIdx with
  | nil => cases he
  | cons a es ih =>
    rw [List.map_cons, List.length_cons, List.range'_succ, List.cons.injEq] at hids
    rw [List.length_cons] at hsmall
    rw [lookup_cons] at he
    rw [searchNames, update]
    by_cases ha : a.fieldName = some n
    · rw [if_pos ha] at he ⊢
      rw [Option.some.injEq] at he
      rw [if_pos ha, he]
    · rw [if_neg ha] at he ⊢
      have hne : es ≠ [] := by
        rintro rfl
        cases he
      have hpos := List.length_pos_iff.mpr hne
      have hid : a.fieldNameId ≠ freeFieldId := by
        rw [hids.1, freeFieldId]
        omega
      have hrest := ih (nameIdx + 1) hids.2 (by omega) he
      simp only [hid, false_and, and_false, if_false, ha, hrest]

/-- A name that is missing changes no entry. The id of the last entry of a full table is the one of
a free entry. -/
theorem searchNames_missing (n : String) (k : Int) (nameIdx : Nat) (firstFree : Option Nat)
    (es : List FieldName)
    (hids : es.map FieldName.fieldNameId = List.range' (nameIdx + 1) es.length)
    (hsmall : nameIdx + es.length ≤ 255)
    (he : lookup FieldName.fieldName (some n) es = none) :
    searchNames n k nameIdx firstFree es =
      ⟨es, none, if k = incr ∧ firstFree = none ∧ es ≠ [] ∧ nameIdx + es.length = 255
        then some 254 else firstFree⟩ := by
  induction es generalizing nameIdx firstFree with
  | nil => simp [searchNames]
  | cons a es ih =>
    rw [List.map_cons, List.length_cons, List.range'_succ, List.cons.injEq] at hids
    rw [List.length_cons] at hsmall ⊢
    rw [lookup_cons] at he
    rw [searchNames]
    by_cases ha : a.fieldName = some n
    · rw [if_pos ha] at he
      cases he
    · rw [if_neg ha] at he ⊢
      by_cases hlast : nameIdx + 1 = 255
      · have hnil : es = [] := List.length_eq_zero_iff.mp (by omega)
        have hidx : nameIdx = 254 := by omega
        have hid : a.fieldNameId = 255 := by rw [hids.1, hlast]
        subst hnil hidx
        by_cases hf : k = incr ∧ firstFree = none
        · simp [searchNames, hf, freeFieldId, ← hid]
        · have hf' : ¬(k = incr ∧ a.fieldNameId = freeFieldId ∧ firstFree = none) :=
            fun h => hf ⟨h.1, h.2.2⟩
          simp only [hf', if_false, searchNames]
          rw [if_neg fun h => hf ⟨h.1, h.2.1⟩]
      · have hid : a.fieldNameId ≠ freeFieldId := by
          rw [hids.1, freeFieldId]
          exact hlast
        have hrest := ih (nameIdx + 1) firstFree hids.2 (by omega) he
        have hends : (es ≠ [] ∧ nameIdx + 1 + es.length = 255) ↔
            (a :: es ≠ [] ∧ nameIdx + (es.length + 1) = 255) := by
          rw [← List.length_pos_iff]
          constructor
          · rintro ⟨-, h⟩
            exact ⟨List.cons_ne_nil _ _, by omega⟩
          · rintro ⟨-, h⟩
            exact ⟨by omega, by omega⟩
        simp only [hid, false_and, and_false, if_false, hrest, hends]

/-- The table with the entry of the name counted. -/
def counted (k : Int) (n : String) (s : CompMsgTypesAndNames) : CompMsgTypesAndNames :=
  { s with
    names := some (update FieldName.fieldName (countEntry k) (some n) (nameEntries s)) }

/-- The table with an entry for the name behind the others. -/
def added (n : String) (s : CompMsgTypesAndNames) : CompMsgTypesAndNames :=
  { numNames := s.numNames + 1
    maxNames := s.maxNames
    names := some (nameEntries s ++ [⟨some n, (s.numNames + 1) % 256, 1⟩])
    numMsgDescFields := (s.numMsgDescFields + 1) % 65536
    numMsgValFields := (s.numMsgValFields + 1) % 65536
    inBounds := s.inBounds && decide (s.numNames < s.maxNames) }

/-- The table with the name in the place of the last one of a full table. -/
def renamed (n : String) (s : CompMsgTypesAndNames) : CompMsgTypesAndNames :=
  { s with names := s.names.map fun es =>
      es.modify 254 fun e => { e with refCnt := 1, fieldName := some n } }

theorem countEntry_zero (e : FieldName) : countEntry 0 e = e := rfl

theorem counted_zero (n : String) (s : CompMsgTypesAndNames) (e : FieldName)
    (he : known s n = some e) :
    counted 0 n s = s := by
  rw [counted, update_id FieldName.fieldName _ _ _ countEntry_zero, ← names_of_known s n e he]

theorem known_id (s : CompMsgTypesAndNames) (h : Filled s) (n : String) (e : FieldName)
    (he : known s n = some e) : 1 ≤ e.fieldNameId ∧ e.fieldNameId ≤ s.numNames := by
  have hmem := List.mem_map_of_mem (f := FieldName.fieldNameId)
    (lookup_mem FieldName.fieldName _ _ _ he).1
  rw [h.ids, List.mem_range'_1] at hmem
  omega

theorem findName_known (heap : Heap) (n : String) (k : Int) (s : CompMsgTypesAndNames)
    (e : FieldName)
    (h : Filled s) (he : known s n = some e) :
    findName heap n k s =
      (.ok, some (offsetId (countEntry k e).fieldNameId), counted k n s) := by
  have hc := h.count
  have hs := h.small
  have hsearch := searchNames_found n k 0 none (nameEntries s) e (by rw [h.ids, hc])
    (by omega) he
  rw [findName, filled_entries s h]
  simp only [hsearch, names_of_known s n e he, Option.map_some, counted]

theorem findName_missing (heap : Heap) (n : String) (k : Int) (s : CompMsgTypesAndNames)
    (h : Filled s) (he : known s n = none) :
    findName heap n k s =
      if k < 0 then (.ok, none, s)
      else if k = 0 then (.error .fieldNotFound, none, s)
      else if k = incr ∧ s.numNames = 255 then reuseEntry 254 n s
      else addEntry heap n s := by
  have hc := h.count
  have hs := h.small
  have hsearch := searchNames_missing n k 0 none (nameEntries s) (by rw [h.ids, hc])
    (by omega) he
  have hfull : (k = incr ∧ (none : Option Nat) = none ∧ nameEntries s ≠ [] ∧
      0 + (nameEntries s).length = 255) = (k = incr ∧ s.numNames = 255) := by
    rw [hc, ← List.length_pos_iff, hc, eq_iff_iff]
    constructor
    · rintro ⟨h1, -, -, h2⟩
      exact ⟨h1, by omega⟩
    · rintro ⟨h1, h2⟩
      exact ⟨h1, rfl, by omega, by omega⟩
  have hfree : (if k = incr ∧ (none : Option Nat) = none ∧ nameEntries s ≠ [] ∧
      0 + (nameEntries s).length = 255 then some 254 else none) =
      if k = incr ∧ s.numNames = 255 then some 254 else none := by
    congr 1
  rw [hfree] at hsearch
  rw [findName, filled_entries s h]
  simp only [hsearch, mapped_names]
  by_cases hf : k = incr ∧ s.numNames = 255
  · simp only [if_pos hf]
  · simp only [if_neg hf]

theorem addEntry_eq (heap : Heap) (n : String) (s : CompMsgTypesAndNames)
    (hn : s.names = some (nameEntries s)) (hd : heap.descInfos = true)
    (hv : heap.valInfos = true) :
    addEntry heap n s = (.ok, some (offsetId ((s.numNames + 1) % 256)), added n s) := by
  simp only [addEntry, addMsgFieldDescInfos, addMsgFieldValInfos, hd, hv, if_true, checkErrOK_ok,
    hn, added]

theorem addEntry_error (heap : Heap) (n : String) (s : CompMsgTypesAndNames)
    (hh : ¬(heap.descInfos = true ∧ heap.valInfos = true)) :
    (addEntry heap n s).1 = .error .outOfMemory := by
  cases hd : heap.descInfos with
  | false =>
    simp [addEntry, addMsgFieldDescInfos, hd]
  | true =>
    have hv : heap.valInfos = false := by
      cases hv : heap.valInfos with
      | false => rfl
      | true => exact absurd ⟨hd, hv⟩ hh
    simp [addEntry, addMsgFieldDescInfos, addMsgFieldValInfos, hd, hv]

theorem counted_filled (k : Int) (n : String) (s : CompMsgTypesAndNames) (h : Filled s)
    (hk : 0 < k) :
    Filled (counted k n s) := by
  have hkeys : (nameEntries (counted k n s)).map FieldName.fieldName =
      (nameEntries s).map FieldName.fieldName :=
    map_update FieldName.fieldName FieldName.fieldName _ _ _ fun e => by rw [countEntry_pos k e hk]
  have hids : (nameEntries (counted k n s)).map FieldName.fieldNameId =
      (nameEntries s).map FieldName.fieldNameId :=
    map_update FieldName.fieldName FieldName.fieldNameId _ _ _ fun e => by
      rw [countEntry_pos k e hk]
  exact {
    count := (length_update FieldName.fieldName _ _ _).trans h.count
    alloc := fun hnone => (nomatch hnone)
    room := h.room
    small := h.small
    ids := hids.trans h.ids
    keys := by rw [hkeys]; exact h.keys
    nodup := by rw [hkeys]; exact h.nodup
    inBounds := h.inBounds
    descFields := h.descFields
    valFields := h.valFields }

theorem added_filled (n : String) (s : CompMsgTypesAndNames) (h : Filled s)
    (hn : isSpecial n = false)
    (hmissing : known s n = none) (hroom : s.numNames < s.maxNames) (hsmall : s.numNames < 255) :
    Filled (added n s) := by
  have hd := h.descFields
  have hv := h.valFields
  have hkeys : (nameEntries (added n s)).map FieldName.fieldName =
      (nameEntries s).map FieldName.fieldName ++ [some n] := List.map_append
  exact {
    count := by
      rw [show nameEntries (added n s) = nameEntries s ++ _ from rfl, List.length_append, h.count]
      rfl
    alloc := fun hnone => (nomatch hnone)
    room := hroom
    small := hsmall
    ids := by
      rw [show nameEntries (added n s) = nameEntries s ++ _ from rfl, List.map_append, h.ids]
      rw [show (added n s).numNames = s.numNames + 1 from rfl, List.range'_concat]
      rw [List.map_singleton, Nat.mod_eq_of_lt (by omega), Nat.one_mul, Nat.add_comm 1]
    keys := by
      rw [hkeys]
      intro k hk
      obtain hk | hk := List.mem_append.mp hk
      · exact h.keys k hk
      · exact ⟨n, List.mem_singleton.mp hk, hn⟩
    nodup := by
      rw [hkeys, ← List.concat_eq_append]
      exact List.Nodup.concat ((lookup_eq_none _ _ _).mp hmissing) h.nodup
    inBounds := by
      rw [show (added n s).inBounds = (s.inBounds && decide (s.numNames < s.maxNames)) from rfl,
        h.inBounds, decide_eq_true hroom]
      rfl
    descFields := by
      rw [numSpecFieldIds] at hd ⊢
      show (s.numMsgDescFields + 1) % 65536 = 55 + 1 + (s.numNames + 1)
      omega
    valFields := by
      rw [numSpecFieldIds] at hv ⊢
      show (s.numMsgValFields + 1) % 65536 = 55 + 1 + (s.numNames + 1)
      omega }

/-- A full table loses its last name. -/
theorem renamed_entries (n : String) (s : CompMsgTypesAndNames) (h : Filled s)
    (hfull : s.numNames = 255) :
    ∃ es e, nameEntries s = es ++ [e] ∧
      nameEntries (renamed n s) = es ++ [{ e with refCnt := 1, fieldName := some n }] := by
  have hc := h.count
  obtain ⟨es, e, es', hes, hlen, hmod⟩ := List.exists_of_modify
    (fun e : FieldName => { e with refCnt := 1, fieldName := some n }) (i := 254)
    (l := nameEntries s) (by omega)
  have hnil : es' = [] := by
    rw [hes, List.length_append, List.length_cons] at hc
    exact List.length_eq_zero_iff.mp (by omega)
  subst hnil
  refine ⟨es, e, hes, ?_⟩
  rw [← hmod, nameEntries, nameEntries, renamed]
  cases s.names with
  | none => rfl
  | some es => rfl

theorem renamed_filled (n : String) (s : CompMsgTypesAndNames) (h : Filled s)
    (hn : isSpecial n = false)
    (hmissing : known s n = none) (hfull : s.numNames = 255) : Filled (renamed n s) := by
  obtain ⟨es, e, hes, hnew⟩ := renamed_entries n s h hfull
  have hkeys := h.keys
  have hnodup := h.nodup
  have hids := h.ids
  have hcount := h.count
  have hnot := (lookup_eq_none _ _ _).mp hmissing
  rw [hes, List.map_append] at hkeys hnodup hids hnot
  rw [hes] at hcount
  exact {
    count := by
      rw [hnew, List.length_append]
      rwa [List.length_append] at hcount
    alloc := fun hnone => h.alloc (Option.map_eq_none_iff.mp hnone)
    room := h.room
    small := h.small
    ids := by
      rw [hnew, List.map_append]
      exact hids
    keys := by
      rw [hnew, List.map_append]
      intro k hk
      obtain hk | hk := List.mem_append.mp hk
      · exact hkeys k (List.mem_append_left _ hk)
      · exact ⟨n, List.mem_singleton.mp hk, hn⟩
    nodup := by
      rw [hnew, List.map_append]
      have h1 := List.Nodup.concat (fun hm => hnot (List.mem_append_left _ hm))
        (List.Nodup.of_append_left hnodup)
      rwa [List.concat_eq_append] at h1
    inBounds := h.inBounds
    descFields := h.descFields
    valFields := h.valFields }

theorem known_counted (k : Int) (n m : String) (s : CompMsgTypesAndNames) (hk : 0 < k) :
    known (counted k n s) m =
      if m = n then (known s n).map (countEntry k) else known s m := by
  have h := lookup_update FieldName.fieldName (countEntry k) (some n) (some m) (nameEntries s)
    fun e => by rw [countEntry_pos k e hk]
  by_cases hm : m = n
  · rw [if_pos hm]
    rwa [if_pos (congrArg some hm)] at h
  · rw [if_neg hm]
    rwa [if_neg fun heq => hm (Option.some.inj heq)] at h

theorem known_added (n m : String) (s : CompMsgTypesAndNames) (hmissing : known s n = none) :
    known (added n s) m =
      if m = n then some ⟨some n, (s.numNames + 1) % 256, 1⟩ else known s m := by
  have h := lookup_append FieldName.fieldName (some m) (nameEntries s)
    [⟨some n, (s.numNames + 1) % 256, 1⟩]
  rw [lookup_cons, lookup_nil] at h
  by_cases hm : m = n
  · subst hm
    rw [if_pos rfl]
    rw [show lookup FieldName.fieldName (some m) (nameEntries s) = none from hmissing,
      if_pos rfl] at h
    exact h
  · rw [if_neg hm]
    rw [if_neg fun heq => hm (Option.some.inj heq).symm, Option.or_none] at h
    exact h

/-- What a call with enough memory makes of the table in front of the search. -/
theorem growNames_spec (heap : Heap) (s : CompMsgTypesAndNames) (h : Filled s)
    (hheap : s.maxNames ≤ s.numNames → heap.names = true) :
    ∃ g, growNames heap s = (.ok (), g) ∧ Filled g ∧ g.names = some (nameEntries g) ∧
      nameEntries g = nameEntries s ∧ g.numNames = s.numNames ∧ g.numNames < g.maxNames := by
  by_cases hgrow : s.maxNames ≤ s.numNames
  · have hroom := h.room
    have hnew : nameEntries s = s.names.getD (List.replicate s.numNames ⟨none, 0, 0⟩) := by
      cases hs : s.names with
      | none =>
        have h0 := h.alloc hs
        rw [nameEntries, hs, show s.numNames = 0 by omega]
        rfl
      | some es => rw [nameEntries, hs, Option.getD_some, Option.getD_some]
    rw [growNames, if_pos hgrow, if_pos (hheap hgrow), ← hnew]
    refine ⟨_, rfl, ?_, rfl, rfl, rfl, ?_⟩
    · exact {
        count := h.count
        alloc := fun hnone => (nomatch hnone)
        room := by
          dsimp only
          split
          · omega
          · omega
        small := h.small
        ids := h.ids
        keys := h.keys
        nodup := h.nodup
        inBounds := h.inBounds
        descFields := h.descFields
        valFields := h.valFields }
    · dsimp only
      split
      · omega
      · omega
  · rw [growNames, if_neg hgrow]
    refine ⟨s, rfl, h, ?_, rfl, rfl, by omega⟩
    cases hs : s.names with
    | none =>
      have h0 := h.alloc hs
      omega
    | some es => rw [nameEntries, hs, Option.getD_some]

theorem growNames_error (heap : Heap) (s : CompMsgTypesAndNames) (hgrow : s.maxNames ≤ s.numNames)
    (hheap : heap.names ≠ true) : (growNames heap s).1 = .error .outOfMemory := by
  rw [growNames, if_pos hgrow, if_neg hheap]

theorem getFieldNameIdFromStr_noIncr (heap : Heap) (s : CompMsgTypesAndNames) (n : String)
    (hn : isSpecial n = false) : getFieldNameIdFromStr heap s n noIncr = findName heap n 0 s := by
  simp [getFieldNameIdFromStr, hn, noIncr, incr]

/-- The parameter turns the code for taking away into 255. -/
theorem getFieldNameIdFromStr_decr (heap : Heap) (s : CompMsgTypesAndNames) (n : String)
    (hn : isSpecial n = false) : getFieldNameIdFromStr heap s n decr = findName heap n 255 s := by
  simp [getFieldNameIdFromStr, hn, decr, incr]

theorem getFieldNameIdFromStr_incr (heap : Heap) (s g : CompMsgTypesAndNames) (n : String)
    (hn : isSpecial n = false) (hg : growNames heap s = (.ok (), g)) :
    getFieldNameIdFromStr heap s n incr = findName heap n 1 g := by
  simp [getFieldNameIdFromStr, hn, incr, hg]

end NodeMcu.CompMsg.NameTable
