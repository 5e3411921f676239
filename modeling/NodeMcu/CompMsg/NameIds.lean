import Mathlib.Data.List.Perm.Subperm
import Mathlib.Data.List.Dedup
import Mathlib.Data.Option.Basic
import NodeMcu.CompMsg.NameTable
import NodeMcu.Lib.Run

namespace NodeMcu.CompMsg.NameIds

open NodeMcu.Lib.Run NodeMcu.Lib.Table
open NodeMcu.CompMsg.Codes NodeMcu.CompMsg.TypesAndNames NodeMcu.CompMsg.NameTable

/-- The table and the ids handed out for the names registered in it. -/
structure Registry where
  table : CompMsgTypesAndNames
  handed : List (String × Nat)

def newRegistry : Registry := ⟨initTypesAndNames, []⟩

/-- What the description parser does with a name, with memory for everything. -/
def register (r : Registry) (n : String) : Registry :=
  let g := getFieldNameIdFromStr ⟨true, true, true⟩ r.table n incr
  match g.1, g.2.1 with
  | .ok, some id => ⟨g.2.2, r.handed ++ [(n, id)]⟩
  | _, _ => ⟨g.2.2, r.handed⟩

/-- The special names, and the names registered, with their ids. -/
def idTable (r : Registry) : List (String × Nat) := specialFieldNames ++ r.handed

structure Bijective (r : Registry) : Prop where
  found : ∀ p ∈ idTable r, ∀ heap,
    getFieldNameIdFromStr heap r.table p.1 noIncr = (.ok, some p.2, r.table)
  back : ∀ p ∈ idTable r, getFieldNameStrFromId r.table p.2 = (.ok, some p.1)
  distinct : ∀ p ∈ idTable r, ∀ q ∈ idTable r, p.1 ≠ q.1 → p.2 ≠ q.2
  inTables : ∀ p ∈ idTable r, p.2 < r.table.numMsgDescFields ∧ p.2 < r.table.numMsgValFields

/-- The different names of a list that get an entry in the table. -/
def tableNames (ns : List String) : List String :=
  (ns.filter fun n => !isSpecial n).dedup

/-- What holds of every table of registered names. -/
structure Inv (r : Registry) : Prop where
  filled : Filled r.table
  special : ∀ p ∈ r.handed, isSpecial p.1 = true → p ∈ specialFieldNames
  handed : ∀ p ∈ r.handed, isSpecial p.1 = false → r.table.numNames = 255 ∨
    ∃ e, known r.table p.1 = some e ∧ p.2 = offsetId e.fieldNameId
  present : ∀ e ∈ nameEntries r.table, ∃ p ∈ r.handed, e.fieldName = some p.1

theorem newRegistry_inv : Inv newRegistry := ⟨init_filled, nofun, nofun, nofun⟩

theorem specials_special : ∀ p ∈ specialFieldNames, isSpecial p.1 = true := by decide +kernel

theorem specials_id : ∀ p ∈ specialFieldNames, 1 ≤ p.2 ∧ p.2 < numSpecFieldIds := by decide +kernel

theorem specials_find_name :
    ∀ p ∈ specialFieldNames, (specialFieldNames.find? fun e => e.1 == p.1) = some p := by
  decide +kernel

theorem specials_find_id :
    ∀ p ∈ specialFieldNames, (specialFieldNames.find? fun e => e.2 == p.2) = some p := by
  decide +kernel

theorem find_id_none (id : Nat) (h : id = 0 ∨ numSpecFieldIds ≤ id) :
    (specialFieldNames.find? fun e => e.2 == id) = none := by
  rw [List.find?_eq_none]
  intro p hp heq
  have hid := specials_id p hp
  rw [beq_iff_eq] at heq
  omega

theorem special_found (heap : Heap) (s : CompMsgTypesAndNames) (p : String × Nat) (k : Int)
    (hp : p ∈ specialFieldNames) :
    getFieldNameIdFromStr heap s p.1 k = (.ok, some p.2, s) := by
  rw [getFieldNameIdFromStr]
  simp only [specials_special p hp, if_true, specials_find_name p hp]

theorem special_back (s : CompMsgTypesAndNames) (p : String × Nat) (hp : p ∈ specialFieldNames) :
    getFieldNameStrFromId s p.2 = (.ok, some p.1) := by
  rw [getFieldNameStrFromId]
  simp only [specials_find_id p hp]

theorem known_found (heap : Heap) (s : CompMsgTypesAndNames) (n : String) (e : FieldName)
    (h : Filled s) (hn : isSpecial n = false) (he : known s n = some e) :
    getFieldNameIdFromStr heap s n noIncr = (.ok, some (offsetId e.fieldNameId), s) := by
  rw [getFieldNameIdFromStr_noIncr _ _ _ hn, findName_known _ _ _ _ e h he,
    counted_zero n s e he, countEntry_zero]

/-- The offset is taken back as long as it does not reach the special ids. -/
theorem known_back (s : CompMsgTypesAndNames) (n : String) (e : FieldName) (h : Filled s)
    (hs : s.numNames ≤ 201) (he : known s n = some e) :
    getFieldNameStrFromId s (offsetId e.fieldNameId) = (.ok, some n) := by
  have hid := known_id s h n e he
  obtain ⟨hmem, hname⟩ := lookup_mem FieldName.fieldName _ _ e he
  have hback : (offsetId e.fieldNameId + 256 - numSpecFieldIds) % 256 = e.fieldNameId := by
    rw [offsetId, numSpecFieldIds]
    omega
  have hspecial : offsetId e.fieldNameId = 0 ∨ numSpecFieldIds ≤ offsetId e.fieldNameId := by
    rw [offsetId, numSpecFieldIds]
    omega
  have hnodup : ((nameEntries s).map FieldName.fieldNameId).Nodup := by
    rw [h.ids]
    exact List.nodup_range'
  have hfind : lookup FieldName.fieldNameId e.fieldNameId (nameEntries s) = some e :=
    lookup_of_mem FieldName.fieldNameId _ _ e hnodup hmem rfl
  rw [getFieldNameStrFromId, find_id_none _ hspecial, filled_entries s h, hback]
  have hfind' : ((nameEntries s).find? fun x => x.fieldNameId == e.fieldNameId) = some e := hfind
  simp only [hfind', hname]

theorem register_special (r : Registry) (n : String) (hn : isSpecial n = true) :
    (register r n = r) ∨
      ∃ p ∈ specialFieldNames, p.1 = n ∧ register r n = ⟨r.table, r.handed ++ [p]⟩ := by
  rw [register, getFieldNameIdFromStr]
  simp only [hn, if_true]
  cases hf : specialFieldNames.find? fun e => e.1 == n with
  | none => exact .inl rfl
  | some p =>
    have hname := List.find?_some hf
    rw [beq_iff_eq] at hname
    exact .inr ⟨p, List.mem_of_find?_eq_some hf, hname, by rw [← hname]⟩

/-- The three ways a name gets its entry: it has one, it gets the next one, or it takes the last one
of a full table from another name. -/
theorem register_cases (r : Registry) (n : String) (h : Filled r.table)
    (hn : isSpecial n = false) :
    ∃ g, Filled g ∧ g.names = some (nameEntries g) ∧ nameEntries g = nameEntries r.table ∧
      g.numNames = r.table.numNames ∧
      ((∃ e, known g n = some e ∧
          register r n = ⟨counted 1 n g, r.handed ++ [(n, offsetId e.fieldNameId)]⟩) ∨
        (known g n = none ∧ g.numNames < 255 ∧ Filled (added n g) ∧
          register r n = ⟨added n g, r.handed ++ [(n, offsetId ((g.numNames + 1) % 256))]⟩) ∨
        (known g n = none ∧ g.numNames = 255 ∧
          register r n = ⟨renamed n g, r.handed ++ [(n, offsetId 255)]⟩)) := by
  obtain ⟨g, hg, hfilled, hnames, hsame, hnum, hroom⟩ :=
    growNames_spec ⟨true, true, true⟩ r.table h fun _ => rfl
  refine ⟨g, hfilled, hnames, hsame, hnum, ?_⟩
  have hsmall := hfilled.small
  rw [register, getFieldNameIdFromStr_incr _ _ g n hn hg]
  cases he : known g n with
  | some e =>
    rw [findName_known _ _ _ _ e hfilled he]
    exact .inl ⟨e, rfl, by rw [countEntry_pos 1 e (by decide)]⟩
  | none =>
    rw [findName_missing _ _ _ _ hfilled he, if_neg (by decide), if_neg (by decide)]
    by_cases hfull : g.numNames = 255
    · rw [if_pos ⟨rfl, hfull⟩]
      exact .inr (.inr ⟨rfl, hfull, rfl⟩)
    · rw [if_neg fun hboth => hfull hboth.2, addEntry_eq _ _ _ hnames rfl rfl]
      exact .inr (.inl ⟨rfl, by omega, added_filled n g hfilled hn he hroom (by omega), rfl⟩)

theorem Inv.special_append {r : Registry} (h : Inv r) (q : String × Nat)
    (hq : isSpecial q.1 = true → q ∈ specialFieldNames) :
    ∀ p ∈ r.handed ++ [q], isSpecial p.1 = true → p ∈ specialFieldNames :=
  List.forall_mem_append.mpr ⟨h.special, List.forall_mem_singleton.mpr hq⟩

theorem Inv.present_append {r : Registry} (h : Inv r) (q : String × Nat) (k : Option String)
    (hk : k ∈ (nameEntries r.table).map FieldName.fieldName) :
    ∃ p ∈ r.handed ++ [q], k = some p.1 := by
  obtain ⟨e, he, hkey⟩ := List.mem_map.mp hk
  obtain ⟨p, hp, hpe⟩ := h.present e he
  exact ⟨p, List.mem_append_left _ hp, hkey.symm.trans hpe⟩

theorem special_inv (r : Registry) (p : String × Nat) (h : Inv r) (hp : p ∈ specialFieldNames) :
    Inv ⟨r.table, r.handed ++ [p]⟩ := by
  refine ⟨h.filled, h.special_append p fun _ => hp, ?_, ?_⟩
  · refine List.forall_mem_append.mpr ⟨h.handed,
      List.forall_mem_singleton.mpr fun hspec => ?_⟩
    rw [specials_special p hp] at hspec
    cases hspec
  · intro e he
    exact h.present_append p _ (List.mem_map_of_mem he)

/-- More room for entries changes nothing for the names. -/
theorem grown_inv (r : Registry) (g : CompMsgTypesAndNames) (h : Inv r) (hg : Filled g)
    (hsame : nameEntries g = nameEntries r.table) (hnum : g.numNames = r.table.numNames) :
    Inv ⟨g, r.handed⟩ := by
  refine ⟨hg, h.special, ?_, ?_⟩
  · intro p hp hspec
    obtain hfull | ⟨e, he, hid⟩ := h.handed p hp hspec
    · exact .inl (hnum.trans hfull)
    · refine .inr ⟨e, ?_, hid⟩
      rw [known, hsame]
      exact he
  · intro e he
    exact h.present e (hsame ▸ he)

theorem counted_inv (r : Registry) (n : String) (e : FieldName) (h : Inv r)
    (hn : isSpecial n = false) (he : known r.table n = some e) :
    Inv ⟨counted 1 n r.table, r.handed ++ [(n, offsetId e.fieldNameId)]⟩ := by
  have hone : (0 : Int) < 1 := by decide
  have hsame : (nameEntries (counted 1 n r.table)).map FieldName.fieldName =
      (nameEntries r.table).map FieldName.fieldName :=
    map_update FieldName.fieldName FieldName.fieldName _ _ _ fun e => by
      rw [countEntry_pos 1 e hone]
  have hnew : known (counted 1 n r.table) n = some (countEntry 1 e) := by
    rw [known_counted 1 n n r.table hone, if_pos rfl, he, Option.map_some]
  have hid : (countEntry 1 e).fieldNameId = e.fieldNameId := by
    rw [countEntry_pos 1 e hone]
  refine ⟨counted_filled 1 n r.table h.filled hone, h.special_append _ fun hspec => ?_, ?_, ?_⟩
  · rw [hn] at hspec
    cases hspec
  · refine List.forall_mem_append.mpr ⟨fun p hp hspec => ?_,
      List.forall_mem_singleton.mpr fun _ => .inr ⟨_, hnew, ?_⟩⟩
    · obtain hfull | ⟨e', he', hid'⟩ := h.handed p hp hspec
      · exact .inl hfull
      · right
        by_cases hpn : p.1 = n
        · rw [hpn, he, Option.some.injEq] at he'
          exact ⟨_, by rw [hpn, hnew], by rw [hid, hid', he']⟩
        · exact ⟨e', by rw [known_counted 1 n p.1 r.table hone, if_neg hpn, he'], hid'⟩
    · rw [hid]
  · intro e' he'
    exact h.present_append _ _ (hsame ▸ List.mem_map_of_mem he')

theorem added_inv (r : Registry) (n : String) (h : Inv r) (hn : isSpecial n = false)
    (hmissing : known r.table n = none) (hlt : r.table.numNames < 255)
    (hadd : Filled (added n r.table)) :
    Inv ⟨added n r.table, r.handed ++ [(n, offsetId ((r.table.numNames + 1) % 256))]⟩ := by
  refine ⟨hadd, h.special_append _ fun hspec => ?_, ?_, ?_⟩
  · rw [hn] at hspec
    cases hspec
  · refine List.forall_mem_append.mpr ⟨fun p hp hspec => ?_,
      List.forall_mem_singleton.mpr fun _ => ?_⟩
    · obtain ⟨e, he, hid⟩ := (h.handed p hp hspec).resolve_left (by omega)
      have hpn : p.1 ≠ n := by
        intro heq
        rw [heq, hmissing] at he
        cases he
      exact .inr ⟨e, by rw [known_added n p.1 r.table hmissing, if_neg hpn, he], hid⟩
    · exact .inr ⟨_, by rw [known_added n n r.table hmissing, if_pos rfl], rfl⟩
  · refine List.forall_mem_append.mpr ⟨fun e he => h.present_append _ _ (List.mem_map_of_mem he),
      List.forall_mem_singleton.mpr ?_⟩
    exact ⟨_, List.mem_append_right _ (List.mem_singleton.mpr rfl), rfl⟩

/-- The name that loses its entry keeps the id it was handed: the table is full. -/
theorem renamed_inv (r : Registry) (n : String) (h : Inv r) (hn : isSpecial n = false)
    (hmissing : known r.table n = none) (hfull : r.table.numNames = 255) :
    Inv ⟨renamed n r.table, r.handed ++ [(n, offsetId 255)]⟩ := by
  obtain ⟨es, e, hes, hnew⟩ := renamed_entries n r.table h.filled hfull
  refine ⟨renamed_filled n r.table h.filled hn hmissing hfull, h.special_append _ fun hspec => ?_,
    fun _ _ _ => .inl hfull, ?_⟩
  · rw [hn] at hspec
    cases hspec
  · dsimp only
    rw [hnew]
    refine List.forall_mem_append.mpr ⟨fun e he => h.present_append _ _ ?_,
      List.forall_mem_singleton.mpr ?_⟩
    · rw [hes]
      exact List.mem_map_of_mem (List.mem_append_left _ he)
    · exact ⟨_, List.mem_append_right _ (List.mem_singleton.mpr rfl), rfl⟩

theorem register_inv (r : Registry) (n : String) (h : Inv r) : Inv (register r n) := by
  cases hn : isSpecial n with
  | true =>
    obtain hr | ⟨p, hp, -, hr⟩ := register_special r n hn
    · rw [hr]
      exact h
    · rw [hr]
      exact special_inv r p h hp
  | false =>
    obtain ⟨g, hfilled, -, hsame, hnum, hcases⟩ := register_cases r n h.filled hn
    have hgrown := grown_inv r g h hfilled hsame hnum
    obtain ⟨e, he, hr⟩ | ⟨hmissing, hlt, hadd, hr⟩ | ⟨hmissing, hfull, hr⟩ := hcases
    · rw [hr]
      exact counted_inv ⟨g, r.handed⟩ n e hgrown hn he
    · rw [hr]
      exact added_inv ⟨g, r.handed⟩ n hgrown hn hmissing hlt hadd
    · rw [hr]
      exact renamed_inv ⟨g, r.handed⟩ n hgrown hn hmissing hfull

/-- The names handed out that get an entry are the ones registered. -/
theorem register_names (r : Registry) (n : String) (h : Inv r) :
    ((register r n).handed.map Prod.fst).filter (fun n => !isSpecial n) =
      (r.handed.map Prod.fst).filter (fun n => !isSpecial n) ++
        [n].filter (fun n => !isSpecial n) := by
  cases hn : isSpecial n with
  | true =>
    obtain hr | ⟨p, -, hname, hr⟩ := register_special r n hn
    · rw [hr]
      simp [hn]
    · rw [hr]
      simp [hname, hn]
  | false =>
    obtain ⟨g, -, -, -, -, hcases⟩ := register_cases r n h.filled hn
    obtain ⟨e, -, hr⟩ | ⟨-, -, -, hr⟩ | ⟨-, -, hr⟩ := hcases
    · rw [hr, List.map_append, List.filter_append]
      rfl
    · rw [hr, List.map_append, List.filter_append]
      rfl
    · rw [hr, List.map_append, List.filter_append]
      rfl

theorem run_names (r : Registry) (ns : List String) (h : Inv r) :
    ((run register r ns).handed.map Prod.fst).filter (fun n => !isSpecial n) =
      (r.handed.map Prod.fst).filter (fun n => !isSpecial n) ++
        ns.filter (fun n => !isSpecial n) := by
  induction ns generalizing r with
  | nil => rw [run_nil, List.filter_nil, List.append_nil]
  | cons n ns ih =>
    rw [run_cons, ih _ (register_inv r n h), register_names r n h, List.append_assoc,
      ← List.filter_append, List.singleton_append]

theorem run_inv (ns : List String) : Inv (run register newRegistry ns) :=
  preserved register Inv register_inv newRegistry ns newRegistry_inv

theorem mem_tableNames (r : Registry) (n : String) :
    n ∈ tableNames (r.handed.map Prod.fst) ↔ isSpecial n = false ∧ ∃ p ∈ r.handed, p.1 = n := by
  simp [tableNames, and_comm]

/-- As long as the table is not full, it has one entry for each name handed out. -/
theorem numNames_eq (r : Registry) (h : Inv r) :
    r.table.numNames ≤ (tableNames (r.handed.map Prod.fst)).length ∧
      (r.table.numNames = 255 ∨
        (tableNames (r.handed.map Prod.fst)).length ≤ r.table.numNames) := by
  have hlen : ((nameEntries r.table).map FieldName.fieldName).length = r.table.numNames := by
    rw [List.length_map, h.filled.count]
  have hsome : ((tableNames (r.handed.map Prod.fst)).map some).length =
      (tableNames (r.handed.map Prod.fst)).length := List.length_map some
  rw [← hlen, ← hsome]
  constructor
  · refine (List.subperm_of_subset h.filled.nodup ?_).length_le
    intro k hk
    obtain ⟨n, hn, hspec⟩ := h.filled.keys k hk
    obtain ⟨e, he, hek⟩ := List.mem_map.mp hk
    obtain ⟨p, hp, hpe⟩ := h.present e he
    rw [hek, hn, Option.some.injEq] at hpe
    rw [hn]
    exact List.mem_map_of_mem ((mem_tableNames r n).mpr ⟨hspec, p, hp, hpe.symm⟩)
  · by_cases hfull : r.table.numNames = 255
    · exact .inl (hlen.trans hfull)
    · right
      have hnodup : ((tableNames (r.handed.map Prod.fst)).map some).Nodup :=
        (List.nodup_dedup _).map (Option.some_injective String)
      refine (List.subperm_of_subset hnodup ?_).length_le
      intro k hk
      obtain ⟨n, hn, rfl⟩ := List.mem_map.mp hk
      obtain ⟨hspec, p, hp, rfl⟩ := (mem_tableNames r n).mp hn
      obtain ⟨e, he, -⟩ := (h.handed p hp hspec).resolve_left hfull
      obtain ⟨hmem, hkey⟩ := lookup_mem FieldName.fieldName _ _ e he
      exact List.mem_map.mpr ⟨e, hmem, hkey⟩

/-- The 202nd entry gets the id of `@src`. -/
theorem not_bijective (r : Registry) (h : Inv r) (hn : 202 ≤ r.table.numNames) :
    ¬ Bijective r := by
  intro hb
  have hcount := h.filled.count
  have hlt : 201 < (nameEntries r.table).length := by omega
  have hid : (nameEntries r.table)[201].fieldNameId = 202 := by
    have hids := h.filled.ids
    have hget : ((nameEntries r.table).map FieldName.fieldNameId)[201]? =
        (List.range' 1 r.table.numNames)[201]? := by rw [hids]
    rw [List.getElem?_map, List.getElem?_eq_getElem hlt, List.getElem?_range' (by omega)] at hget
    exact Option.some.inj hget
  have hmem := List.getElem_mem hlt
  obtain ⟨p, hp, hkey⟩ := h.present _ hmem
  obtain ⟨n, hname, hspec⟩ := h.filled.keys _ (List.mem_map_of_mem hmem)
  rw [hkey, Option.some.injEq] at hname
  have hknown : known r.table n = some (nameEntries r.table)[201] :=
    lookup_of_mem FieldName.fieldName _ _ _ h.filled.nodup hmem (hkey.trans (by rw [hname]))
  have hfound := hb.found p (List.mem_append_right _ hp) ⟨true, true, true⟩
  rw [hname, known_found _ _ _ _ h.filled hspec hknown, hid] at hfound
  have hp2 : 1 = p.2 := Option.some.inj (congrArg (fun x => x.2.1) hfound)
  have hsrc : ("@src", 1) ∈ specialFieldNames := List.mem_cons_self
  refine hb.distinct p (List.mem_append_right _ hp) _ (List.mem_append_left _ hsrc) ?_ hp2.symm
  rintro heq
  rw [← hname, heq] at hspec
  exact absurd hspec (by decide)

theorem handed_known (r : Registry) (h : Inv r) (hn : r.table.numNames ≤ 201)
    (p : String × Nat) (hp : p ∈ idTable r) :
    p ∈ specialFieldNames ∨ (isSpecial p.1 = false ∧
      ∃ e, known r.table p.1 = some e ∧ p.2 = offsetId e.fieldNameId) := by
  obtain hp | hp := List.mem_append.mp hp
  · exact .inl hp
  · cases hs : isSpecial p.1 with
    | true => exact .inl (h.special p hp hs)
    | false => exact .inr ⟨rfl, (h.handed p hp hs).resolve_left (by omega)⟩

theorem bijective_of_le (r : Registry) (h : Inv r) (hn : r.table.numNames ≤ 201) :
    Bijective r := by
  have hback : ∀ p ∈ idTable r, getFieldNameStrFromId r.table p.2 = (.ok, some p.1) := by
    intro p hp
    obtain hp | ⟨-, e, he, hid⟩ := handed_known r h hn p hp
    · exact special_back r.table p hp
    · rw [hid]
      exact known_back r.table p.1 e h.filled hn he
  refine ⟨?_, hback, ?_, ?_⟩
  · intro p hp heap
    obtain hp | ⟨hs, e, he, hid⟩ := handed_known r h hn p hp
    · exact special_found heap r.table p noIncr hp
    · rw [hid]
      exact known_found heap r.table p.1 e h.filled hs he
  · intro p hp q hq hne hid
    have hboth := (hback p hp).symm.trans (hid ▸ hback q hq)
    exact hne (Option.some.inj (congrArg Prod.snd hboth))
  · intro p hp
    rw [h.filled.descFields, h.filled.valFields, numSpecFieldIds]
    obtain hp | ⟨-, e, he, hid⟩ := handed_known r h hn p hp
    · have hspec := specials_id p hp
      rw [numSpecFieldIds] at hspec
      omega
    · have hrange := known_id r.table h.filled p.1 e he
      rw [hid, offsetId, numSpecFieldIds]
      omega

theorem bijective_iff (r : Registry) (h : Inv r) : Bijective r ↔ r.table.numNames ≤ 201 := by
  constructor
  · intro hb
    by_contra hn
    exact not_bijective r h (by omega) hb
  · exact bijective_of_le r h

theorem run_numNames (ns : List String) :
    (run register newRegistry ns).table.numNames ≤ 201 ↔ (tableNames ns).length ≤ 201 := by
  have hsame : tableNames ((run register newRegistry ns).handed.map Prod.fst) = tableNames ns := by
    rw [tableNames, run_names newRegistry ns newRegistry_inv]
    rfl
  have hcount := numNames_eq _ (run_inv ns)
  rw [hsame] at hcount
  omega

/-- Names and ids belong to each other as long as at most 201 names get an entry. -/
theorem run_bijective_iff (ns : List String) :
    Bijective (run register newRegistry ns) ↔ (tableNames ns).length ≤ 201 :=
  (bijective_iff _ (run_inv ns)).trans (run_numNames ns)

/-- 202 names of different lengths. -/
def manyNames : List String := (List.range 202).map fun i => String.ofList (List.replicate i 'n')

theorem tableNames_manyNames : (tableNames manyNames).length = 202 := by
  have hspecial : ∀ n ∈ manyNames, (!isSpecial n) = true := by
    intro n hn
    obtain ⟨i, -, rfl⟩ := List.mem_map.mp hn
    cases i with
    | zero => rfl
    | succ i => simp [isSpecial, List.replicate_succ]
  have hnodup : manyNames.Nodup := by
    refine List.nodup_range.map ?_
    intro i j hij
    have hlen := congrArg (fun n : String => n.toList.length) hij
    simpa using hlen
  rw [tableNames, List.filter_eq_self.mpr hspecial, hnodup.dedup, manyNames, List.length_map,
    List.length_range]

theorem manyNames_not_bijective : ¬ Bijective (run register newRegistry manyNames) := by
  rw [bijective_iff _ (run_inv manyNames), run_numNames, tableNames_manyNames]
  decide

end NodeMcu.CompMsg.NameIds
