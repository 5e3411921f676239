import NodeMcu.CompMsg.NameTable
import NodeMcu.Lib.Run

namespace NodeMcu.CompMsg.RefCounts

open NodeMcu.Lib.Run NodeMcu.Lib.Table
open NodeMcu.CompMsg.Codes NodeMcu.CompMsg.TypesAndNames NodeMcu.CompMsg.NameTable

inductive Counting
  | noIncr
  | incr
  | decr
  deriving DecidableEq

def Counting.code : Counting → Int
  | .noIncr => TypesAndNames.noIncr
  | .incr => TypesAndNames.incr
  | .decr => TypesAndNames.decr

structure Call where
  fieldName : String
  counting : Counting
  heap : Heap

/-- The table, whether a call has crashed, and the increments of each name that are outstanding. -/
structure Tracked where
  table : CompMsgTypesAndNames
  crashed : Bool
  counts : String → Nat

def start : Tracked := ⟨initTypesAndNames, false, fun _ => 0⟩

def outstanding (counts : String → Nat) (c : Call) : String → Nat :=
  if isSpecial c.fieldName then counts
  else match c.counting with
    | .noIncr => counts
    | .incr => Function.update counts c.fieldName (counts c.fieldName + 1)
    | .decr => Function.update counts c.fieldName (counts c.fieldName - 1)

def result (t : Tracked) (c : Call) : Ret × Option Nat × CompMsgTypesAndNames :=
  getFieldNameIdFromStr c.heap t.table c.fieldName c.counting.code

/-- Nothing runs after a crash. -/
def step (t : Tracked) (c : Call) : Tracked :=
  if t.crashed then t
  else ⟨(result t c).2.2, (result t c).1 == .crash, outstanding t.counts c⟩

/-- A name is in the table, with its count, when its count is positive. -/
def Represents (s : CompMsgTypesAndNames) (counts : String → Nat) : Prop :=
  ∀ n, isSpecial n = false →
    (known s n).map FieldName.refCnt = if counts n = 0 then none else some (counts n)

/-- An entry with one increment less; at zero it is free. -/
def lowered (e : FieldName) : FieldName :=
  if e.refCnt ≤ 1 then ⟨none, freeFieldId, 0⟩ else { e with refCnt := e.refCnt - 1 }

/-- The table is a finite map from names to counts, and a call does to it what its code says. -/
structure Counts (t : Tracked) (c : Call) : Prop where
  represents : Represents (result t c).2.2 (outstanding t.counts c)
  inBounds : (result t c).2.2.inBounds = true
  special : isSpecial c.fieldName = true →
    (result t c).1 ≠ .crash ∧ (result t c).2.2 = t.table
  noIncr : isSpecial c.fieldName = false → c.counting = .noIncr →
    (result t c).1 = (if t.counts c.fieldName = 0 then .error .fieldNotFound else .ok) ∧
      (result t c).2.2 = t.table
  incr : isSpecial c.fieldName = false → c.counting = .incr →
    (result t c).1 = .ok ∧
      ((∃ e ∈ nameEntries t.table, e.fieldName = none) →
        (result t c).2.2.numNames = t.table.numNames)
  decr : isSpecial c.fieldName = false → c.counting = .decr →
    (result t c).1 = .ok ∧ (result t c).2.2 = { t.table with
      names := t.table.names.map (update FieldName.fieldName lowered (some c.fieldName)) }

/-- The name is special or only looked up, or it is counted up within eight bits and a new entry
finds memory and a place among the first 255. -/
def InRange (t : Tracked) (c : Call) : Prop :=
  isSpecial c.fieldName = true ∨ c.counting = .noIncr ∨
    (c.counting = .incr ∧ (t.table.maxNames ≤ t.table.numNames → c.heap.names = true) ∧
      t.counts c.fieldName < 255 ∧
      (t.counts c.fieldName = 0 → t.table.numNames < 255 ∧ c.heap.descInfos = true ∧
        c.heap.valInfos = true))

structure Inv (t : Tracked) : Prop where
  runs : t.crashed = false
  filled : Filled t.table
  represents : Represents t.table t.counts

theorem start_inv : Inv start := ⟨rfl, init_filled, fun _ _ => rfl⟩

theorem known_of_zero (s : CompMsgTypesAndNames) (counts : String → Nat) (n : String)
    (h : Represents s counts) (hn : isSpecial n = false) (h0 : counts n = 0) :
    known s n = none := by
  have hk := h n hn
  rw [if_pos h0] at hk
  exact Option.map_eq_none_iff.mp hk

theorem known_of_pos (s : CompMsgTypesAndNames) (counts : String → Nat) (n : String)
    (h : Represents s counts) (hn : isSpecial n = false) (h0 : counts n ≠ 0) :
    ∃ e, known s n = some e ∧ e.refCnt = counts n := by
  have hk := h n hn
  rw [if_neg h0] at hk
  exact Option.map_eq_some_iff.mp hk

theorem result_special (t : Tracked) (c : Call) (hs : isSpecial c.fieldName = true) :
    (result t c).1 ≠ .crash ∧ (result t c).2.2 = t.table := by
  rw [result, getFieldNameIdFromStr]
  simp only [hs, if_true]
  cases specialFieldNames.find? fun e => e.1 == c.fieldName with
  | none => exact ⟨by simp, rfl⟩
  | some e => exact ⟨by simp, rfl⟩

theorem result_noIncr (t : Tracked) (c : Call) (h : Inv t) (hs : isSpecial c.fieldName = false)
    (hc : c.counting = .noIncr) :
    (result t c).1 = (if t.counts c.fieldName = 0 then .error .fieldNotFound else .ok) ∧
      (result t c).2.2 = t.table := by
  have hr : result t c = findName c.heap c.fieldName 0 t.table := by
    rw [result, hc, Counting.code, getFieldNameIdFromStr_noIncr _ _ _ hs]
  rw [hr]
  by_cases h0 : t.counts c.fieldName = 0
  · rw [findName_missing _ _ _ _ h.filled (known_of_zero _ _ _ h.represents hs h0), if_pos h0]
    exact ⟨rfl, rfl⟩
  · obtain ⟨e, he, -⟩ := known_of_pos _ _ _ h.represents hs h0
    rw [findName_known _ _ _ _ e h.filled he, if_neg h0]
    exact ⟨rfl, counted_zero _ _ e he⟩

theorem outstanding_special (counts : String → Nat) (c : Call)
    (hs : isSpecial c.fieldName = true) : outstanding counts c = counts := by
  rw [outstanding, if_pos hs]

theorem outstanding_noIncr (counts : String → Nat) (c : Call) (hc : c.counting = .noIncr) :
    outstanding counts c = counts := by
  rw [outstanding, hc]
  exact ite_self counts

theorem outstanding_incr (counts : String → Nat) (c : Call) (hs : isSpecial c.fieldName = false)
    (hc : c.counting = .incr) : outstanding counts c =
      Function.update counts c.fieldName (counts c.fieldName + 1) := by
  rw [outstanding, hc, hs]
  rfl

theorem outstanding_decr (counts : String → Nat) (c : Call) (hs : isSpecial c.fieldName = false)
    (hc : c.counting = .decr) : outstanding counts c =
      Function.update counts c.fieldName (counts c.fieldName - 1) := by
  rw [outstanding, hc, hs]
  rfl

/-- Taking away counts up where the name is known. -/
theorem decr_not_counts (t : Tracked) (c : Call) (h : Inv t) (hs : isSpecial c.fieldName = false)
    (hc : c.counting = .decr) : ¬ Counts t c := by
  intro hl
  have hr : result t c = findName c.heap c.fieldName 255 t.table := by
    rw [result, hc, Counting.code, getFieldNameIdFromStr_decr _ _ _ hs]
  by_cases h0 : t.counts c.fieldName = 0
  · obtain ⟨hok, htable⟩ := hl.decr hs hc
    have hmissing := known_of_zero _ _ _ h.represents hs h0
    have hadd : result t c = addEntry c.heap c.fieldName t.table := by
      rw [hr, findName_missing _ _ _ _ h.filled hmissing]
      rfl
    rw [hadd] at hok htable
    cases hn : t.table.names with
    | none =>
      by_cases hh : c.heap.descInfos = true ∧ c.heap.valInfos = true
      · simp [addEntry, addMsgFieldDescInfos, addMsgFieldValInfos, hh, hn] at hok
      · rw [addEntry_error _ _ _ hh] at hok
        cases hok
    | some es =>
      by_cases hh : c.heap.descInfos = true ∧ c.heap.valInfos = true
      · rw [addEntry_eq _ _ _ (by rw [nameEntries, hn, Option.getD_some]) hh.1 hh.2] at htable
        have hnum := congrArg CompMsgTypesAndNames.numNames htable
        exact Nat.succ_ne_self _ hnum
      · rw [addEntry_error _ _ _ hh] at hok
        cases hok
  · obtain ⟨e, he, hcount⟩ := known_of_pos _ _ _ h.represents hs h0
    have hrep := hl.represents c.fieldName hs
    rw [hr, findName_known _ _ _ _ e h.filled he, outstanding_decr _ _ hs hc,
      known_counted _ _ _ _ (by decide), if_pos rfl, he, Function.update_self, Option.map_some,
      Option.map_some, countEntry_pos 255 e (by decide)] at hrep
    dsimp only at hrep
    rw [hcount] at hrep
    by_cases h1 : t.counts c.fieldName - 1 = 0
    · rw [if_pos h1] at hrep
      cases hrep
    · rw [if_neg h1, Option.some.injEq] at hrep
      omega

theorem represents_counted (g : CompMsgTypesAndNames) (counts : String → Nat) (n : String)
    (e : FieldName) (h : Represents g counts) (he : known g n = some e)
    (hcount : e.refCnt = counts n) :
    Represents (counted 1 n g) (Function.update counts n (counts n + 1)) ↔
      isSpecial n = true ∨ (counts n + 1) % 256 = counts n + 1 := by
  constructor
  · intro hrep
    cases hs : isSpecial n with
    | true => exact .inl rfl
    | false =>
      have hn := hrep n hs
      rw [known_counted _ _ _ _ (by decide), if_pos rfl, he, Function.update_self,
        Option.map_some, Option.map_some, countEntry_pos 1 e (by decide),
        if_neg (Nat.succ_ne_zero _), Option.some.injEq] at hn
      rw [← hcount]
      rw [← hcount] at hn
      exact .inr hn
  · rintro hsmall m hm
    rw [known_counted _ _ _ _ (by decide)]
    by_cases hmn : m = n
    · subst hmn
      have hsmall := hsmall.resolve_left (by rw [hm]; decide)
      rw [if_pos rfl, he, Function.update_self, Option.map_some, Option.map_some,
        countEntry_pos 1 e (by decide), if_neg (Nat.succ_ne_zero _)]
      dsimp only
      rw [hcount, hsmall]
    · rw [if_neg hmn, Function.update_of_ne hmn]
      exact h m hm

theorem represents_added (g : CompMsgTypesAndNames) (counts : String → Nat) (n : String)
    (h : Represents g counts) (hn : known g n = none) (h0 : counts n = 0) :
    Represents (added n g) (Function.update counts n (counts n + 1)) := by
  intro m hm
  rw [known_added _ _ _ hn]
  by_cases hmn : m = n
  · rw [if_pos hmn, hmn, Function.update_self, h0]
    rfl
  · rw [if_neg hmn, Function.update_of_ne hmn]
    exact h m hm

/-- A full table forgets a name that is still counted. -/
theorem renamed_not_represents (g : CompMsgTypesAndNames) (counts : String → Nat) (n : String)
    (h : Filled g) (hrep : Represents g counts) (hn : known g n = none)
    (hfull : g.numNames = 255) :
    ¬ Represents (renamed n g) (Function.update counts n (counts n + 1)) := by
  intro hnew
  obtain ⟨es, e, hes, hren⟩ := renamed_entries n g h hfull
  have hmem : e ∈ nameEntries g := by
    rw [hes]
    exact List.mem_append_right _ (List.mem_singleton.mpr rfl)
  obtain ⟨m, hm, hspec⟩ := h.keys e.fieldName (List.mem_map_of_mem hmem)
  have hknown : known g m = some e :=
    lookup_of_mem FieldName.fieldName (some m) (nameEntries g) e h.nodup hmem hm
  have hmn : m ≠ n := by
    rintro rfl
    rw [hknown] at hn
    cases hn
  have hpos : counts m ≠ 0 := by
    intro h0
    rw [known_of_zero g counts m hrep hspec h0] at hknown
    cases hknown
  have hlost : known (renamed n g) m = none := by
    rw [known, hren, lookup_eq_none, List.map_append, List.mem_append]
    have hnodup := h.nodup
    rw [hes, List.map_append] at hnodup
    rintro (hin | hin)
    · exact List.disjoint_of_nodup_append hnodup hin
        (List.mem_singleton.mpr hm.symm)
    · exact hmn (Option.some.inj (List.mem_singleton.mp hin))
  have hget := hnew m hspec
  rw [hlost, Function.update_of_ne hmn, if_neg hpos] at hget
  cases hget

theorem filled_noFree (s : CompMsgTypesAndNames) (h : Filled s) :
    ¬ ∃ e ∈ nameEntries s, e.fieldName = none := by
  rintro ⟨e, he, hnone⟩
  obtain ⟨n, hn, -⟩ := h.keys e.fieldName (List.mem_map_of_mem he)
  rw [hnone] at hn
  cases hn

theorem noGrowth_not_counts (t : Tracked) (c : Call) (hs : isSpecial c.fieldName = false)
    (hc : c.counting = .incr) (hgrow : t.table.maxNames ≤ t.table.numNames)
    (hheap : c.heap.names ≠ true) : ¬ Counts t c := by
  intro hl
  have hok := (hl.incr hs hc).1
  have herr := growNames_error c.heap t.table hgrow hheap
  rw [result, hc, Counting.code] at hok
  simp [getFieldNameIdFromStr, hs, TypesAndNames.incr, herr] at hok

section Increment

variable (t : Tracked) (c : Call) (h : Inv t) (hs : isSpecial c.fieldName = false)
  (hc : c.counting = .incr)

include h hs hc

theorem counts_of_incr (hret : (result t c).1 = .ok) (hfilled : Filled (result t c).2.2)
    (hrep : Represents (result t c).2.2
      (Function.update t.counts c.fieldName (t.counts c.fieldName + 1))) : Counts t c where
  represents := by
    rw [outstanding_incr _ _ hs hc]
    exact hrep
  inBounds := hfilled.inBounds
  special hsp := absurd (hs.symm.trans hsp) (by decide)
  noIncr _ hno := absurd (hc.symm.trans hno) (by decide)
  incr _ _ := ⟨hret, fun hfree => absurd hfree (filled_noFree t.table h.filled)⟩
  decr _ hde := absurd (hc.symm.trans hde) (by decide)

/-- The search starts in a table with the same entries and room for one more. -/
theorem result_incr (hheap : t.table.maxNames ≤ t.table.numNames → c.heap.names = true) :
    ∃ g, Filled g ∧ g.names = some (nameEntries g) ∧ g.numNames = t.table.numNames ∧
      g.numNames < g.maxNames ∧ Represents g t.counts ∧
      result t c = findName c.heap c.fieldName 1 g := by
  obtain ⟨g, hg, hfilled, hnames, hsame, hnum, hroom⟩ := growNames_spec _ _ h.filled hheap
  refine ⟨g, hfilled, hnames, hnum, hroom, ?_, ?_⟩
  · intro n hn
    rw [known, hsame]
    exact h.represents n hn
  · rw [result, hc, Counting.code, getFieldNameIdFromStr_incr _ _ g _ hs hg]

/-- A name that is in the table is counted up within eight bits. -/
theorem known_counts_iff (g : CompMsgTypesAndNames) (hfilled : Filled g)
    (hrep : Represents g t.counts) (hr : result t c = findName c.heap c.fieldName 1 g)
    (h0 : t.counts c.fieldName ≠ 0) :
    (Counts t c ↔ t.counts c.fieldName < 255) ∧ Filled (result t c).2.2 := by
  obtain ⟨e, he, hcount⟩ := known_of_pos _ _ _ hrep hs h0
  have hfound := hr.trans (findName_known c.heap c.fieldName 1 g e hfilled he)
  have hcounted : Filled (result t c).2.2 := by
    rw [hfound]
    exact counted_filled 1 c.fieldName g hfilled (by decide)
  have hiff := represents_counted g t.counts c.fieldName e hrep he hcount
  refine ⟨⟨fun hl => ?_, fun hlt => ?_⟩, hcounted⟩
  · have hnew := hl.represents
    rw [hfound, outstanding_incr _ _ hs hc] at hnew
    have hmod := (hiff.mp hnew).resolve_left (by rw [hs]; decide)
    omega
  · refine counts_of_incr t c h hs hc (by rw [hfound]) hcounted ?_
    rw [hfound]
    exact hiff.mpr (.inr (Nat.mod_eq_of_lt (by omega)))

/-- A name that is not in the table gets an entry, unless the table is full or memory is short. -/
theorem missing_counts_iff (g : CompMsgTypesAndNames) (hfilled : Filled g)
    (hnames : g.names = some (nameEntries g)) (hroom : g.numNames < g.maxNames)
    (hrep : Represents g t.counts) (hr : result t c = findName c.heap c.fieldName 1 g)
    (h0 : t.counts c.fieldName = 0) :
    (Counts t c ↔ g.numNames < 255 ∧ c.heap.descInfos = true ∧ c.heap.valInfos = true) ∧
      (Counts t c → Filled (result t c).2.2) := by
  have hmissing := known_of_zero _ _ _ hrep hs h0
  have hfind := findName_missing c.heap c.fieldName 1 g hfilled hmissing
  rw [if_neg (by decide), if_neg (by decide), ← hr] at hfind
  have hsmall := hfilled.small
  by_cases hfull : g.numNames = 255
  · rw [if_pos ⟨rfl, hfull⟩] at hfind
    have hnot : ¬ Counts t c := by
      intro hl
      have hnew := hl.represents
      rw [hfind, outstanding_incr _ _ hs hc] at hnew
      exact renamed_not_represents _ _ _ hfilled hrep hmissing hfull hnew
    exact ⟨⟨fun hl => absurd hl hnot, fun hlt => absurd hfull (Nat.ne_of_lt hlt.1)⟩,
      fun hl => absurd hl hnot⟩
  rw [if_neg fun hboth => hfull hboth.2] at hfind
  by_cases hh : c.heap.descInfos = true ∧ c.heap.valInfos = true
  · rw [addEntry_eq _ _ _ hnames hh.1 hh.2] at hfind
    have hadded : Filled (result t c).2.2 := by
      rw [hfind]
      exact added_filled _ _ hfilled hs hmissing hroom (by omega)
    refine ⟨⟨fun _ => ⟨by omega, hh⟩, fun _ => ?_⟩, fun _ => hadded⟩
    refine counts_of_incr t c h hs hc (by rw [hfind]) hadded ?_
    rw [hfind]
    exact represents_added _ _ _ hrep hmissing h0
  · have hnot : ¬ Counts t c := by
      intro hl
      have hok := (hl.incr hs hc).1
      rw [hfind, addEntry_error _ _ _ hh] at hok
      cases hok
    exact ⟨⟨fun hl => absurd hl hnot, fun hlt => absurd hlt.2 hh⟩, fun hl => absurd hl hnot⟩

/-- A call that counts up keeps the map in exactly the range of the table. -/
theorem incr_counts_iff :
    (Counts t c ↔ (t.table.maxNames ≤ t.table.numNames → c.heap.names = true) ∧
      t.counts c.fieldName < 255 ∧
      (t.counts c.fieldName = 0 → t.table.numNames < 255 ∧ c.heap.descInfos = true ∧
        c.heap.valInfos = true)) ∧
    (Counts t c → Filled (result t c).2.2) := by
  by_cases hheap : t.table.maxNames ≤ t.table.numNames → c.heap.names = true
  · obtain ⟨g, hfilled, hnames, hnum, hroom, hrep, hr⟩ := result_incr t c h hs hc hheap
    by_cases h0 : t.counts c.fieldName = 0
    · obtain ⟨hiff, hfill⟩ := missing_counts_iff t c h hs hc g hfilled hnames hroom hrep hr h0
      refine ⟨?_, hfill⟩
      rw [hiff, hnum]
      exact ⟨fun hlt => ⟨hheap, by omega, fun _ => hlt⟩, fun hlt => hlt.2.2 h0⟩
    · obtain ⟨hiff, hfill⟩ := known_counts_iff t c h hs hc g hfilled hrep hr h0
      refine ⟨?_, fun _ => hfill⟩
      rw [hiff]
      exact ⟨fun hlt => ⟨hheap, hlt, fun hzero => absurd hzero h0⟩, fun hlt => hlt.2.1⟩
  · have hshort := Classical.not_imp.mp hheap
    have hnot := noGrowth_not_counts t c hs hc hshort.1 hshort.2
    exact ⟨⟨fun hl => absurd hl hnot, fun hl => absurd hl.1 hheap⟩, fun hl => absurd hl hnot⟩

end Increment

theorem counts_iff (t : Tracked) (c : Call) (h : Inv t) : Counts t c ↔ InRange t c := by
  cases hs : isSpecial c.fieldName with
  | true =>
    obtain ⟨hrun, htable⟩ := result_special t c hs
    refine ⟨fun _ => .inl hs, fun _ => ?_⟩
    exact {
      represents := by rw [htable, outstanding_special _ _ hs]; exact h.represents
      inBounds := by rw [htable]; exact h.filled.inBounds
      special := fun _ => ⟨hrun, htable⟩
      noIncr := fun hn => absurd (hs.symm.trans hn) (by decide)
      incr := fun hn => absurd (hs.symm.trans hn) (by decide)
      decr := fun hn => absurd (hs.symm.trans hn) (by decide) }
  | false =>
    have hsp : ¬ isSpecial c.fieldName = true := by rw [hs]; decide
    cases hc : c.counting with
    | noIncr =>
      have hr := result_noIncr t c h hs hc
      refine ⟨fun _ => .inr (.inl hc), fun _ => ?_⟩
      exact {
        represents := by rw [hr.2, outstanding_noIncr _ _ hc]; exact h.represents
        inBounds := by rw [hr.2]; exact h.filled.inBounds
        special := fun hn => absurd hn hsp
        noIncr := fun _ _ => hr
        incr := fun _ hn => absurd (hc.symm.trans hn) (by decide)
        decr := fun _ hn => absurd (hc.symm.trans hn) (by decide) }
    | incr =>
      rw [(incr_counts_iff t c h hs hc).1, InRange, hc]
      simp [hs]
    | decr =>
      refine ⟨fun hl => absurd hl (decr_not_counts t c h hs hc), ?_⟩
      rintro (hn | hn | ⟨hn, -⟩)
      · exact absurd hn hsp
      · exact absurd (hc.symm.trans hn) (by decide)
      · exact absurd (hc.symm.trans hn) (by decide)

theorem counts_step (t : Tracked) (c : Call) (h : Inv t) (hl : Counts t c) : Inv (step t c) := by
  have hstep : step t c =
      ⟨(result t c).2.2, (result t c).1 == .crash, outstanding t.counts c⟩ := by
    rw [step, h.runs]
    rfl
  rw [hstep]
  have hrange := (counts_iff t c h).mp hl
  cases hs : isSpecial c.fieldName with
  | true =>
    obtain ⟨hrun, htable⟩ := hl.special hs
    exact ⟨beq_eq_false_iff_ne.mpr hrun, by rw [htable]; exact h.filled, hl.represents⟩
  | false =>
    obtain hn | hn | ⟨hn, -⟩ := hrange
    · rw [hs] at hn
      cases hn
    · obtain ⟨hret, htable⟩ := hl.noIncr hs hn
      refine ⟨beq_eq_false_iff_ne.mpr ?_, by rw [htable]; exact h.filled, hl.represents⟩
      rw [hret]
      split
      · simp
      · simp
    · have hret := (hl.incr hs hn).1
      refine ⟨beq_eq_false_iff_ne.mpr (by rw [hret]; simp), ?_, hl.represents⟩
      exact (incr_counts_iff t c h hs hn).2 hl

/-- Memory for everything. -/
def enoughHeap : Heap := ⟨true, true, true⟩

end NodeMcu.CompMsg.RefCounts
