import Mathlib.Data.List.Nodup
import Mathlib.Data.List.Range
import NodeMcu.Lib.Run

namespace NodeMcu.Lua.References

open NodeMcu.Lib.Run

variable {α : Type}

/-! ## References to values -/

/-- What a key of a table holds. -/
inductive Slot (α : Type)
  | nil
  | integer (n : Nat)
  | value (a : α)
  deriving DecidableEq

/-- The integer of a slot. No value ever gets to the key of the free list. -/
def Slot.toInteger : Slot α → Nat
  | integer n => n
  | _ => 0

/-- What the key of the free list holds, and the keys from 1 on. -/
structure Table (α : Type) where
  freelist : Slot α
  array : List (Slot α)

namespace Table

def empty : Table α := ⟨.nil, []⟩

def get (t : Table α) : Nat → Slot α
  | 0 => t.freelist
  | k + 1 => t.array[k]?.getD .nil

def set (t : Table α) (v : Slot α) : Nat → Table α
  | 0 => { t with freelist := v }
  | k + 1 =>
    if k < t.array.length then { t with array := t.array.set k v }
    else { t with array := t.array ++ List.replicate (k - t.array.length) .nil ++ [v] }

/-- A length of a table: its key is there, the one behind it is not. -/
structure Border (t : Table α) (n : Nat) : Prop where
  last : n = 0 ∨ t.get n ≠ .nil
  next : t.get (n + 1) = .nil

end Table

def freelistRef : Nat := 0
def luaNoref : Int := -2
def luaRefnil : Int := -1

/-- The reference to a value. For nil there is one of its own. -/
def luaLRef (objlen : Table α → Nat) (a : Option α) (t : Table α) : Int × Table α :=
  match a with
  | none => (luaRefnil, t)
  | some a =>
    let ref := (t.get freelistRef).toInteger
    if ref ≠ 0 then (ref, (t.set (t.get ref) freelistRef).set (.value a) ref)
    else
      let ref := objlen t + 1
      (ref, t.set (.value a) ref)

def luaLUnref (ref : Int) (t : Table α) : Table α :=
  if ref ≥ 0 then (t.set (t.get freelistRef) ref.toNat).set (.integer ref.toNat) freelistRef else t

/-! ### Lookup and update -/

section Table

variable {t : Table α} {v : Slot α} {k j : Nat}

theorem get_set_same : (t.set v k).get k = v := by
  cases k with
  | zero => rfl
  | succ k =>
    rw [Table.set]
    split_ifs with hk
    · simp [Table.get, hk]
    · have hlen :
          (t.array ++ List.replicate (k - t.array.length) (Slot.nil : Slot α)).length = k := by
        rw [List.length_append, List.length_replicate]
        omega
      rw [Table.get, List.getElem?_append_right (Nat.le_of_eq hlen), hlen, Nat.sub_self]
      rfl

theorem get_beyond (h : t.array.length < k) : t.get k = .nil := by
  cases k with
  | zero => cases h
  | succ k => rw [Table.get, List.getElem?_eq_none (by omega), Option.getD_none]

theorem get_set_other (h : j ≠ k) : (t.set v k).get j = t.get j := by
  cases k with
  | zero =>
    cases j with
    | zero => exact absurd rfl h
    | succ j => rfl
  | succ k =>
    cases j with
    | zero =>
      rw [Table.set]
      split_ifs <;> rfl
    | succ j =>
      have hne : k ≠ j := fun heq => h (by rw [heq])
      rw [Table.set]
      split_ifs with hk
      · rw [Table.get, Table.get, List.getElem?_set_ne hne]
      · rw [Table.get, Table.get, List.append_assoc]
        obtain hj | hj := Nat.lt_or_ge j t.array.length
        · rw [List.getElem?_append_left hj]
        · rw [List.getElem?_append_right hj, List.getElem?_eq_none hj]
          grind

theorem length_set (h : k ≤ t.array.length) : (t.set v k).array.length = t.array.length := by
  cases k with
  | zero => rfl
  | succ k => rw [Table.set, if_pos (Nat.lt_of_succ_le h), List.length_set]

theorem length_set_next : (t.set v (t.array.length + 1)).array.length = t.array.length + 1 := by
  rw [Table.set, if_neg (Nat.lt_irrefl _)]
  simp

end Table

/-! ### The free list -/

/-- From the key on the integers lead through the free keys, to nil. -/
def Linked (t : Table α) : Nat → List Nat → Prop
  | k, [] => t.get k = .nil
  | k, n :: ns => t.get k = .integer n ∧ Linked t n ns

theorem Linked.congr {t t' : Table α} {k j : Nat} {ns : List Nat} (h : Linked t k ns)
    (hstart : t'.get j = t.get k) (hrest : ∀ n ∈ ns, t'.get n = t.get n) : Linked t' j ns := by
  induction ns generalizing k j with
  | nil => exact hstart.trans h
  | cons n ns ih =>
    rw [List.forall_mem_cons] at hrest
    exact ⟨hstart.trans h.1, ih h.2 hrest.1 hrest.2⟩

/-- The keys of a table are free or held, none is both, and those held have their values. -/
structure Represents (t : Table α) (free : List Nat) (held : List (Nat × α)) : Prop where
  linked : Linked t freelistRef free
  keys : (free ++ held.map Prod.fst).Perm (List.range' 1 t.array.length)
  values : ∀ p ∈ held, t.get p.1 = .value p.2

def Holds (t : Table α) (held : List (Nat × α)) : Prop := ∃ free, Represents t free held

section Holds

variable {t : Table α} {free : List Nat} {held held' : List (Nat × α)} {n : Nat} {a : α}

theorem holds_empty : Holds (Table.empty : Table α) [] := ⟨[], rfl, .refl _, by simp⟩

theorem Holds.perm (h : Holds t held) (hp : held.Perm held') : Holds t held' := by
  obtain ⟨free, hlinked, hkeys, hvalues⟩ := h
  refine ⟨free, hlinked, ?_, fun p hmem => hvalues p (hp.mem_iff.mpr hmem)⟩
  exact ((hp.map Prod.fst).symm.append_left free).trans hkeys

theorem Represents.nodup (h : Represents t free held) : (free ++ held.map Prod.fst).Nodup :=
  h.keys.nodup_iff.mpr List.nodup_range'

theorem Represents.mem_range (h : Represents t free held) (hn : n ∈ free ++ held.map Prod.fst) :
    1 ≤ n ∧ n ≤ t.array.length := by
  have hmem := List.mem_range'_1.mp (h.keys.mem_iff.mp hn)
  omega

theorem Holds.nodup (h : Holds t held) : (held.map Prod.fst).Nodup := by
  obtain ⟨free, h⟩ := h
  exact (List.nodup_append.mp h.nodup).2.1

theorem Holds.pos (h : Holds t held) (hmem : (n, a) ∈ held) : 0 < n := by
  obtain ⟨free, h⟩ := h
  exact (h.mem_range (List.mem_append_right _ (List.mem_map_of_mem hmem))).1

theorem Holds.get (h : Holds t held) (hmem : (n, a) ∈ held) : t.get n = .value a := by
  obtain ⟨free, h⟩ := h
  exact h.values _ hmem

theorem Holds.length_le (h : Holds t held) : held.length ≤ t.array.length := by
  obtain ⟨free, h⟩ := h
  have hlen := h.keys.length_eq
  rw [List.length_append, List.length_map, List.length_range'] at hlen
  omega

/-- Where no key is free there is one border, at the end. -/
theorem border_eq (h : Represents t [] held) {m : Nat} (hborder : t.Border m) :
    m = t.array.length := by
  have hfull : ∀ k, 1 ≤ k → k ≤ t.array.length → t.get k ≠ .nil := by
    intro k hlow hhigh
    have hmem : k ∈ held.map Prod.fst :=
      h.keys.mem_iff.mpr (List.mem_range'_1.mpr ⟨hlow, by omega⟩)
    obtain ⟨p, hp, rfl⟩ := List.mem_map.mp hmem
    rw [h.values p hp]
    nofun
  obtain hlt | rfl | hgt := Nat.lt_trichotomy m t.array.length
  · exact absurd hborder.next (hfull (m + 1) (by omega) hlt)
  · rfl
  · obtain rfl | hlast := hborder.last
    · cases hgt
    · exact absurd (get_beyond hgt) hlast

theorem luaLRef_append {objlen : Table α → Nat} (hlen : ∀ t : Table α, t.Border (objlen t))
    (h : Represents t [] held) (a : α) :
    luaLRef objlen (some a) t =
      (((t.array.length + 1 : Nat) : Int), t.set (.value a) (t.array.length + 1)) := by
  have hnil : t.get freelistRef = .nil := h.linked
  rw [luaLRef, hnil, border_eq h (hlen t)]
  rfl

theorem luaLRef_reuse {objlen : Table α → Nat} (hhead : t.get freelistRef = .integer n)
    (hnz : n ≠ freelistRef) (a : α) :
    luaLRef objlen (some a) t = ((n : Int), (t.set (t.get n) freelistRef).set (.value a) n) := by
  rw [luaLRef, hhead]
  exact if_pos hnz

/-- A reference that is taken is not held, and the table grows only where all of it is held. -/
theorem Holds.ref {objlen : Table α → Nat} (hlen : ∀ t : Table α, t.Border (objlen t))
    (h : Holds t held) (a : α) :
    ∃ n : Nat, (luaLRef objlen (some a) t).1 = n ∧
      Holds (luaLRef objlen (some a) t).2 ((n, a) :: held) ∧
      (luaLRef objlen (some a) t).2.array.length = max t.array.length (held.length + 1) := by
  obtain ⟨free, h⟩ := h
  have hsize := h.keys.length_eq
  rw [List.length_append, List.length_map, List.length_range'] at hsize
  cases free with
  | nil =>
    rw [List.length_nil, Nat.zero_add] at hsize
    rw [luaLRef_append hlen h]
    refine ⟨t.array.length + 1, rfl, ⟨[], ?_, ?_, ?_⟩, ?_⟩
    · exact (get_set_other (Nat.succ_ne_zero _).symm).trans h.linked
    · rw [length_set_next, List.range'_concat, Nat.one_mul, Nat.add_comm 1]
      exact (List.Perm.cons _ h.keys).trans (List.perm_append_singleton _ _).symm
    · intro p hp
      rw [List.mem_cons] at hp
      obtain rfl | hp := hp
      · exact get_set_same (t := t) (v := .value a) (k := t.array.length + 1)
      · have hbound := h.mem_range (List.mem_append_right _ (List.mem_map_of_mem hp))
        have hother : p.1 ≠ t.array.length + 1 := by omega
        exact (get_set_other hother).trans (h.values p hp)
    · rw [length_set_next]
      omega
  | cons n ns =>
    obtain ⟨hhead, hrest⟩ := h.linked
    obtain ⟨hpos, hbound⟩ := h.mem_range (List.mem_append_left _ List.mem_cons_self)
    have hnz : n ≠ freelistRef := Nat.ne_of_gt hpos
    have hnodup := h.nodup
    rw [List.cons_append, List.nodup_cons, List.mem_append, not_or] at hnodup
    have hget : ∀ k, k ≠ freelistRef → k ≠ n →
        ((t.set (t.get n) freelistRef).set (.value a) n).get k = t.get k := fun k hk hkn => by
      rw [get_set_other hkn, get_set_other hk]
    have harray : ((t.set (t.get n) freelistRef).set (.value a) n).array.length =
        t.array.length := length_set hbound
    rw [List.length_cons] at hsize
    rw [luaLRef_reuse hhead hnz]
    refine ⟨n, rfl, ⟨ns, ?_, ?_, ?_⟩, ?_⟩
    · refine hrest.congr ?_ fun m hm => hget m ?_ ?_
      · rw [get_set_other hnz.symm, get_set_same]
      · exact Nat.ne_of_gt (h.mem_range (List.mem_append_left _ (List.mem_cons_of_mem _ hm))).1
      · rintro rfl
        exact hnodup.1.1 hm
    · rw [harray, List.map_cons]
      exact List.perm_middle.trans h.keys
    · intro p hp
      rw [List.mem_cons] at hp
      obtain rfl | hp := hp
      · exact get_set_same
      · have hmem := List.mem_map_of_mem (f := Prod.fst) hp
        have hlow := (h.mem_range (List.mem_append_right _ hmem)).1
        refine (hget p.1 (Nat.ne_of_gt hlow) ?_).trans (h.values p hp)
        rintro heq
        exact hnodup.1.2 (heq ▸ hmem)
    · rw [harray]
      omega

/-- A reference that is held and given back. -/
theorem Holds.unref (h : Holds t ((n, a) :: held)) :
    Holds (luaLUnref n t) held ∧ (luaLUnref n t).array.length = t.array.length := by
  have hpos := h.pos List.mem_cons_self
  obtain ⟨free, h⟩ := h
  have hnz : n ≠ freelistRef := Nat.ne_of_gt hpos
  have hmem : n ∈ free ++ ((n, a) :: held).map Prod.fst := by simp
  have hbound := (h.mem_range hmem).2
  have hnodup := (List.perm_middle.nodup_iff.mp h.nodup)
  rw [List.nodup_cons, List.mem_append, not_or] at hnodup
  have hget : ∀ k, k ≠ freelistRef → k ≠ n →
      ((t.set (t.get freelistRef) n).set (.integer n) freelistRef).get k = t.get k :=
    fun k hk hkn => by rw [get_set_other hk, get_set_other hkn]
  have harray : ((t.set (t.get freelistRef) n).set (.integer n) freelistRef).array.length =
      t.array.length := length_set hbound
  rw [luaLUnref, if_pos (Int.natCast_nonneg n), Int.toNat_natCast]
  refine ⟨⟨n :: free, ⟨get_set_same, h.linked.congr ?_ fun m hm => hget m ?_ ?_⟩, ?_, ?_⟩, harray⟩
  · rw [get_set_other hnz, get_set_same]
  · exact Nat.ne_of_gt (h.mem_range (List.mem_append_left _ hm)).1
  · rintro rfl
    exact hnodup.1.1 hm
  · rw [harray]
    exact List.perm_middle.symm.trans h.keys
  · intro p hp
    have hfst := List.mem_map_of_mem (f := Prod.fst) hp
    have hlow := (h.mem_range (List.mem_append_right _ (List.mem_cons_of_mem _ hfst))).1
    refine (hget p.1 (Nat.ne_of_gt hlow) ?_).trans (h.values p (List.mem_cons_of_mem _ hp))
    rintro heq
    exact hnodup.1.2 (heq ▸ hfst)

/-- The key of a reference that has been given back has no value. -/
theorem Holds.get_unref (h : Holds t ((n, a) :: held)) (b : α) :
    (luaLUnref n t).get n ≠ .value b := by
  have hnz : n ≠ freelistRef := Nat.ne_of_gt (h.pos List.mem_cons_self)
  obtain ⟨free, hlinked, -, -⟩ := h
  rw [luaLUnref, if_pos (Int.natCast_nonneg n), Int.toNat_natCast, get_set_other hnz, get_set_same]
  cases free with
  | nil =>
    have hnil : t.get freelistRef = .nil := hlinked
    rw [hnil]
    nofun
  | cons m ms =>
    rw [hlinked.1]
    nofun

end Holds

/-! ### All calls -/

inductive Call (α : Type)
  | ref (a : Option α)
  | unref (ref : Int)

/-- The table, the references that have been given and not been given back, with their values, and
the greatest number of them. -/
structure State (α : Type) where
  table : Table α
  held : List (Nat × α)
  peak : Nat

def start : State α := ⟨.empty, [], 0⟩

def step (objlen : Table α → Nat) (s : State α) : Call α → State α
  | .ref none => { s with table := (luaLRef objlen none s.table).2 }
  | .ref (some a) =>
    let taken := luaLRef objlen (some a) s.table
    ⟨taken.2, (taken.1.toNat, a) :: s.held, max s.peak (s.held.length + 1)⟩
  | .unref ref =>
    { s with table := luaLUnref ref s.table, held := s.held.filter fun p => (p.1 : Int) ≠ ref }

/-- Only what is held is given back, or what never was a reference. -/
def Owned (s : State α) : Call α → Prop
  | .ref _ => True
  | .unref ref => ref < 0 ∨ ref ∈ s.held.map fun p => (p.1 : Int)

instance (s : State α) : (c : Call α) → Decidable (Owned s c)
  | .ref _ => isTrue trivial
  | .unref ref => inferInstanceAs (Decidable (ref < 0 ∨ ref ∈ s.held.map fun p => (p.1 : Int)))

structure Sound (s : State α) : Prop where
  holds : Holds s.table s.held
  size : s.table.array.length = s.peak

theorem filter_other {n : Nat} {a : α} {before after : List (Nat × α)}
    (hnodup : ((before ++ (n, a) :: after).map Prod.fst).Nodup) :
    (before ++ (n, a) :: after).filter (fun p => (p.1 : Int) ≠ n) = before ++ after := by
  rw [List.map_append, List.map_cons, List.nodup_middle, List.nodup_cons, ← List.map_append]
    at hnodup
  have hkeep : ∀ p ∈ before ++ after, decide ((p.1 : Int) ≠ n) = true := fun p hp => by
    rw [decide_eq_true_eq, Ne, Int.natCast_inj]
    rintro heq
    exact hnodup.1 (List.mem_map.mpr ⟨p, hp, heq⟩)
  rw [List.filter_append, List.filter_cons_of_neg (by simp), ← List.filter_append,
    List.filter_eq_self.mpr hkeep]

theorem Sound.step {objlen : Table α → Nat} (hlen : ∀ t : Table α, t.Border (objlen t))
    {s : State α} (h : Sound s) (c : Call α) (hc : Owned s c) : Sound (step objlen s c) := by
  cases c with
  | ref a =>
    cases a with
    | none => exact ⟨h.holds, h.size⟩
    | some a =>
      obtain ⟨n, hn, hholds, hsize⟩ := h.holds.ref hlen a
      rw [References.step, hn, Int.toNat_natCast]
      exact ⟨hholds, by rw [hsize, h.size]⟩
  | unref ref =>
    obtain hneg | hheld := hc
    · have hkeep : ∀ p ∈ s.held, decide ((p.1 : Int) ≠ ref) = true := fun p _ => by
        rw [decide_eq_true_eq]
        omega
      rw [References.step, luaLUnref, if_neg (Int.not_le.mpr hneg),
        List.filter_eq_self.mpr hkeep]
      exact h
    · obtain ⟨⟨n, a⟩, hp, rfl⟩ := List.mem_map.mp hheld
      obtain ⟨before, after, hsplit⟩ := List.append_of_mem hp
      have hholds := h.holds
      rw [hsplit] at hholds
      have hfilter := filter_other hholds.nodup
      obtain ⟨hholds, hsize⟩ := (hholds.perm List.perm_middle).unref
      rw [References.step, hsplit, hfilter]
      exact ⟨hholds, hsize.trans h.size⟩

/-- After every run in which only held references are given back, all references that are held are
different and positive and each has its own value, and the table is as long as there have been
references at one time. -/
theorem references_run {objlen : Table α → Nat} (hlen : ∀ t : Table α, t.Border (objlen t))
    {calls : List (Call α)} (howned : Along (step objlen) Owned start calls) :
    ((run (step objlen) start calls).held.map Prod.fst).Nodup ∧
      (∀ p ∈ (run (step objlen) start calls).held,
        0 < p.1 ∧ (run (step objlen) start calls).table.get p.1 = .value p.2) ∧
      (run (step objlen) start calls).table.array.length =
        (run (step objlen) start calls).peak := by
  have hsound := run_invariant (step objlen) Owned Sound (fun _ c hs hc => hs.step hlen c hc)
    _ _ ⟨holds_empty, rfl⟩ howned
  exact ⟨hsound.holds.nodup, fun p hp => ⟨hsound.holds.pos hp, hsound.holds.get hp⟩, hsound.size⟩

/-- The first border of a table. -/
def firstBorder [DecidableEq α] (t : Table α) : Nat := t.array.findIdx (· = .nil)

theorem border_firstBorder [DecidableEq α] (t : Table α) : t.Border (firstBorder t) where
  last := by
    rw [firstBorder]
    cases hn : t.array.findIdx (· = .nil) with
    | zero => exact .inl rfl
    | succ n =>
      have hlt : n < t.array.findIdx (· = .nil) := by omega
      have hlen := Nat.lt_of_lt_of_le hlt List.findIdx_le_length
      have hnot := List.not_of_lt_findIdx hlt
      rw [Table.get, List.getElem?_eq_getElem hlen, Option.getD_some]
      exact .inr (by simpa using hnot)
  next := by
    rw [firstBorder, Table.get]
    obtain hlt | hge := Nat.lt_or_ge (t.array.findIdx (· = .nil)) t.array.length
    · have hnil := List.findIdx_getElem (w := hlt)
      rw [List.getElem?_eq_getElem hlt, Option.getD_some]
      simpa using hnil
    · rw [List.getElem?_eq_none hge, Option.getD_none]

/-- Three references of which the first two are given back, one is taken again. -/
def reusedCalls : List (Call Bool) :=
  [.ref (some true), .ref (some false), .ref (some true), .unref 1, .unref 2, .ref (some false)]

theorem references_run_reused :
    ((run (step firstBorder) start reusedCalls).held.map Prod.fst).Nodup ∧
      (∀ p ∈ (run (step firstBorder) start reusedCalls).held,
        0 < p.1 ∧ (run (step firstBorder) start reusedCalls).table.get p.1 = .value p.2) ∧
      (run (step firstBorder) start reusedCalls).table.array.length =
        (run (step firstBorder) start reusedCalls).peak :=
  references_run border_firstBorder (by decide)

end NodeMcu.Lua.References
