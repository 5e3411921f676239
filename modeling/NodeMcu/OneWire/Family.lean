import NodeMcu.OneWire.Crc
import NodeMcu.OneWire.Search

namespace NodeMcu.OneWire.Family

open NodeMcu.Lib.Descent NodeMcu.OneWire.Devices NodeMcu.OneWire.Search NodeMcu.OneWire.Crc

/-- The last byte of a ROM code is the check of the others. -/
def Valid (r : Rom) : Prop := onewireCrc8 (r.toList.take 7) = romByte r 7

instance (r : Rom) : Decidable (Valid r) := inferInstanceAs (Decidable (_ = _))

/-! ## Families -/

theorem bits8_injective : Function.Injective bits8 := by
  intro a b h
  refine UInt8.toNat_inj.mp (Nat.eq_of_testBit_eq fun k => ?_)
  by_cases hk : k < 8
  · have := congrArg (·[k]?) h
    simpa [bits8, hk] using this
  · have hsmall (c : UInt8) : c.toNat.testBit k = false :=
      Nat.testBit_lt_two_pow (c.toNat_lt.trans_le (Nat.pow_le_pow_right (by decide)
        (Nat.le_of_not_lt hk)))
    rw [hsmall, hsmall]

theorem romBits_take (r : Rom) : (romBits r).take 8 = bits8 (romByte r 0) := by
  rw [romBits, ← List.map_take, List.take_range, bits8]
  refine List.map_congr_left fun k hk => ?_
  have hlt : k < 8 := List.mem_range.mp hk
  rw [romBit, Nat.div_eq_of_lt hlt, Nat.mod_eq_of_lt hlt]

theorem family_prefix_iff (familyCode : UInt8) (r : Rom) :
    bits8 familyCode <+: romBits r ↔ romByte r 0 = familyCode := by
  rw [List.prefix_iff_eq_take, bits8_length, romBits_take, bits8_injective.eq_iff]
  exact eq_comm

theorem romBits_target (familyCode : UInt8) :
    romBits (onewireTargetSearch familyCode).romNo =
      bits8 familyCode ++ List.replicate (55 + 1) false := by
  refine List.ext_getElem (by simp [bits8]) fun i hi _ => ?_
  rw [romBits_length] at hi
  have hbyte (j : Nat) : romByte (onewireTargetSearch familyCode).romNo j =
      if j = 0 then familyCode else 0 := by
    rw [romByte, onewireTargetSearch]
    cases j with
    | zero => simp
    | succ j =>
      simp only [Vector.getElem?_set]
      by_cases hj : j + 1 < 8
      · simp [hj]
      · simp [hj]
  simp only [romBits, List.getElem_map, List.getElem_range, romBit, hbyte]
  by_cases h8 : i < 8
  · rw [List.getElem_append_left (by rw [bits8_length]; exact h8), Nat.div_eq_of_lt h8, if_pos rfl,
      Nat.mod_eq_of_lt h8]
    simp [bits8]
  · rw [List.getElem_append_right (by rw [bits8_length]; omega), if_neg (by omega),
      List.getElem_replicate]
    exact Nat.zero_testBit _

/-- Valid codes that agree in all bits but the last one agree. -/
theorem noTwins {bus : Bus} (h : ∀ r ∈ bus.roms, Valid r) : NoTwins (words bus) := by
  intro w hfalse htrue
  obtain ⟨r, hr, hrbits⟩ := List.mem_map.mp hfalse
  obtain ⟨t, ht, htbits⟩ := List.mem_map.mp htrue
  have hlength : w.length = 63 := by
    have := congrArg List.length hrbits
    rw [romBits_length, List.length_append, List.length_singleton] at this
    omega
  have hsame (i : Nat) (hi : i < 63) : romBit r i = romBit t i := by
    refine Option.some.inj ?_
    rw [← romBits_getElem? r i (by omega), ← romBits_getElem? t i (by omega), hrbits, htbits,
      List.getElem?_append_left (by omega), List.getElem?_append_left (by omega)]
  have hbytes (j : Nat) (hj : j < 7) : romByte r j = romByte t j := by
    refine bits8_injective (List.map_congr_left fun k hk => ?_)
    have hlt : k < 8 := List.mem_range.mp hk
    have hbit := hsame (8 * j + k) (by omega)
    rw [romBit, romBit, show (8 * j + k) / 8 = j by omega,
      show (8 * j + k) % 8 = k by omega] at hbit
    exact hbit
  have htake : r.toList.take 7 = t.toList.take 7 := by
    refine List.ext_getElem (by simp) fun j hj _ => ?_
    have hlt : j < 7 := by simpa using hj
    have hbyte := hbytes j hlt
    rw [romByte, romByte, Vector.getElem?_eq_getElem (by omega),
      Vector.getElem?_eq_getElem (by omega)] at hbyte
    simpa using hbyte
  have hcheck : romByte r 7 = romByte t 7 := by
    rw [← h r hr, ← h t ht, htake]
  have hlast : romBit r 63 = romBit t 63 := congrArg (fun b => b.toNat.testBit 7) hcheck
  have hr63 : romBit r 63 = false := by
    have := romBits_getElem? r 63 (by decide)
    rw [hrbits, List.getElem?_append_right (by omega), hlength] at this
    exact (Option.some.inj this).symm
  have ht63 : romBit t 63 = true := by
    have := romBits_getElem? t 63 (by decide)
    rw [htbits, List.getElem?_append_right (by omega), hlength] at this
    exact (Option.some.inj this).symm
  rw [hr63, ht63] at hlast
  cases hlast

/-- The codes of the devices in order, those of a family in one piece. -/
structure Parts (bus : Bus) (familyCode : UInt8) (front family others : List Rom) : Prop where
  codes : (front ++ family ++ others).map romBits = inOrder 64 (words bus)
  family : family.map romBits =
    (inOrder 56 (beneath (bits8 familyCode) (words bus))).map (bits8 familyCode ++ ·)
  front : ∀ r ∈ front, romByte r 0 ≠ familyCode
  others : ∀ r ∈ others, romByte r 0 ≠ familyCode

theorem exists_parts (bus : Bus) (familyCode : UInt8) :
    ∃ front family others, Parts bus familyCode front family others := by
  obtain ⟨codes, hcodes⟩ := exists_inOrder bus
  obtain ⟨before, after, hsplit, hbefore, hafter⟩ :=
    inOrder_beneath (bits8 familyCode) 56 (words bus)
  rw [bits8_length] at hsplit
  obtain ⟨rest, others, rfl, hrest, rfl⟩ := List.map_eq_append_iff.mp (hcodes.trans hsplit)
  obtain ⟨front, family, rfl, rfl, hfamily⟩ := List.map_eq_append_iff.mp hrest
  have hnot (l : List Rom) (hl : ∀ w ∈ l.map romBits, ¬bits8 familyCode <+: w) (r : Rom)
      (hr : r ∈ l) : romByte r 0 ≠ familyCode := fun h =>
    hl _ (List.mem_map_of_mem hr) ((family_prefix_iff familyCode r).mpr h)
  exact ⟨front, family, others, hcodes, hfamily, hnot front hbefore, hnot others hafter⟩

section Parts

variable {bus : Bus} {familyCode : UInt8} {front family others : List Rom}

theorem Parts.mem_iff (h : Parts bus familyCode front family others) (r : Rom) :
    r ∈ front ++ family ++ others ↔ r ∈ bus.roms := by
  rw [← romBits_mem_words, ← mem_inOrder (words_sized bus), ← h.codes, List.mem_map]
  exact ⟨fun hr => ⟨r, hr, rfl⟩, fun ⟨t, ht, heq⟩ => romBits_inj heq ▸ ht⟩

theorem Parts.nodup (h : Parts bus familyCode front family others) :
    (front ++ family ++ others).Nodup := by
  refine List.Nodup.of_map romBits ?_
  rw [h.codes]
  exact inOrder_nodup 64 _

theorem Parts.family_iff (h : Parts bus familyCode front family others) (r : Rom) :
    r ∈ family ↔ r ∈ bus.roms ∧ romByte r 0 = familyCode := by
  rw [← h.mem_iff]
  constructor
  · intro hr
    refine ⟨by simp [hr], ?_⟩
    have hbits := List.mem_map_of_mem (f := romBits) hr
    rw [h.family, List.mem_map] at hbits
    obtain ⟨w, -, hw⟩ := hbits
    rw [← family_prefix_iff, ← hw]
    exact List.prefix_append _ _
  · rintro ⟨hr, hcode⟩
    rw [List.mem_append, List.mem_append] at hr
    obtain (hr | hr) | hr := hr
    · exact absurd hcode (h.front r hr)
    · exact hr
    · exact absurd hcode (h.others r hr)

/-- The first search for a family finds its first code. -/
theorem Parts.search {r : Rom} {rest : List Rom} (hbus : Answers bus)
    (hvalid : ∀ r ∈ bus.roms, Valid r) (h : Parts bus familyCode front (r :: rest) others) :
    (onewireSearch (onewireTargetSearch familyCode) bus).1 = some r ∧
      Standing (words bus) (onewireSearch (onewireTargetSearch familyCode) bus).2.1 r ∧
      (onewireSearch (onewireTargetSearch familyCode) bus).2.2.roms = bus.roms ∧
      (onewireSearch (onewireTargetSearch familyCode) bus).2.2.low = bus.low := by
  have hfamily := h.family
  rw [List.map_cons] at hfamily
  obtain ⟨v, vs, hv, hr, -⟩ := List.map_eq_cons_iff.mp hfamily.symm
  have hsized : Sized ((bits8 familyCode).length + (55 + 1)) (words bus) := by
    rw [bits8_length]
    exact words_sized bus
  have hdown : descend 64 ((bits8 familyCode).length + (55 + 1)) 1 (words bus)
      (bits8 familyCode ++ List.replicate (55 + 1) false) 0 =
        some (bits8 familyCode ++ v, lastOf 0 (turn 1 (words bus) (bits8 familyCode ++ v))) :=
    descend_target hsized (noTwins hvalid) Nat.one_ne_zero (by rw [bits8_length]) hv
  refine search_found hbus rfl ((h.mem_iff r).mp (by simp)) ?_
  rw [bits8_length, hr, lastOf_zero, ← romBits_target] at hdown
  exact hdown

/-- After a search for a family has been set up, the searches find every device of the family
first, each code once, then others, each once, and then nothing. -/
theorem searches_family (hbus : Answers bus) (hvalid : ∀ r ∈ bus.roms, Valid r)
    (hfamily : ∃ r ∈ bus.roms, romByte r 0 = familyCode) :
    ∃ family others : List Rom, (family ++ others).Nodup ∧
      (∀ r, r ∈ family ↔ r ∈ bus.roms ∧ romByte r 0 = familyCode) ∧
      (∀ r ∈ others, r ∈ bus.roms ∧ romByte r 0 ≠ familyCode) ∧
      (searches ((family ++ others).length + 1) (onewireTargetSearch familyCode) bus).1 =
        (family ++ others).map some ++ [none] := by
  obtain ⟨front, family, others, h⟩ := exists_parts bus familyCode
  have hnodup := h.nodup
  rw [List.append_assoc] at hnodup
  refine ⟨family, others, hnodup.of_append_right, h.family_iff,
    fun r hr => ⟨(h.mem_iff r).mp (by simp [hr]), h.others r hr⟩, ?_⟩
  obtain ⟨t, ht⟩ := hfamily
  cases family with
  | nil => exact absurd ((h.family_iff t).mpr ht) List.not_mem_nil
  | cons r rest =>
    obtain ⟨hfound, hstanding, hroms, hlow⟩ := h.search hbus hvalid
    rw [List.cons_append, List.length_cons, searches_succ, hfound]
    generalize onewireSearch (onewireTargetSearch familyCode) bus = out at *
    have hwords : words out.2.2 = words bus := congrArg (·.map romBits) hroms
    have hcodes := h.codes
    rw [List.append_assoc, List.cons_append, ← hwords] at hcodes
    rw [← hwords] at hstanding
    obtain ⟨hrest, -⟩ := searches_standing ⟨hlow ▸ hbus.high, hroms ▸ hbus.family⟩ hcodes hstanding
    rw [hrest]
    rfl

end Parts

theorem valid_twoSensors : ∀ r ∈ twoSensors.roms, Valid r :=
  List.forall_mem_cons.mpr
    ⟨by decide +kernel, List.forall_mem_singleton.mpr (by decide +kernel)⟩

theorem searches_family_twoSensors : (∀ r ∈ twoSensors.roms, Valid r) ∧
    ∃ family others : List Rom, (family ++ others).Nodup ∧
      (∀ r, r ∈ family ↔ r ∈ twoSensors.roms ∧ romByte r 0 = 0x28) ∧
      (∀ r ∈ others, r ∈ twoSensors.roms ∧ romByte r 0 ≠ 0x28) ∧
      (searches ((family ++ others).length + 1) (onewireTargetSearch 0x28) twoSensors).1 =
        (family ++ others).map some ++ [none] :=
  ⟨valid_twoSensors, searches_family answers_twoSensors valid_twoSensors
    ⟨#v[0x28, 1, 0, 0, 0, 0, 0, 41], by decide, by decide⟩⟩

end NodeMcu.OneWire.Family
