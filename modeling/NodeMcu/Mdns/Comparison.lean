import NodeMcu.Mdns.Names

namespace NodeMcu.Mdns.Comparison

open NodeMcu.Lib.Text NodeMcu.Mdns.Names

/-- A dotted name, by its labels. -/
structure DottedName where
  labels : List (List UInt8)
  ne_nil : labels ≠ []
  sized : ∀ l ∈ labels, 1 ≤ l.length ∧ l.length ≤ 63
  plain : ∀ l ∈ labels, dot ∉ l ∧ 0 ∉ l

def joined : List (List UInt8) → List UInt8
  | [] => []
  | [l] => l
  | l :: ls => l ++ dot :: joined ls

def DottedName.text (name : DottedName) : List UInt8 := joined name.labels

/-- The name with its terminator in memory. Anything may be behind it. -/
structure Stored (name : DottedName) where
  bytes : Bytes
  holds : Holds bytes 0 (name.text ++ [0])

/-- A well-formed encoded name in a packet. -/
structure EncodedName where
  packet : Bytes
  place : Nat
  labels : List (List UInt8)
  spells : Spells packet 0x4000 place labels

def SameLabels (as bs : List (List UInt8)) : Prop :=
  as.map (List.map toLower) = bs.map (List.map toLower)

instance (as bs : List (List UInt8)) : Decidable (SameLabels as bs) :=
  inferInstanceAs (Decidable (_ = _))

/-- What the functions on names have to do. -/
structure Law (name : DottedName) (query : Stored name) (e : EncodedName) : Prop where
  compares : (∃ k, mdnsCompareName query.bytes e.packet k e.place = .ends 0) ↔
    SameLabels e.labels name.labels
  accepts : ∀ packet place, Holds packet place (copyAndEncodeName name.text) →
    ∃ k, mdnsCompareName query.bytes packet k place = .ends 0
  length : ∀ packet place maxlen, Holds packet place (copyAndEncodeName name.text) →
    (copyAndEncodeName name.text).length ≤ maxlen →
      mdnsNamelen packet place maxlen = .ends ((copyAndEncodeName name.text).length : Int)

/-- The labels that are read at a place when pointers are taken modulo 256. -/
def ReadsLabels (packet : Bytes) (place : Nat) (labels : List (List UInt8)) : Prop :=
  ∃ k, walk packet k place = ⟨labels, .root⟩

/-- If the encoded name is the dotted one, the labels that are read have the bytes of the dotted
name at their places, and otherwise not all of them. -/
structure Meets (name : DottedName) (query : Stored name) (e : EncodedName) : Prop where
  same : SameLabels e.labels name.labels → ∃ labels, ReadsLabels e.packet e.place labels ∧
    ∀ p ∈ placesOf 0 labels, Same query.bytes p
  other : ¬ SameLabels e.labels name.labels → ∀ labels, ReadsLabels e.packet e.place labels →
    ∃ p ∈ placesOf 0 labels, ¬ Same query.bytes p

section encoding

def encodeLabels (labels : List (List UInt8)) : List UInt8 :=
  labels.flatMap (fun l => UInt8.ofNat l.length :: l) ++ [0]

theorem encodeFrom_append (label l rest : List UInt8) (h : dot ∉ l) :
    encodeFrom label (l ++ rest) = encodeFrom (label ++ l) rest := by
  induction l generalizing label with
  | nil => rw [List.nil_append, List.append_nil]
  | cons c l ih =>
    have hc : c ≠ dot := fun heq => h (heq ▸ List.mem_cons_self)
    rw [List.cons_append, encodeFrom, if_neg hc,
      ih (label ++ [c]) fun hmem => h (List.mem_cons_of_mem _ hmem), List.append_assoc,
      List.singleton_append]

theorem encode_joined (labels : List (List UInt8)) (hne : ∀ l ∈ labels, l ≠ [])
    (hplain : ∀ l ∈ labels, dot ∉ l) :
    copyAndEncodeName (joined labels) = encodeLabels labels := by
  unfold copyAndEncodeName
  induction labels with
  | nil => rfl
  | cons l ls ih =>
    have hl := hplain l List.mem_cons_self
    have hrest := ih (fun l' h => hne l' (List.mem_cons_of_mem _ h))
      fun l' h => hplain l' (List.mem_cons_of_mem _ h)
    cases ls with
    | nil =>
      have h := encodeFrom_append [] l [] hl
      rw [List.append_nil, List.nil_append] at h
      rw [joined, h, encodeFrom, if_neg (hne l List.mem_cons_self)]
      simp [encodeLabels]
    | cons l' ls =>
      rw [joined, encodeFrom_append [] l _ hl, List.nil_append, encodeFrom, if_pos rfl, hrest]
      · simp [encodeLabels]
      · exact List.cons_ne_nil _ _

theorem encodeLabels_eq (labels : List (List UInt8)) :
    encodeLabels labels = flat labels ++ [0] := rfl

/-- The encoding spells its labels. -/
theorem spells_encodeLabels (packet : Bytes) (limit place : Nat) (labels : List (List UInt8))
    (hsized : ∀ l ∈ labels, 1 ≤ l.length ∧ l.length ≤ 63)
    (h : Holds packet place (encodeLabels labels)) : Spells packet limit place labels := by
  rw [encodeLabels_eq, holds_append, flat_length, holds_cons] at h
  have hspells := spells_flat packet limit place labels [] hsized h.1 (.root h.2.1)
  rwa [List.append_nil] at hspells

theorem namelenLoop_encodeLabels (packet : Bytes) (orig maxlen k p : Nat)
    (labels : List (List UInt8)) (hsized : ∀ l ∈ labels, 1 ≤ l.length ∧ l.length ≤ 63)
    (h : Holds packet p (encodeLabels labels)) (hp : orig ≤ p)
    (hfits : p + (encodeLabels labels).length - orig ≤ maxlen) (hk : labels.length < k) :
    namelenLoop packet orig maxlen k p =
      .ends ((p + (encodeLabels labels).length - orig : Nat) : Int) := by
  induction labels generalizing p k with
  | nil =>
    obtain ⟨m, rfl⟩ := Nat.exists_eq_succ_of_ne_zero (Nat.ne_zero_of_lt hk)
    have hzero := (holds_cons packet p 0 []).mp h |>.1
    have hlen : (encodeLabels []).length = 1 := rfl
    rw [hlen] at hfits ⊢
    have hend : ¬ ((0 : UInt8) ≠ 0 ∧ (0 : UInt8) ≤ 63) := by decide
    have hroot : ¬ (0xC0 : UInt8) ≤ 0 := by decide
    rw [namelenLoop, readByte, hzero]
    simp only [ends_bind]
    rw [if_neg hend, if_neg hroot, if_neg (by omega)]
  | cons l ls ih =>
    obtain ⟨m, rfl⟩ := Nat.exists_eq_succ_of_ne_zero (Nat.ne_zero_of_lt hk)
    have hl := hsized l List.mem_cons_self
    have hbytes : encodeLabels (l :: ls) = UInt8.ofNat l.length :: (l ++ encodeLabels ls) := by
      simp [encodeLabels]
    have hlength := toNat_length l hl.2
    rw [hbytes, holds_cons, holds_append] at h
    have hlen : (encodeLabels (l :: ls)).length = l.length + 1 + (encodeLabels ls).length := by
      rw [hbytes, List.length_cons, List.length_append]
      omega
    have hne : UInt8.ofNat l.length ≠ 0 := by
      intro h0
      rw [h0] at hlength
      have hzero : (0 : UInt8).toNat = 0 := rfl
      omega
    have hle : UInt8.ofNat l.length ≤ 63 := by
      rw [UInt8.le_iff_toNat_le, hlength]
      exact hl.2
    rw [hlen] at hfits ⊢
    rw [namelenLoop, readByte, h.1]
    simp only [ends_bind]
    rw [if_pos ⟨hne, hle⟩, if_neg (by omega), hlength]
    rw [ih m (p + (l.length + 1)) (fun l' h' => hsized l' (List.mem_cons_of_mem _ h'))
      (by rw [Nat.add_comm l.length, ← Nat.add_assoc]; exact h.2.2) (by omega) (by omega)
      (Nat.lt_of_succ_lt_succ hk)]
    congr 2
    omega

theorem length_le_encodeLabels (labels : List (List UInt8)) :
    labels.length < (encodeLabels labels).length := by
  induction labels with
  | nil => exact Nat.lt_succ_self 0
  | cons l ls ih =>
    have hbytes : encodeLabels (l :: ls) = UInt8.ofNat l.length :: (l ++ encodeLabels ls) := by
      simp [encodeLabels]
    rw [hbytes, List.length_cons, List.length_cons, List.length_append]
    omega

theorem mdnsNamelen_encodeLabels (packet : Bytes) (place maxlen : Nat)
    (labels : List (List UInt8)) (hsized : ∀ l ∈ labels, 1 ≤ l.length ∧ l.length ≤ 63)
    (h : Holds packet place (encodeLabels labels)) (hfits : (encodeLabels labels).length ≤ maxlen) :
    mdnsNamelen packet place maxlen = .ends ((encodeLabels labels).length : Int) := by
  have hcount := length_le_encodeLabels labels
  rw [mdnsNamelen, namelenLoop_encodeLabels packet place maxlen _ place labels hsized h
    (Nat.le_refl _) (by omega) (by omega), Nat.add_sub_cancel_left]

end encoding

section places

theorem labelPlaces_same_iff (query : Bytes) (q : Nat) (l m : List UInt8) (h : Holds query q m)
    (hlength : l.length = m.length) :
    (∀ p ∈ labelPlaces q l, Same query p) ↔ l.map toLower = m.map toLower := by
  induction l generalizing q m with
  | nil =>
    obtain rfl := List.length_eq_zero_iff.mp hlength.symm
    simp [labelPlaces]
  | cons c cs ih =>
    obtain ⟨d, ds, rfl⟩ := List.exists_cons_of_length_eq_add_one hlength.symm
    rw [holds_cons] at h
    rw [labelPlaces, List.forall_mem_cons, ih (q + 1) ds h.2 (Nat.succ.inj hlength), List.map_cons,
      List.map_cons, List.cons.injEq, Same, h.1]
    simp only [Option.some.injEq, exists_eq_left']
    rw [eq_comm (a := toLower d)]

/-- Labels as long as those of a dotted name have its bytes at their places if they are its
labels. -/
theorem placesOf_same_iff (query : Bytes) (q : Nat) (ls ms : List (List UInt8))
    (h : Holds query q (joined ms)) (hlengths : ls.map List.length = ms.map List.length) :
    (∀ p ∈ placesOf q ls, Same query p) ↔ SameLabels ls ms := by
  induction ls generalizing q ms with
  | nil =>
    obtain rfl := List.map_eq_nil_iff.mp hlengths.symm
    simp [placesOf, SameLabels]
  | cons l ls ih =>
    cases ms with
    | nil => cases hlengths
    | cons m ms =>
      obtain ⟨hlength, hlengths⟩ := List.cons.inj hlengths
      have hsplit : Holds query q m ∧ Holds query (q + l.length + 1) (joined ms) := by
        cases ms with
        | nil => exact ⟨h, holds_nil query _⟩
        | cons m' ms =>
          rw [joined, holds_append, holds_cons] at h
          · rw [hlength]
            exact ⟨h.1, h.2.2⟩
          · exact List.cons_ne_nil _ _
      have hrest := ih (q + l.length + 1) ms hsplit.2 hlengths
      rw [placesOf, List.forall_mem_append, hrest,
        labelPlaces_same_iff query q l m hsplit.1 hlength]
      simp [SameLabels]

theorem lengths_of_same (ls ms : List (List UInt8)) (h : SameLabels ls ms) :
    ls.map List.length = ms.map List.length := by
  have hlengths := congrArg (List.map List.length) h
  simpa [List.map_map, Function.comp_def] using hlengths

end places

section law

variable (name : DottedName) (query : Stored name)

theorem DottedName.encoded : copyAndEncodeName name.text = encodeLabels name.labels := by
  apply encode_joined
  · intro l hl hnil
    have hpos := (name.sized l hl).1
    rw [hnil] at hpos
    exact absurd hpos (by decide)
  · exact fun l hl => (name.plain l hl).1

theorem Stored.holds_text : Holds query.bytes 0 (joined name.labels) :=
  ((holds_append query.bytes 0 _ _).mp query.holds).1

/-- What `copy_and_encode_name` writes is accepted. -/
theorem encoding_accepted (packet : Bytes) (place : Nat)
    (h : Holds packet place (copyAndEncodeName name.text)) :
    ∃ k, mdnsCompareName query.bytes packet k place = .ends 0 := by
  rw [name.encoded] at h
  have hspells := spells_encodeLabels packet 256 place name.labels name.sized h
  have hroot : packet place ≠ some 0 := by
    intro h0
    exact name.ne_nil (spells_zero packet 256 place name.labels hspells h0)
  obtain ⟨k, hk⟩ := walk_spells packet place name.labels hspells hroot
  refine ⟨k, ?_⟩
  have hwalk := hk 0
  rw [Nat.add_zero] at hwalk
  rw [compareName_zero_iff, hwalk]
  exact ⟨rfl, (placesOf_same_iff query.bytes 0 _ _ (query.holds_text name) rfl).mpr rfl⟩

theorem accepted_iff (e : EncodedName) :
    (∃ k, mdnsCompareName query.bytes e.packet k e.place = .ends 0) ↔
      ∃ labels, ReadsLabels e.packet e.place labels ∧
        ∀ p ∈ placesOf 0 labels, Same query.bytes p := by
  constructor
  · rintro ⟨k, hk⟩
    obtain ⟨hend, hsame⟩ := (compareName_zero_iff query.bytes e.packet k e.place).mp hk
    exact ⟨_, ⟨k, by rw [← hend]⟩, hsame⟩
  · rintro ⟨labels, ⟨k, hk⟩, hsame⟩
    refine ⟨k, ?_⟩
    rw [compareName_zero_iff, hk]
    exact ⟨rfl, hsame⟩

/-- Where all pointers are below 256 it is enough that the labels have the lengths of the name's, or
that a byte differs. -/
theorem meets_iff_of_near (e : EncodedName) (h : Spells e.packet 256 e.place e.labels)
    (hroot : e.packet e.place ≠ some 0) :
    Meets name query e ↔ e.labels.map List.length = name.labels.map List.length ∨
      ∃ p ∈ placesOf 0 e.labels, ¬ Same query.bytes p := by
  have hplaces := placesOf_same_iff query.bytes 0 e.labels name.labels (query.holds_text name)
  obtain ⟨k, hk⟩ := walk_spells e.packet e.place e.labels h hroot
  have hreads : ReadsLabels e.packet e.place e.labels := ⟨k, hk 0⟩
  have honly : ∀ labels, ReadsLabels e.packet e.place labels → labels = e.labels := by
    rintro labels ⟨j, hj⟩
    have hadd := walk_add e.packet j k e.place (by rw [hj]; exact nofun)
    rw [Nat.add_comm, hk j, hj] at hadd
    exact (congrArg Walk.labels hadd).symm
  constructor
  · intro hmeets
    by_cases hsame : SameLabels e.labels name.labels
    · exact .inl (lengths_of_same _ _ hsame)
    · exact .inr (hmeets.other hsame e.labels hreads)
  · intro hor
    refine ⟨?_, ?_⟩
    · intro hsame
      exact ⟨e.labels, hreads, (hplaces (lengths_of_same _ _ hsame)).mpr hsame⟩
    · intro hother labels hlabels
      rw [honly labels hlabels]
      obtain hlengths | hdiffers := hor
      · by_contra hall
        push Not at hall
        exact hother ((hplaces hlengths).mp hall)
      · exact hdiffers

end law

end NodeMcu.Mdns.Comparison
