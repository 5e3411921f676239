import NodeMcu.CompMsg.Accessors

namespace NodeMcu.CompMsg.Vectors

open NodeMcu.Lib.Memory NodeMcu.CompMsg.Codes NodeMcu.CompMsg.View NodeMcu.CompMsg.Accessors

/-- The common body of the getters of bytes. -/
def getBlock (self : DataView) (offset : Int) (lgth : Nat) : Except CompMsgErr (List UInt8) :=
  if self.lgth < toSize (offset + lgth) then .error .outOfRange
  else .ok (read self.data offset lgth)

/-- The common body of the setters of bytes. -/
def setBlock (self : DataView) (offset : Int) (value : List UInt8) : Result × DataView :=
  if self.lgth < toSize (offset + value.length) then (.error .outOfRange, self)
  else (.ok (), { self with data := write self.data offset value })

section Words

variable {α : Type}

/-- The loop of the getters of words. The index runs on, the offset does not. -/
def getWords (get : DataView → Int → Except CompMsgErr α) (self : DataView) (offset : Int) :
    Nat → Except CompMsgErr (List α)
  | 0 => .ok []
  | n + 1 => do
    let x ← get self offset
    let xs ← getWords get self offset n
    return x :: xs

/-- The loop of the setters of words, with the same offset for every word. -/
def setWords (set : DataView → Int → α → Result × DataView) (offset : Int) :
    List α → DataView → Result × DataView
  | [], self => (.ok (), self)
  | x :: xs, self => checkErrOK (set self offset x) (setWords set offset xs)

/-- The common body of the getters of words of `size` bytes. -/
def getVector (size : Nat) (get : DataView → Int → Except CompMsgErr α) (self : DataView)
    (offset : Int) (lgth : Nat) : Except CompMsgErr (List α) :=
  if self.lgth < toSize (offset + (lgth * size : Nat)) then .error .outOfRange
  else getWords get self offset lgth

/-- The common body of the setters of words of `size` bytes. -/
def setVector (size : Nat) (set : DataView → Int → α → Result × DataView) (self : DataView)
    (offset : Int) (value : List α) : Result × DataView :=
  if self.lgth < toSize (offset + (value.length * size : Nat)) then (.error .outOfRange, self)
  else setWords set offset value self

end Words

def getUint8Vector (self : DataView) (offset : Int) (lgth : Nat) : Except CompMsgErr (List Nat) :=
  (getBlock self offset lgth).map fun bs => bs.map UInt8.toNat

def getInt8Vector (self : DataView) (offset : Int) (lgth : Nat) : Except CompMsgErr (List Int) :=
  (getBlock self offset lgth).map fun bs => bs.map fun b => Int.bmod b.toNat 256

def setUint8Vector (self : DataView) (offset : Int) (value : List Nat) : Result × DataView :=
  setBlock self offset (value.map UInt8.ofNat)

def setInt8Vector (self : DataView) (offset : Int) (value : List Int) : Result × DataView :=
  setBlock self offset (value.map fun v => UInt8.ofNat (toSize v))

def getUint16Vector (self : DataView) (offset : Int) (lgth : Nat) :
    Except CompMsgErr (List Nat) :=
  getVector 2 getUint16 self offset lgth

def getInt16Vector (self : DataView) (offset : Int) (lgth : Nat) : Except CompMsgErr (List Int) :=
  getVector 2 getInt16 self offset lgth

def setUint16Vector (self : DataView) (offset : Int) (value : List Nat) : Result × DataView :=
  setVector 2 setUint16 self offset value

def setInt16Vector (self : DataView) (offset : Int) (value : List Int) : Result × DataView :=
  setVector 2 setInt16 self offset value

def getUint32Vector (self : DataView) (offset : Int) (lgth : Nat) :
    Except CompMsgErr (List Nat) :=
  getVector 4 getUint32 self offset lgth

def getInt32Vector (self : DataView) (offset : Int) (lgth : Nat) : Except CompMsgErr (List Int) :=
  getVector 4 getInt32 self offset lgth

def setUint32Vector (self : DataView) (offset : Int) (value : List Nat) : Result × DataView :=
  setVector 4 setUint32 self offset value

def setInt32Vector (self : DataView) (offset : Int) (value : List Int) : Result × DataView :=
  setVector 4 setInt32 self offset value

/-- The vector getter of a type. -/
def getValues (s : Scalar) (self : DataView) (offset : Int) (lgth : Nat) :
    Except CompMsgErr (List Int) :=
  match s with
  | .uint8 => (getUint8Vector self offset lgth).map (List.map Nat.cast)
  | .int8 => getInt8Vector self offset lgth
  | .uint16 => (getUint16Vector self offset lgth).map (List.map Nat.cast)
  | .int16 => getInt16Vector self offset lgth
  | .uint32 => (getUint32Vector self offset lgth).map (List.map Nat.cast)
  | .int32 => getInt32Vector self offset lgth

/-- The vector setter of a type. -/
def setValues (s : Scalar) (self : DataView) (offset : Int) (value : List Int) :
    Result × DataView :=
  match s with
  | .uint8 => setUint8Vector self offset (value.map Int.toNat)
  | .int8 => setInt8Vector self offset value
  | .uint16 => setUint16Vector self offset (value.map Int.toNat)
  | .int16 => setInt16Vector self offset value
  | .uint32 => setUint32Vector self offset (value.map Int.toNat)
  | .int32 => setInt32Vector self offset value

section Loops

variable {α β : Type}

theorem getWords_map (f : α → β) (get : DataView → Int → Except CompMsgErr α) (self : DataView)
    (offset : Int) (n : Nat) :
    (getWords get self offset n).map (List.map f) =
      getWords (fun v o => (get v o).map f) self offset n := by
  induction n with
  | zero => rfl
  | succ n ih =>
    simp only [getWords, ← ih]
    cases get self offset with
    | error e => rfl
    | ok x => cases getWords get self offset n <;> rfl

theorem setWords_map (f : β → α) (set : DataView → Int → α → Result × DataView) (offset : Int)
    (xs : List β) (self : DataView) :
    setWords set offset (xs.map f) self = setWords (fun v o x => set v o (f x)) offset xs self := by
  induction xs generalizing self with
  | nil => rfl
  | cons x xs ih =>
    simp only [List.map_cons, setWords]
    congr 1
    funext v
    exact ih v

theorem getWords_of_ok (get : DataView → Int → Except CompMsgErr α) (self : DataView)
    (offset : Int) (x : α) (h : get self offset = .ok x) (n : Nat) :
    getWords get self offset n = .ok (List.replicate n x) := by
  induction n with
  | zero => rfl
  | succ n ih =>
    rw [getWords, h, ih]
    rfl

end Loops

theorem getValues_words (s : Scalar) (self : DataView) (offset : Int) (lgth : Nat)
    (hw : s.width ≠ 1) :
    getValues s self offset lgth = getVector s.width s.get self offset lgth := by
  have hmap : ∀ (w : Nat) (get : DataView → Int → Except CompMsgErr Nat),
      (getVector w get self offset lgth).map (List.map (Nat.cast : Nat → Int)) =
        getVector w (fun v o => (get v o).map Nat.cast) self offset lgth := by
    intro w get
    simp only [getVector]
    split
    · rfl
    · exact getWords_map _ _ _ _ _
  cases s with
  | uint8 | int8 => exact absurd rfl hw
  | int16 | int32 => rfl
  | uint16 | uint32 => exact hmap _ _

theorem setValues_words (s : Scalar) (self : DataView) (offset : Int) (value : List Int)
    (hw : s.width ≠ 1) :
    setValues s self offset value = setVector s.width s.set self offset value := by
  have hmap : ∀ (w : Nat) (set : DataView → Int → Nat → Result × DataView),
      setVector w set self offset (value.map Int.toNat) =
        setVector w (fun v o x => set v o x.toNat) self offset value := by
    intro w set
    simp only [setVector, List.length_map, setWords_map]
  cases s with
  | uint8 | int8 => exact absurd rfl hw
  | int16 | int32 => rfl
  | uint16 | uint32 => exact hmap _ _

theorem getValues_bytes (s : Scalar) (self : DataView) (offset : Int) (lgth : Nat)
    (hw : s.width = 1) : getValues s self offset lgth =
      (getBlock self offset lgth).map (List.map fun b => s.decode b.toNat) := by
  cases s with
  | int8 => rfl
  | uint8 =>
    simp only [getValues, getUint8Vector]
    cases getBlock self offset lgth with
    | error e => rfl
    | ok bs => simp [Except.map, Scalar.decode]
  | uint16 | int16 | uint32 | int32 => simp [Scalar.width] at hw

theorem setValues_bytes (s : Scalar) (self : DataView) (offset : Int) (value : List Int)
    (hw : s.width = 1) :
    setValues s self offset value = setBlock self offset (value.flatMap s.encode) := by
  cases s with
  | uint8 =>
    have he : Scalar.uint8.encode = fun v => [UInt8.ofNat v.toNat] := by
      funext v
      simp [Scalar.encode, Scalar.width, bigEndian]
    simp only [setValues, setUint8Vector, List.map_map, Function.comp_def, he]
    rw [List.map_eq_flatMap]
  | int8 =>
    have he : Scalar.int8.encode = fun v => [UInt8.ofNat (toSize v)] := by
      funext v
      simp [Scalar.encode, Scalar.width, bigEndian]
    simp only [setValues, setInt8Vector, List.map_eq_flatMap, he]
  | uint16 | int16 | uint32 | int32 => simp [Scalar.width] at hw

/-- A single byte stands for its value. -/
theorem encode_singleton (s : Scalar) (value : s.Value) (hw : s.width = 1) :
    ∃ b, s.encode value.1 = [b] ∧ s.decode b.toNat = value.1 := by
  obtain ⟨b, hb⟩ := List.length_eq_one_iff.mp ((s.encode_length value.1).trans hw)
  have hd := s.decode_encode value
  rw [hb] at hd
  exact ⟨b, hb, by simpa [ofBigEndian] using hd⟩

theorem decode_bytes (s : Scalar) (values : List s.Value) (hw : s.width = 1) :
    ((values.map Subtype.val).flatMap s.encode).map (fun b => s.decode b.toNat) =
      values.map Subtype.val := by
  induction values with
  | nil => rfl
  | cons v values ih =>
    obtain ⟨b, hb, hv⟩ := encode_singleton s v hw
    simp only [List.map_cons, List.flatMap_cons, hb, List.singleton_append, hv, ih]

theorem encode_flatMap_length (s : Scalar) (values : List Int) :
    (values.flatMap s.encode).length = values.length * s.width := by
  induction values with
  | nil => simp
  | cons v values ih =>
    simp only [List.flatMap_cons, List.length_append, Scalar.encode_length, ih, List.length_cons]
    ring

/-- Every word goes to the place of the first, so that the last one stays. -/
theorem setWords_eq (s : Scalar) (self : DataView) (offset : Int) (values : List Int)
    (hne : values ≠ []) (h : toSize (offset + (s.width - 1 : Nat)) ≤ self.lgth) :
    setWords s.set offset values self =
      (.ok (), { self with data := write self.data offset (s.encode (values.getLast hne)) }) := by
  induction values generalizing self with
  | nil => exact absurd rfl hne
  | cons v values ih =>
    rw [setWords, s.set_of_le self offset v h, checkErrOK_ok]
    cases values with
    | nil => rfl
    | cons w values =>
      have hnext := ih { self with data := write self.data offset (s.encode v) }
        (List.cons_ne_nil w values) h
      rw [write_write _ _ _ _ (by simp only [Scalar.encode_length, le_refl])] at hnext
      exact hnext

theorem setWords_error (s : Scalar) (self : DataView) (offset : Int) (values : List Int)
    (hne : values ≠ []) (h : self.lgth < toSize (offset + (s.width - 1 : Nat))) :
    (setWords s.set offset values self).1 = .error .outOfRange := by
  cases values with
  | nil => exact absurd rfl hne
  | cons v values => rw [setWords, s.set_of_gt self offset v h, checkErrOK_error]

/-- A list of values and the place for it, which ends in the view. -/
structure VectorAccess where
  type : Scalar
  view : DataView
  offset : Int
  values : List type.Value
  lgth_lt : view.lgth < 4294967296
  fits : offset + (values.length * type.width : Nat) ≤ view.lgth

namespace VectorAccess

def ints (a : VectorAccess) : List Int := a.values.map Subtype.val

@[simp] theorem ints_length (a : VectorAccess) : a.ints.length = a.values.length :=
  List.length_map _

def setResult (a : VectorAccess) : Result × DataView :=
  setValues a.type a.view a.offset a.ints

/-- The list is set and read back, and only its own bytes are written. -/
def RoundTrip (a : VectorAccess) : Prop :=
  a.setResult.1 = .ok () ∧
  getValues a.type a.setResult.2 a.offset a.values.length = .ok a.ints ∧
  ∀ j, j < a.offset ∨ a.offset + (a.values.length * a.type.width : Nat) ≤ j →
    a.setResult.2.data j = a.view.data j

/-- The comparison of the vector functions lets the list through. -/
def Accepted (a : VectorAccess) : Prop :=
  toSize (a.offset + (a.values.length * a.type.width : Nat)) ≤ a.view.lgth

/-- The comparison for a single word lets it through. -/
def WordAccepted (a : VectorAccess) : Prop :=
  toSize (a.offset + (a.type.width - 1 : Nat)) ≤ a.view.lgth

/-- The elements are bytes, or they are all the same. The comparisons matter for a negative offset
only. -/
def Constant (a : VectorAccess) : Prop :=
  a.Accepted ∧ (a.type.width = 1 ∨ a.ints = [] ∨
    (a.WordAccepted ∧ ∀ x ∈ a.ints, ∀ y ∈ a.ints, x = y))

theorem accepted_of_nonneg (a : VectorAccess) (h : 0 ≤ a.offset) : a.Accepted := by
  have hl := a.lgth_lt
  have hf := a.fits
  unfold Accepted toSize
  omega

theorem wordAccepted_of_nonneg (a : VectorAccess) (h : 0 ≤ a.offset) (hne : a.ints ≠ []) :
    a.WordAccepted := by
  have hl := a.lgth_lt
  have hf := a.fits
  have hn : 0 < a.values.length := by
    rw [← a.ints_length]
    exact List.length_pos_iff.mpr hne
  have hw : a.type.width ≤ a.values.length * a.type.width := Nat.le_mul_of_pos_left _ hn
  unfold WordAccepted toSize
  omega

/-- Inside the view only the values matter. -/
theorem constant_of_nonneg (a : VectorAccess) (h : 0 ≤ a.offset) :
    a.Constant ↔ a.type.width = 1 ∨ ∀ x ∈ a.ints, ∀ y ∈ a.ints, x = y := by
  by_cases hne : a.ints = []
  · simp [Constant, a.accepted_of_nonneg h, hne]
  · simp [Constant, a.accepted_of_nonneg h, hne, a.wordAccepted_of_nonneg h hne]

theorem setResult_of_not_accepted (a : VectorAccess) (h : ¬ a.Accepted) :
    a.setResult = (.error .outOfRange, a.view) := by
  have hlt := Nat.lt_of_not_le h
  by_cases hw : a.type.width = 1
  · rw [setResult, setValues_bytes _ _ _ _ hw]
    apply if_pos
    rwa [encode_flatMap_length, ints_length]
  · rw [setResult, setValues_words _ _ _ _ hw]
    apply if_pos
    rwa [ints_length]

theorem roundTrip_bytes (a : VectorAccess) (h : a.Accepted) (hw : a.type.width = 1) :
    a.RoundTrip := by
  have hlen : (a.ints.flatMap a.type.encode).length = a.values.length := by
    rw [encode_flatMap_length, ints_length, hw, Nat.mul_one]
  have hacc : ¬ a.view.lgth < toSize (a.offset + a.values.length) := by
    rw [Accepted, hw, Nat.mul_one] at h
    exact Nat.not_lt.mpr h
  have hset : a.setResult = (.ok (),
      { a.view with data := write a.view.data a.offset (a.ints.flatMap a.type.encode) }) := by
    rw [setResult, setValues_bytes _ _ _ _ hw]
    apply if_neg
    rwa [hlen]
  refine ⟨by rw [hset], ?_, ?_⟩
  · have hr := read_write a.view.data a.offset (a.ints.flatMap a.type.encode)
    rw [hlen] at hr
    have hg : getBlock a.setResult.2 a.offset a.values.length =
        .ok (a.ints.flatMap a.type.encode) := by
      rw [hset]
      exact (if_neg hacc).trans (congrArg _ hr)
    rw [getValues_bytes _ _ _ _ hw, hg]
    exact congrArg _ (decode_bytes a.type a.values hw)
  · intro j hj
    rw [hset]
    cases hj with
    | inl hlt => exact write_of_lt _ _ _ _ hlt
    | inr hge =>
      apply write_of_ge
      rw [hlen]
      rwa [hw, Nat.mul_one] at hge

theorem setResult_words (a : VectorAccess) (h : a.Accepted) (hw : a.type.width ≠ 1) :
    a.setResult = setWords a.type.set a.offset a.ints a.view := by
  rw [setResult, setValues_words _ _ _ _ hw]
  apply if_neg
  rw [ints_length]
  exact Nat.not_lt.mpr h

theorem getValues_of_accepted (a : VectorAccess) (h : a.Accepted) (hw : a.type.width ≠ 1)
    (v : DataView) (hv : v.lgth = a.view.lgth) :
    getValues a.type v a.offset a.values.length =
      getWords a.type.get v a.offset a.values.length := by
  rw [getValues_words _ _ _ _ hw]
  apply if_neg
  rw [hv]
  exact Nat.not_lt.mpr h

theorem roundTrip_nil (a : VectorAccess) (h : a.Accepted) (hw : a.type.width ≠ 1)
    (hnil : a.ints = []) : a.RoundTrip := by
  have hset : a.setResult = (.ok (), a.view) := by
    rw [a.setResult_words h hw, hnil]
    rfl
  have hn : a.values.length = 0 := by
    rw [← a.ints_length, hnil]
    rfl
  refine ⟨by rw [hset], ?_, ?_⟩
  · rw [hset, a.getValues_of_accepted h hw a.view rfl, hn, hnil]
    rfl
  · intro j _
    rw [hset]

/-- What a list of words is read back as: its last element, over and over. -/
theorem getValues_setResult (a : VectorAccess) (h : a.Accepted) (hw : a.type.width ≠ 1)
    (hne : a.ints ≠ []) (hword : a.WordAccepted) :
    getValues a.type a.setResult.2 a.offset a.values.length =
      .ok (List.replicate a.ints.length (a.ints.getLast hne)) := by
  obtain ⟨x, hx, hlast⟩ := List.mem_map.mp (List.getLast_mem hne)
  have hset := a.setResult_words h hw
  rw [setWords_eq a.type a.view a.offset a.ints hne hword] at hset
  rw [a.getValues_of_accepted h hw _ (by rw [hset]), hset, ← hlast, ints_length]
  apply getWords_of_ok
  exact a.type.get_write a.view a.offset x hword

theorem frame (a : VectorAccess) (h : a.Accepted) (hw : a.type.width ≠ 1) (hne : a.ints ≠ [])
    (hword : a.WordAccepted) (j : Int)
    (hj : j < a.offset ∨ a.offset + (a.values.length * a.type.width : Nat) ≤ j) :
    a.setResult.2.data j = a.view.data j := by
  have hn : 0 < a.values.length := by
    rw [← a.ints_length]
    exact List.length_pos_iff.mpr hne
  have hle : a.type.width ≤ a.values.length * a.type.width := Nat.le_mul_of_pos_left _ hn
  rw [a.setResult_words h hw, setWords_eq a.type a.view a.offset a.ints hne hword]
  cases hj with
  | inl hlt => exact write_of_lt _ _ _ _ hlt
  | inr hge =>
    apply write_of_ge
    rw [Scalar.encode_length]
    omega

/-- A vector of words comes back exactly when its elements are all the same. -/
theorem roundTrip_iff_constant (a : VectorAccess) : a.RoundTrip ↔ a.Constant := by
  by_cases h : a.Accepted
  · by_cases hw : a.type.width = 1
    · simp [Constant, h, hw, a.roundTrip_bytes h hw]
    · by_cases hnil : a.ints = []
      · simp [Constant, h, hnil, a.roundTrip_nil h hw hnil]
      · by_cases hword : a.WordAccepted
        · have hset := a.setResult_words h hw
          rw [setWords_eq a.type a.view a.offset a.ints hnil hword] at hset
          have hframe := a.frame h hw hnil hword
          have hget := a.getValues_setResult h hw hnil hword
          simp only [Constant, h, hw, hnil, hword, true_and, false_or]
          constructor
          · rintro ⟨-, hsame, -⟩ x hx y hy
            have hall := List.eq_replicate_iff.mp (Except.ok.inj (hsame.symm.trans hget))
            rw [hall.2 x hx, hall.2 y hy]
          · intro hall
            refine ⟨by rw [hset], ?_, hframe⟩
            have hrep : a.ints = List.replicate a.ints.length (a.ints.getLast hnil) :=
              List.eq_replicate_iff.mpr
                ⟨rfl, fun x hx => hall x hx _ (List.getLast_mem hnil)⟩
            rw [hget, ← hrep]
        · have herr := setWords_error a.type a.view a.offset a.ints hnil
            (Nat.lt_of_not_le hword)
          simp only [Constant, h, hw, hnil, hword, false_and, or_self, and_false, iff_false]
          intro hr
          rw [RoundTrip, a.setResult_words h hw, herr] at hr
          simp at hr
  · simp only [Constant, h, false_and, iff_false]
    intro hr
    rw [RoundTrip, a.setResult_of_not_accepted h] at hr
    simp at hr

/-- Two words for the beginning of a view of six bytes. -/
def twoWords : VectorAccess :=
  ⟨.uint16, ⟨fun _ => 0, 6⟩, 0, [⟨1, by decide⟩, ⟨2, by decide⟩], by decide, by decide⟩

theorem twoWords_not_roundTrip : ¬ twoWords.RoundTrip := by
  rintro ⟨-, hget, -⟩
  exact absurd hget (by decide)

end VectorAccess

end NodeMcu.CompMsg.Vectors
