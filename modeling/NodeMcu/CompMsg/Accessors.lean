import NodeMcu.CompMsg.View

namespace NodeMcu.CompMsg.Accessors

open NodeMcu.Lib.Memory NodeMcu.CompMsg.Codes NodeMcu.CompMsg.View

/-- The types that a data view reads and writes. -/
inductive Scalar
  | uint8
  | int8
  | uint16
  | int16
  | uint32
  | int32
  deriving DecidableEq, Repr

namespace Scalar

def width : Scalar → Nat
  | uint8 | int8 => 1
  | uint16 | int16 => 2
  | uint32 | int32 => 4

/-- How many words there are of the width. -/
def words : Scalar → Nat
  | uint8 | int8 => 256
  | uint16 | int16 => 65536
  | uint32 | int32 => 4294967296

def lo : Scalar → Int
  | int8 => -128
  | int16 => -32768
  | int32 => -2147483648
  | uint8 | uint16 | uint32 => 0

def hi : Scalar → Int
  | int8 => 128
  | uint8 => 256
  | int16 => 32768
  | uint16 => 65536
  | int32 => 2147483648
  | uint32 => 4294967296

/-- The values of the type. -/
abbrev Value (s : Scalar) : Type := { v : Int // s.lo ≤ v ∧ v < s.hi }

def get (s : Scalar) (self : DataView) (offset : Int) : Except CompMsgErr Int :=
  match s with
  | uint8 => (getUint8 self offset).map Nat.cast
  | int8 => getInt8 self offset
  | uint16 => (getUint16 self offset).map Nat.cast
  | int16 => getInt16 self offset
  | uint32 => (getUint32 self offset).map Nat.cast
  | int32 => getInt32 self offset

def set (s : Scalar) (self : DataView) (offset value : Int) : Result × DataView :=
  match s with
  | uint8 => setUint8 self offset value.toNat
  | int8 => setInt8 self offset value
  | uint16 => setUint16 self offset value.toNat
  | int16 => setInt16 self offset value
  | uint32 => setUint32 self offset value.toNat
  | int32 => setInt32 self offset value

/-- What is written for a value. -/
def encode (s : Scalar) (value : Int) : List UInt8 :=
  match s with
  | uint8 | uint16 | uint32 => bigEndian s.width value.toNat
  | int8 | int16 | int32 => bigEndian s.width (toSize value)

/-- The value of the word that is read. -/
def decode (s : Scalar) (n : Nat) : Int :=
  match s with
  | uint8 | uint16 | uint32 => n
  | int8 | int16 | int32 => Int.bmod n s.words

@[simp] theorem encode_length (s : Scalar) (value : Int) : (s.encode value).length = s.width := by
  cases s <;> exact bigEndian_length _ _

theorem width_pos (s : Scalar) : 0 < s.width := by
  cases s <;> decide

theorem words_eq (s : Scalar) : 256 ^ s.width = s.words := by
  cases s <;> rfl

theorem get_eq (s : Scalar) (self : DataView) (offset : Int) :
    s.get self offset = (getBytes self offset s.width).map s.decode := by
  cases s <;> rfl

theorem set_eq (s : Scalar) (self : DataView) (offset value : Int) :
    s.set self offset value = put self offset (s.encode value) := by
  cases s <;> rfl

theorem bmod_toSize (v : Int) (m : Nat) (hm : m ∣ 4294967296) (hlo : -(m : Int) ≤ v * 2)
    (hhi : v * 2 < m) : Int.bmod ((toSize v % m : Nat) : Int) m = v := by
  have hm' : (m : Int) ∣ 4294967296 := by exact_mod_cast hm
  have hs : ((toSize v % m : Nat) : Int) = v % 4294967296 % m := by
    have h0 : 0 ≤ v % 4294967296 := by omega
    rw [toSize, Int.natCast_emod, Int.toNat_of_nonneg h0]
  rw [hs, Int.emod_emod_of_dvd v hm', Int.emod_bmod]
  apply Int.bmod_eq_of_le_mul_two
  · omega
  · omega

theorem decode_encode (s : Scalar) (value : s.Value) :
    s.decode (ofBigEndian (s.encode value.1)) = value.1 := by
  obtain ⟨v, hlo, hhi⟩ := value
  cases s with
  | uint8 | uint16 | uint32 =>
    simp only [lo, hi] at hlo hhi
    simp only [encode, decode, ofBigEndian_bigEndian, words_eq, words]
    omega
  | int8 | int16 | int32 =>
    simp only [lo, hi] at hlo hhi
    simp only [encode, decode, ofBigEndian_bigEndian, words_eq]
    apply bmod_toSize v
    · decide
    · simp only [words]; omega
    · simp only [words]; omega

section Accepted

variable (s : Scalar) (self : DataView) (offset : Int)

theorem get_of_le (h : toSize (offset + (s.width - 1 : Nat)) ≤ self.lgth) :
    s.get self offset = .ok (s.decode (ofBigEndian (read self.data offset s.width))) := by
  rw [get_eq, getBytes_of_le self offset s.width h]
  rfl

theorem get_of_gt (h : self.lgth < toSize (offset + (s.width - 1 : Nat))) :
    s.get self offset = .error .outOfRange := by
  rw [get_eq, getBytes_of_gt self offset s.width h]
  rfl

theorem set_of_le (value : Int) (h : toSize (offset + (s.width - 1 : Nat)) ≤ self.lgth) :
    s.set self offset value =
      (.ok (), { self with data := write self.data offset (s.encode value) }) := by
  rw [set_eq]
  apply put_of_le
  rwa [encode_length]

theorem set_of_gt (value : Int) (h : self.lgth < toSize (offset + (s.width - 1 : Nat))) :
    s.set self offset value = (.error .outOfRange, self) := by
  rw [set_eq]
  apply put_of_gt
  rwa [encode_length]

/-- The getter behind the setter. -/
theorem get_write (value : s.Value) (h : toSize (offset + (s.width - 1 : Nat)) ≤ self.lgth) :
    s.get { self with data := write self.data offset (s.encode value.1) } offset =
      .ok value.1 := by
  have hr := read_write self.data offset (s.encode value.1)
  rw [encode_length] at hr
  rw [get_of_le s { self with data := write self.data offset (s.encode value.1) } offset h]
  simp only [hr, decode_encode]

end Accepted

end Scalar

/-- A view of any length, an offset and the type of an accessor called there. -/
structure Access where
  type : Scalar
  view : DataView
  offset : Int
  lgth_lt : view.lgth < 4294967296
  offset_int : -2147483648 ≤ offset ∧ offset < 2147483648

namespace Access

def InRange (a : Access) : Prop := 0 ≤ a.offset ∧ a.offset + a.type.width ≤ a.view.lgth

/-- The comparison of the accessors lets the call through. -/
def Accepted (a : Access) : Prop := toSize (a.offset + (a.type.width - 1 : Nat)) ≤ a.view.lgth

/-- Both accessors succeed where the value lies in the view and fail elsewhere without writing; a
value that is set is read back, and only its bytes are written. -/
def Sound (a : Access) (value : a.type.Value) : Prop :=
  ((∃ v, a.type.get a.view a.offset = .ok v) ↔ a.InRange) ∧
  ((a.type.set a.view a.offset value.1).1 = .ok () ↔ a.InRange) ∧
  (¬ a.InRange → a.type.get a.view a.offset = .error .outOfRange ∧
    a.type.set a.view a.offset value.1 = (.error .outOfRange, a.view)) ∧
  ((a.type.set a.view a.offset value.1).1 = .ok () →
    a.type.get (a.type.set a.view a.offset value.1).2 a.offset = .ok value.1 ∧
    ∀ j, j < a.offset ∨ a.offset + a.type.width ≤ j →
      (a.type.set a.view a.offset value.1).2.data j = a.view.data j)

/-- The value lies in the view, or it ends more than one byte behind it, or it begins so far in
front of it that the wrapped offset lies behind the view. -/
def Decided (a : Access) : Prop :=
  a.InRange ∨ (a.view.lgth : Int) + 1 < a.offset + a.type.width ∨
    (a.offset + a.type.width ≤ 0 ∧
      (a.view.lgth : Int) + 1 < 4294967296 + a.offset + a.type.width)

theorem accepted_of_inRange (a : Access) (h : a.InRange) : a.Accepted := by
  have hw := a.type.width_pos
  have hl := a.lgth_lt
  obtain ⟨h0, hle⟩ := h
  unfold Accepted toSize
  omega

theorem decided_iff (a : Access) : a.Decided ↔ (a.Accepted ↔ a.InRange) := by
  have hacc := a.accepted_of_inRange
  by_cases hr : a.InRange
  · simp only [Decided, hr, hacc hr, true_or]
  · have hw := a.type.width_pos
    have h4 : a.type.width ≤ 4 := by
      cases a.type <;> decide
    have hl := a.lgth_lt
    obtain ⟨hlo, hhi⟩ := a.offset_int
    simp only [Decided, hr, false_or, iff_false]
    unfold Accepted toSize
    omega

theorem get_of_accepted (a : Access) (h : a.Accepted) :
    a.type.get a.view a.offset =
      .ok (a.type.decode (ofBigEndian (read a.view.data a.offset a.type.width))) :=
  a.type.get_of_le a.view a.offset h

theorem set_of_accepted (a : Access) (value : Int) (h : a.Accepted) :
    a.type.set a.view a.offset value =
      (.ok (), { a.view with data := write a.view.data a.offset (a.type.encode value) }) :=
  a.type.set_of_le a.view a.offset value h

theorem get_of_not_accepted (a : Access) (h : ¬ a.Accepted) :
    a.type.get a.view a.offset = .error .outOfRange :=
  a.type.get_of_gt a.view a.offset (Nat.lt_of_not_le h)

theorem set_of_not_accepted (a : Access) (value : Int) (h : ¬ a.Accepted) :
    a.type.set a.view a.offset value = (.error .outOfRange, a.view) :=
  a.type.set_of_gt a.view a.offset value (Nat.lt_of_not_le h)

theorem set_ok_iff (a : Access) (value : Int) :
    (a.type.set a.view a.offset value).1 = .ok () ↔ a.Accepted := by
  by_cases h : a.Accepted
  · simp only [a.set_of_accepted value h, h]
  · simp only [a.set_of_not_accepted value h, h, reduceCtorEq]

theorem get_set (a : Access) (value : a.type.Value) (h : a.Accepted) :
    a.type.get (a.type.set a.view a.offset value.1).2 a.offset = .ok value.1 := by
  rw [a.set_of_accepted value.1 h]
  exact a.type.get_write a.view a.offset value h

theorem set_frame (a : Access) (value j : Int)
    (hj : j < a.offset ∨ a.offset + a.type.width ≤ j) :
    (a.type.set a.view a.offset value).2.data j = a.view.data j := by
  by_cases h : a.Accepted
  · rw [a.set_of_accepted value h]
    cases hj with
    | inl hlt => exact write_of_lt _ _ _ _ hlt
    | inr hge => exact write_of_ge _ _ _ _ (by rwa [Scalar.encode_length])
  · rw [a.set_of_not_accepted value h]

/-- The accessors keep their range exactly where the wrong comparison makes no difference. -/
theorem sound_iff_decided (a : Access) (value : a.type.Value) : a.Sound value ↔ a.Decided := by
  rw [decided_iff]
  constructor
  · intro h
    exact (a.set_ok_iff value.1).symm.trans h.2.1
  · intro h
    refine ⟨?_, (a.set_ok_iff value.1).trans h, ?_, ?_⟩
    · rw [← h]
      constructor
      · intro hv
        by_contra hn
        simp [a.get_of_not_accepted hn] at hv
      · intro ha
        exact ⟨_, a.get_of_accepted ha⟩
    · intro hn
      have hna : ¬ a.Accepted := fun ha => hn (h.mp ha)
      exact ⟨a.get_of_not_accepted hna, a.set_of_not_accepted value.1 hna⟩
    · intro hset
      exact ⟨a.get_set value ((a.set_ok_iff value.1).mp hset), fun j => a.set_frame value.1 j⟩

/-- A byte set right behind a view of four. -/
def behind : Access :=
  ⟨.uint8, ⟨fun _ => 0, 4⟩, 4, by decide, by decide⟩

theorem behind_not_sound : ¬ behind.Sound ⟨7, by decide⟩ := by
  intro h
  have hr := h.2.1.mp rfl
  exact absurd hr.2 (by decide)

end Access

end NodeMcu.CompMsg.Accessors
