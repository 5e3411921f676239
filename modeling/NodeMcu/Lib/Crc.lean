import Mathlib.Data.BitVec
import Mathlib.Data.Nat.Bitwise

namespace NodeMcu.Lib.Crc

/-! Cyclic redundancy checks of any width, the bits of a message from the least significant one
on. -/

variable {w : Nat} (p : BitVec w)

/-- A remainder shifted by one place. -/
def shift (c : BitVec w) : BitVec w := if c.getLsbD 0 then c >>> 1 ^^^ p else c >>> 1

/-- The remainder after one more bit. -/
def step (c : BitVec w) (b : Bool) : BitVec w :=
  if c.getLsbD 0 != b then c >>> 1 ^^^ p else c >>> 1

def crc (c : BitVec w) (bs : List Bool) : BitVec w := bs.foldl (step p) c

def shifts (n : Nat) (c : BitVec w) : BitVec w := (shift p)^[n] c

/-- The word with these bits. -/
def word : List Bool → BitVec w
  | [] => 0#w
  | b :: bs => (word bs <<< 1) ^^^ (if b then 1#w else 0#w)

@[simp] theorem crc_nil (c : BitVec w) : crc p c [] = c := rfl

@[simp] theorem crc_cons (c : BitVec w) (b : Bool) (bs : List Bool) :
    crc p c (b :: bs) = crc p (step p c b) bs := rfl

theorem crc_append (c : BitVec w) (as bs : List Bool) :
    crc p c (as ++ bs) = crc p (crc p c as) bs := List.foldl_append

/-! ## Shifts -/

theorem shift_xor (a b : BitVec w) : shift p (a ^^^ b) = shift p a ^^^ shift p b := by
  rw [shift, shift, shift, BitVec.getLsbD_xor, BitVec.ushiftRight_xor_distrib]
  cases a.getLsbD 0 <;> cases b.getLsbD 0
  · rfl
  · exact BitVec.xor_assoc ..
  · calc a >>> 1 ^^^ b >>> 1 ^^^ p
        _ = a >>> 1 ^^^ (b >>> 1 ^^^ p) := BitVec.xor_assoc ..
        _ = a >>> 1 ^^^ (p ^^^ b >>> 1) := by rw [BitVec.xor_comm p]
        _ = a >>> 1 ^^^ p ^^^ b >>> 1 := (BitVec.xor_assoc ..).symm
  · calc a >>> 1 ^^^ b >>> 1
        _ = a >>> 1 ^^^ (p ^^^ p ^^^ b >>> 1) := by rw [BitVec.xor_self, BitVec.zero_xor]
        _ = a >>> 1 ^^^ p ^^^ (p ^^^ b >>> 1) := by simp only [BitVec.xor_assoc]
        _ = a >>> 1 ^^^ p ^^^ (b >>> 1 ^^^ p) := by rw [BitVec.xor_comm p (b >>> 1)]

theorem shifts_xor (n : Nat) (a b : BitVec w) :
    shifts p n (a ^^^ b) = shifts p n a ^^^ shifts p n b := by
  induction n generalizing a b with
  | zero => rfl
  | succ n ih =>
    rw [shifts, Function.iterate_succ_apply, shift_xor]
    exact ih _ _

theorem shifts_succ (n : Nat) (c : BitVec w) : shifts p (n + 1) c = shifts p n (shift p c) := rfl

/-- With its highest bit set the polynomial loses nothing. -/
theorem shift_eq_zero (hp : p.getLsbD (w - 1) = true) {c : BitVec w} (h : shift p c = 0#w) :
    c = 0#w := by
  have hw : 0 < w := by
    by_contra hw
    rw [BitVec.getLsbD_of_ge p _ (by omega)] at hp
    cases hp
  have htop : (c >>> 1).getLsbD (w - 1) = false := by
    rw [BitVec.getLsbD_ushiftRight]
    exact BitVec.getLsbD_of_ge c _ (by omega)
  have hlow : c.getLsbD 0 = false := by
    by_contra hlow
    rw [Bool.not_eq_false] at hlow
    rw [shift, if_pos hlow] at h
    have := congrArg (·.getLsbD (w - 1)) h
    simp only [BitVec.getLsbD_xor, htop, hp, BitVec.getLsbD_zero] at this
    cases this
  rw [shift, hlow, if_neg Bool.false_ne_true] at h
  refine BitVec.eq_of_getLsbD_eq fun i hi => ?_
  rw [BitVec.getLsbD_zero]
  cases i with
  | zero => exact hlow
  | succ i =>
    have := congrArg (·.getLsbD i) h
    rwa [BitVec.getLsbD_ushiftRight, BitVec.getLsbD_zero, Nat.add_comm] at this

theorem shifts_eq_zero (hp : p.getLsbD (w - 1) = true) (n : Nat) {c : BitVec w}
    (h : shifts p n c = 0#w) : c = 0#w := by
  induction n generalizing c with
  | zero => exact h
  | succ n ih => exact shift_eq_zero p hp (ih h)

theorem shifts_injective (hp : p.getLsbD (w - 1) = true) (n : Nat) :
    Function.Injective (shifts p n) := by
  intro a b h
  refine BitVec.xor_eq_zero_iff.mp (shifts_eq_zero p hp n ?_)
  rw [shifts_xor, h, BitVec.xor_self]

/-- Zeros at the low end are shifted out. -/
theorem shifts_of_low_zero {n : Nat} {c : BitVec w} (h : ∀ i < n, c.getLsbD i = false) :
    shifts p n c = c >>> n := by
  induction n generalizing c with
  | zero => exact (BitVec.ushiftRight_zero c).symm
  | succ n ih =>
    have hshift : shift p c = c >>> 1 := by
      rw [shift, h 0 (Nat.succ_pos n), if_neg Bool.false_ne_true]
    rw [shifts_succ, hshift, ih fun i hi => ?_, ← BitVec.shiftRight_add, Nat.add_comm]
    rw [BitVec.getLsbD_ushiftRight]
    exact h (1 + i) (by omega)

/-! ## Words -/

theorem getLsbD_word (bs : List Bool) (i : Nat) (hi : i < w) :
    (word bs : BitVec w).getLsbD i = bs.getD i false := by
  induction bs generalizing i with
  | nil => rw [word, BitVec.getLsbD_zero]; rfl
  | cons b bs ih =>
    have hone : (if b then 1#w else 0#w).getLsbD i = (b && decide (i = 0)) := by
      cases b with
      | true => simpa using fun _ => by omega
      | false => simp
    rw [word, BitVec.getLsbD_xor, hone, BitVec.getLsbD_shiftLeft]
    cases i with
    | zero => simp
    | succ i => simp [hi, ih i (by omega)]

theorem word_injective {as bs : List Bool} (hlength : as.length = bs.length)
    (hw : as.length ≤ w) (h : (word as : BitVec w) = word bs) : as = bs := by
  refine List.ext_getElem hlength fun i ha hb => ?_
  have := congrArg (·.getLsbD i) h
  simpa [getLsbD_word _ _ (ha.trans_le hw), ha, hb] using this

theorem shift_shiftLeft (c : BitVec w) (h : c.getLsbD (w - 1) = false) : shift p (c <<< 1) = c := by
  have hlow : (c <<< 1).getLsbD 0 = false := by simp
  rw [shift, hlow, if_neg Bool.false_ne_true]
  refine BitVec.eq_of_getLsbD_eq fun i hi => ?_
  rw [BitVec.getLsbD_ushiftRight, BitVec.getLsbD_shiftLeft]
  by_cases hlast : 1 + i < w
  · simp [hlast]
  · obtain rfl : i = w - 1 := by omega
    simp [hlast, h]

theorem step_eq (c : BitVec w) (b : Bool) :
    step p c b = shift p (c ^^^ if b then 1#w else 0#w) := by
  rcases Nat.eq_zero_or_pos w with rfl | hw
  · exact BitVec.eq_of_zero_length rfl
  · have hone : (1#w) >>> 1 = 0#w := by
      refine BitVec.eq_of_getLsbD_eq fun i hi => ?_
      simp
    cases b with
    | true =>
      rw [if_pos rfl, step, shift, BitVec.getLsbD_xor, BitVec.ushiftRight_xor_distrib, hone]
      simp [hw]
    | false => simp [step, shift]

/-- The bits of at most one word are taken at once. -/
theorem crc_word (c : BitVec w) {bs : List Bool} (h : bs.length ≤ w) :
    crc p c bs = shifts p bs.length (c ^^^ word bs) := by
  induction bs generalizing c with
  | nil => exact (BitVec.xor_zero).symm
  | cons b bs ih =>
    rw [List.length_cons] at h
    have htop : (word bs : BitVec w).getLsbD (w - 1) = false := by
      rw [getLsbD_word bs _ (by omega), List.getD_eq_default _ _ (by omega)]
    calc crc p c (b :: bs)
        _ = shifts p bs.length (step p c b ^^^ word bs) := ih _ (by omega)
        _ = shifts p bs.length (shift p (c ^^^ word (b :: bs))) := by
          rw [word, BitVec.xor_comm (word bs <<< 1), ← BitVec.xor_assoc, shift_xor,
            shift_shiftLeft p _ htop, step_eq]

/-! ## Errors -/

/-- `bs` is `as` changed within `n` bits in a row. -/
def Burst (n : Nat) (as bs : List Bool) : Prop :=
  as ≠ bs ∧ ∃ before xs ys after, as = before ++ xs ++ after ∧ bs = before ++ ys ++ after ∧
    xs.length = ys.length ∧ xs.length ≤ n

theorem crc_xor (a b : BitVec w) (bs : List Bool) :
    crc p (a ^^^ b) bs = crc p a bs ^^^ shifts p bs.length b := by
  induction bs generalizing a b with
  | nil => rfl
  | cons c bs ih =>
    have hstep : step p (a ^^^ b) c = step p a c ^^^ shift p b := by
      rw [step_eq, step_eq, ← shift_xor, BitVec.xor_assoc, BitVec.xor_comm b,
        ← BitVec.xor_assoc]
    rw [crc_cons, hstep, ih]
    rfl

theorem crc_injective (hp : p.getLsbD (w - 1) = true) (bs : List Bool) :
    Function.Injective fun c => crc p c bs := by
  have hsplit (c : BitVec w) : crc p c bs = crc p (0#w) bs ^^^ shifts p bs.length c := by
    rw [← crc_xor, BitVec.zero_xor]
  intro a b (h : crc p a bs = crc p b bs)
  rw [hsplit a, hsplit b] at h
  exact shifts_injective p hp _ ((BitVec.xor_right_inj _).mp h)

/-- A message changed within as many bits in a row as the remainder has is told from the
message. -/
theorem crc_burst (hp : p.getLsbD (w - 1) = true) (c : BitVec w) {as bs : List Bool}
    (h : Burst w as bs) : crc p c as ≠ crc p c bs := by
  obtain ⟨hne, before, xs, ys, after, rfl, rfl, hlength, hw⟩ := h
  intro hsame
  simp only [crc_append] at hsame
  have hword := crc_injective p hp after hsame
  generalize crc p c before = r at hword
  rw [crc_word p r hw, crc_word p r (hlength.symm.trans_le hw), ← hlength] at hword
  refine hne (congrArg (before ++ · ++ after) (word_injective hlength hw ?_))
  exact (BitVec.xor_right_inj r).mp (shifts_injective p hp _ hword)

/-- A message with a word behind it leaves no remainder exactly when the word is that of the
message. -/
theorem crc_append_eq_zero (hp : p.getLsbD (w - 1) = true) (c : BitVec w) (message : List Bool)
    {bs : List Bool} (h : bs.length = w) :
    crc p c (message ++ bs) = 0#w ↔ word bs = crc p c message := by
  rw [crc_append, crc_word p _ h.le]
  constructor
  · exact fun hzero => (BitVec.xor_eq_zero_iff.mp (shifts_eq_zero p hp _ hzero)).symm
  · intro hword
    have hzero (n : Nat) : shifts p n (0#w) = 0#w := by
      have := shifts_xor p n (0#w) (0#w)
      rwa [BitVec.xor_self, BitVec.xor_self] at this
    rw [hword, BitVec.xor_self, hzero]

end NodeMcu.Lib.Crc
