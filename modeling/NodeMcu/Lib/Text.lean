import Mathlib.Algebra.Group.Nat.Defs
import Mathlib.Algebra.Group.Int.Defs
import Mathlib.Data.List.TakeWhile
import Mathlib.Data.Nat.Digits.Lemmas

namespace NodeMcu.Lib.Text

/-! ## Strings in ASCII, with the functions of the standard library on them -/

def bytesOf (s : String) : List UInt8 := s.toList.map fun c => UInt8.ofNat c.toNat

/-- The string that begins a buffer, up to its zero. -/
def cString (bytes : List UInt8) : List UInt8 := bytes.takeWhile (· != 0)

def isSpace (c : UInt8) : Bool := c == 0x20 || (9 ≤ c && c ≤ 13)

def isDigit (c : UInt8) : Bool := 0x30 ≤ c && c ≤ 0x39

def decimal (digits : List UInt8) : Nat := digits.foldl (fun a c => 10 * a + (c.toNat - 0x30)) 0

/-- The number at the beginning of a text, with a sign in front or without. -/
def number (s : List UInt8) : Int :=
  let s := s.dropWhile isSpace
  if s.head? = some 0x2D then -(decimal (s.tail.takeWhile isDigit) : Int)
  else decimal ((if s.head? = some 0x2B then s.tail else s).takeWhile isDigit)

def IsInt (v : Int) : Prop := -2 ^ 31 ≤ v ∧ v < 2 ^ 31

instance (v : Int) : Decidable (IsInt v) :=
  inferInstanceAs (Decidable (-2 ^ 31 ≤ v ∧ v < 2 ^ 31))

/-- For a number that no `int` holds the result is not defined; it is `overflow`. -/
def atoi (overflow : Int) (s : List UInt8) : Int :=
  if IsInt (number s) then number s else overflow

def toLower (c : UInt8) : UInt8 := if 0x41 ≤ c && c ≤ 0x5A then c + 0x20 else c

def isXDigit (c : UInt8) : Bool :=
  isDigit c || (0x41 ≤ c && c ≤ 0x46) || (0x61 ≤ c && c ≤ 0x66)

/-- The value of a hexadecimal digit. -/
def hexValue (c : UInt8) : Nat :=
  if isDigit c then c.toNat - 0x30 else if c ≤ 0x46 then c.toNat - 0x37 else c.toNat - 0x57

def hexadecimal (digits : List UInt8) : Nat := digits.foldl (fun a c => 16 * a + hexValue c) 0

/-- `strtoul` in base 16, where a `long` has 32 bits. -/
def strtoul16 (s : List UInt8) : Nat :=
  let s := s.dropWhile isSpace
  let negative := decide (s.head? = some 0x2D)
  let s := if s.head? = some 0x2D ∨ s.head? = some 0x2B then s.tail else s
  let s := if s.head? = some 0x30 ∧ s.tail.head?.map toLower = some 0x78 then s.drop 2 else s
  let n := hexadecimal (s.takeWhile isXDigit)
  if 2 ^ 32 ≤ n then 2 ^ 32 - 1 else if negative then (2 ^ 32 - n) % 2 ^ 32 else n

/-- `strtoul` in base 10, where a `long` has 32 bits. -/
def strtoul10 (s : List UInt8) : Nat :=
  let s := s.dropWhile isSpace
  let negative := decide (s.head? = some 0x2D)
  let s := if s.head? = some 0x2D ∨ s.head? = some 0x2B then s.tail else s
  let n := decimal (s.takeWhile isDigit)
  if 2 ^ 32 ≤ n then 2 ^ 32 - 1 else if negative then (2 ^ 32 - n) % 2 ^ 32 else n

/-- A number as it is printed. -/
def toDecimal (n : Nat) : List UInt8 :=
  if n = 0 then [0x30] else (Nat.digits 10 n).reverse.map fun d => UInt8.ofNat (0x30 + d)

def printInt (z : Int) : List UInt8 :=
  if z < 0 then 0x2D :: toDecimal z.natAbs else toDecimal z.natAbs

/-! ## Printed numbers -/

theorem toDecimal_digit {n d : Nat} (h : d ∈ Nat.digits 10 n) :
    isDigit (UInt8.ofNat (0x30 + d)) = true ∧ (UInt8.ofNat (0x30 + d)).toNat - 0x30 = d := by
  have hlt : d < 10 := Nat.digits_lt_base (by decide) h
  have hall : ∀ d < 10, isDigit (UInt8.ofNat (0x30 + d)) = true ∧
      (UInt8.ofNat (0x30 + d)).toNat - 0x30 = d := by decide
  exact hall d hlt

theorem isDigit_of_mem_toDecimal {n : Nat} {c : UInt8} (h : c ∈ toDecimal n) :
    isDigit c = true := by
  rw [toDecimal] at h
  split at h
  · rw [List.mem_singleton.mp h]
    rfl
  · obtain ⟨d, hd, rfl⟩ := List.mem_map.mp h
    exact (toDecimal_digit (List.mem_reverse.mp hd)).1

theorem toDecimal_ne_nil (n : Nat) : toDecimal n ≠ [] := by
  rw [toDecimal]
  split
  · exact List.cons_ne_nil _ _
  · rename_i h
    rw [ne_eq, List.map_eq_nil_iff, List.reverse_eq_nil_iff]
    exact Nat.digits_ne_nil_iff_ne_zero.mpr h

/-- A number that is printed is read as it was. -/
theorem decimal_toDecimal (n : Nat) : decimal (toDecimal n) = n := by
  have hfold : ∀ ds : List Nat, (∀ d ∈ ds, (UInt8.ofNat (0x30 + d)).toNat - 0x30 = d) →
      decimal (ds.reverse.map fun d => UInt8.ofNat (0x30 + d)) = Nat.ofDigits 10 ds := by
    intro ds
    induction ds with
    | nil => exact fun _ => rfl
    | cons d ds ih =>
      intro h
      have hd := h d List.mem_cons_self
      have hds := ih fun x hx => h x (List.mem_cons_of_mem _ hx)
      rw [decimal] at hds ⊢
      rw [List.reverse_cons, List.map_append, List.foldl_append, hds, Nat.ofDigits_cons]
      change 10 * Nat.ofDigits 10 ds + ((UInt8.ofNat (0x30 + d)).toNat - 0x30) = _
      rw [hd, Nat.add_comm]
  rw [toDecimal]
  split
  · rename_i h
    rw [h]
    rfl
  · rw [hfold _ fun d hd => (toDecimal_digit hd).2]
    exact Nat.ofDigits_digits 10 n

theorem toDecimal_length_le {n k : Nat} (hk : 0 < k) :
    (toDecimal n).length ≤ k ↔ n < 10 ^ k := by
  rw [toDecimal]
  split
  · rename_i h
    rw [h]
    exact iff_of_true hk (Nat.pow_pos (by decide))
  · rw [List.length_map, List.length_reverse]
    exact Nat.digits_length_le_iff (by decide) n

/-! ## Hexadecimal numbers -/

/-- What ends a hexadecimal number, and is no part of the mark in front of one. -/
def EndsHex (rest : List UInt8) : Prop :=
  ∀ c ∈ rest.head?, isXDigit c = false ∧ toLower c ≠ 0x78

instance (rest : List UInt8) : Decidable (EndsHex rest) :=
  inferInstanceAs (Decidable (∀ c ∈ rest.head?, isXDigit c = false ∧ toLower c ≠ 0x78))

theorem isXDigit_plain {c : UInt8} (h : isXDigit c = true) :
    isSpace c = false ∧ c ≠ 0x2D ∧ c ≠ 0x2B ∧ toLower c ≠ 0x78 := by
  have hall : ∀ n < 256, isXDigit (UInt8.ofNat n) = true →
      isSpace (UInt8.ofNat n) = false ∧ UInt8.ofNat n ≠ 0x2D ∧ UInt8.ofNat n ≠ 0x2B ∧
        toLower (UInt8.ofNat n) ≠ 0x78 := by decide +kernel
  rw [← UInt8.ofNat_toNat (x := c)] at h ⊢
  exact hall c.toNat c.toNat_lt h

theorem takeWhile_hex {digits rest : List UInt8} (hdigits : ∀ c ∈ digits, isXDigit c = true)
    (hrest : EndsHex rest) : (digits ++ rest).takeWhile isXDigit = digits := by
  rw [List.takeWhile_append_of_pos hdigits]
  cases rest with
  | nil => exact List.append_nil _
  | cons c rest =>
    rw [List.takeWhile_cons_of_neg (by rw [(hrest c rfl).1]; exact Bool.false_ne_true)]
    exact List.append_nil _

/-- Digits are read as the number that they are, up to what ends them. -/
theorem strtoul16_digits {digits rest : List UInt8} (hne : digits ≠ [])
    (hdigits : ∀ c ∈ digits, isXDigit c = true) (hrest : EndsHex rest)
    (hlt : hexadecimal digits < 2 ^ 32) : strtoul16 (digits ++ rest) = hexadecimal digits := by
  have htake := takeWhile_hex hdigits hrest
  obtain ⟨c, digits, rfl⟩ := List.exists_cons_of_ne_nil hne
  obtain ⟨hspace, hminus, hplus, -⟩ := isXDigit_plain (hdigits c List.mem_cons_self)
  have hmark : ¬((c :: (digits ++ rest)).head? = some 0x30 ∧
      (digits ++ rest).head?.map toLower = some 0x78) := by
    refine fun h => (?_ : (digits ++ rest).head?.map toLower ≠ some 0x78) h.2
    cases digits with
    | nil =>
      cases rest with
      | nil => exact Option.some_ne_none _ |>.symm
      | cons x rest => exact fun h => (hrest x rfl).2 (Option.some.inj h)
    | cons x digits =>
      have hx := isXDigit_plain (hdigits x (List.mem_cons_of_mem _ List.mem_cons_self))
      exact fun h => hx.2.2.2 (Option.some.inj h)
  rw [List.cons_append] at htake ⊢
  rw [strtoul16, List.dropWhile_cons_of_neg (by rw [hspace]; exact Bool.false_ne_true)]
  have hsign : ¬((c :: (digits ++ rest)).head? = some 0x2D ∨
      (c :: (digits ++ rest)).head? = some 0x2B) := by
    rintro (h | h)
    · exact hminus (Option.some.inj h)
    · exact hplus (Option.some.inj h)
  have hminus' : ¬(c :: (digits ++ rest)).head? = some 0x2D := fun h => hsign (.inl h)
  rw [if_neg hsign, List.tail_cons, if_neg hmark, htake, if_neg (Nat.not_le.mpr hlt),
    decide_eq_false hminus']
  rfl

/-! ## Strings in buffers -/

/-- At most `n` bytes of a string behind the one that a buffer begins with, and a zero; `none`
where the buffer has no room for them. -/
def strncat (buf s : List UInt8) (n : Nat) : Option (List UInt8) :=
  let p := (cString buf).length
  let w := s.take n ++ [0]
  if p + w.length ≤ buf.length then some (buf.take p ++ (w ++ buf.drop (p + w.length))) else none

/-- A string in a buffer of `size` bytes, with nothing but zeros behind it. -/
def padded (size : Nat) (text : List UInt8) : List UInt8 :=
  text ++ List.replicate (size - text.length) 0

section Padded

variable {size : Nat} {text : List UInt8}

theorem cString_append_zero (text rest : List UInt8) :
    cString (text ++ 0 :: rest) = cString text := by
  induction text with
  | nil => rfl
  | cons c text ih =>
    rw [cString] at ih ⊢
    rw [cString, List.cons_append, List.takeWhile_cons, List.takeWhile_cons]
    split
    · rw [ih]
      rfl
    · rfl

theorem cString_eq_self (text : List UInt8) : cString text = text ↔ 0 ∉ text := by
  rw [cString, List.takeWhile_eq_self_iff]
  constructor
  · intro h hmem
    exact absurd (h 0 hmem) (by decide)
  · intro h c hc
    rw [bne_iff_ne]
    rintro rfl
    exact h hc

theorem cString_append {rest : List UInt8} (htext : 0 ∉ text) :
    cString (text ++ 0 :: rest) = text := by
  rw [cString, List.takeWhile_append_of_pos]
  · exact List.append_nil _
  · intro c hc
    exact bne_iff_ne.mpr fun h => htext (h ▸ hc)

theorem padded_length (h : text.length ≤ size) : (padded size text).length = size := by
  rw [padded, List.length_append, List.length_replicate]
  omega

theorem padded_eq (h : text.length < size) :
    padded size text = text ++ 0 :: List.replicate (size - text.length - 1) 0 := by
  rw [padded, ← List.replicate_succ]
  congr 2
  omega

theorem zero_mem_padded (h : text.length < size) : 0 ∈ padded size text := by
  rw [padded_eq h]
  exact List.mem_append_right _ List.mem_cons_self

theorem cString_padded (htext : 0 ∉ text) (h : text.length < size) :
    cString (padded size text) = text := by
  rw [padded_eq h, cString_append htext]

theorem strncat_padded (htext : 0 ∉ text) (h : text.length < size) (s : List UInt8) (n : Nat) :
    strncat (padded size text) s n =
      if text.length + (s.take n).length < size then some (padded size (text ++ s.take n))
      else none := by
  rw [strncat, cString_padded htext h, padded_length (Nat.le_of_lt h), List.length_append]
  by_cases hfits : text.length + (s.take n).length < size
  · rw [if_pos hfits, if_pos (by rw [List.length_singleton]; omega)]
    generalize s.take n = w at hfits ⊢
    have hdrop : (padded size text).drop (text.length + (w.length + [(0 : UInt8)].length)) =
        List.replicate (size - (text ++ w).length - 1) 0 := by
      rw [padded, List.drop_append, List.drop_eq_nil_of_le (Nat.le_add_right _ _),
        List.drop_replicate, List.nil_append, List.length_append, List.length_singleton]
      congr 1
      omega
    rw [hdrop, padded, List.take_left, padded_eq (by rw [List.length_append]; exact hfits),
      List.append_assoc, List.append_assoc]
    rfl
  · rw [if_neg hfits, if_neg (by rw [List.length_singleton]; omega)]

end Padded

/-- A buffer's string only grows. -/
theorem strncat_grows {buf s buf' : List UInt8} {n : Nat} (h : strncat buf s n = some buf') :
    (cString buf).length ≤ (cString buf').length := by
  rw [strncat] at h
  split at h
  · cases h
    have htake : buf.take (cString buf).length = cString buf :=
      (List.prefix_iff_eq_take.mp (List.takeWhile_prefix _)).symm
    have hne : ∀ c ∈ cString buf, (c != 0) = true :=
      fun c hc => List.mem_takeWhile_imp (p := (· != 0)) hc
    rw [htake]
    change _ ≤ (List.takeWhile _ (_ ++ _)).length
    rw [List.takeWhile_append_of_pos hne, List.length_append]
    exact Nat.le_add_right _ _
  · cases h

end NodeMcu.Lib.Text
