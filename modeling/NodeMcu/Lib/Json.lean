import Mathlib.Algebra.Group.Nat.Defs
import Mathlib.Data.Nat.Digits.Lemmas
import NodeMcu.Lib.Text

namespace NodeMcu.Lib.Json

open NodeMcu.Lib.Text

/-! ## JSON texts -/

/-- A text in UTF-8. -/
def IsUtf8 (text : List UInt8) : Prop := ∃ cs : List Char, text = cs.flatMap String.utf8EncodeChar

inductive Value
  | string (bytes : List UInt8)
  | int (z : Int)
  | array (vs : List Value)
  | object (ms : List (List UInt8 × Value))

/-- What the byte behind a backslash stands for, where it stands for a byte. -/
def unescape (c : UInt8) : Option UInt8 :=
  if c = 0x22 ∨ c = 0x5C ∨ c = 0x2F then some c
  else if c = 0x62 then some 8
  else if c = 0x66 then some 12
  else if c = 0x6E then some 10
  else if c = 0x72 then some 13
  else if c = 0x74 then some 9
  else none

/-- A string behind its opening quote, and the rest. -/
def string : List UInt8 → Option (List UInt8 × List UInt8)
  | [] => none
  | c :: text =>
    if c = 0x22 then some ([], text)
    else if c = 0x5C then
      match text with
      | [] => none
      | e :: text =>
        (unescape e).bind fun b => (string text).map fun (bytes, rest) => (b :: bytes, rest)
    else if c < 0x20 then none
    else (string text).map fun (bytes, rest) => (c :: bytes, rest)

/-- A number without a fraction, where no zero leads another digit. -/
def integer (text : List UInt8) : Option (Int × List UInt8) :=
  let negative := text.head? = some 0x2D
  let text := if negative then text.tail else text
  let digits := text.takeWhile isDigit
  if digits = [] ∨ digits.head? = some 0x30 ∧ digits.length ≠ 1 then none
  else some (if negative then -(decimal digits : Int) else decimal digits, text.drop digits.length)

mutual

/-- A value and the rest of the text, for values of strings and numbers without a fraction, in a
text without blanks between its parts. -/
def value : Nat → List UInt8 → Option (Value × List UInt8)
  | 0, _ => none
  | _, [] => none
  | n + 1, c :: text =>
    if c = 0x22 then (string text).map fun (bytes, rest) => (.string bytes, rest)
    else if c = 0x5B then
      if text.head? = some 0x5D then some (.array [], text.tail)
      else (elements n text).map fun (vs, rest) => (.array vs, rest)
    else if c = 0x7B then
      if text.head? = some 0x7D then some (.object [], text.tail)
      else (members n text).map fun (ms, rest) => (.object ms, rest)
    else (integer (c :: text)).map fun (z, rest) => (.int z, rest)

/-- The elements of an array up to its bracket. -/
def elements : Nat → List UInt8 → Option (List Value × List UInt8)
  | 0, _ => none
  | n + 1, text =>
    (value n text).bind fun (v, rest) =>
      match rest with
      | [] => none
      | c :: rest =>
        if c = 0x5D then some ([v], rest)
        else if c = 0x2C then (elements n rest).map fun (vs, rest) => (v :: vs, rest)
        else none

/-- The members of an object up to its brace. -/
def members : Nat → List UInt8 → Option (List (List UInt8 × Value) × List UInt8)
  | 0, _ => none
  | _, [] => none
  | n + 1, c :: text =>
    if c = 0x22 then
      (string text).bind fun (key, rest) =>
        match rest with
        | [] => none
        | c :: rest =>
          if c = 0x3A then
            (value n rest).bind fun (v, rest) =>
              match rest with
              | [] => none
              | c :: rest =>
                if c = 0x7D then some ([(key, v)], rest)
                else if c = 0x2C then
                  (members n rest).map fun (ms, rest) => ((key, v) :: ms, rest)
                else none
          else none
    else none

end

/-- The value that a text is as a whole. -/
def decode (text : List UInt8) : Option Value :=
  (value (text.length + 1) text).bind fun (v, rest) => if rest = [] then some v else none

/-! ## Escaped strings -/

/-- Quotes and backslashes with a backslash in front. -/
def escape (bytes : List UInt8) : List UInt8 :=
  bytes.flatMap fun c => if c = 0x5C ∨ c = 0x22 then [0x5C, c] else [c]

theorem escape_cons (c : UInt8) (bytes : List UInt8) :
    escape (c :: bytes) = (if c = 0x5C ∨ c = 0x22 then [0x5C, c] else [c]) ++ escape bytes :=
  List.flatMap_cons

def NoControl (bytes : List UInt8) : Prop := ∀ c ∈ bytes, 0x20 ≤ c

instance (bytes : List UInt8) : Decidable (NoControl bytes) := List.decidableBAll _ bytes

theorem noControl_nil : NoControl [] := List.forall_mem_nil _

theorem noControl_cons (c : UInt8) (bytes : List UInt8) :
    NoControl (c :: bytes) ↔ 0x20 ≤ c ∧ NoControl bytes := List.forall_mem_cons

/-- An escaped string is read as it was exactly if it has no control byte. -/
theorem string_escape (bytes rest : List UInt8) :
    string (escape bytes ++ 0x22 :: rest) =
      if NoControl bytes then some (bytes, rest) else none := by
  induction bytes with
  | nil =>
    rw [if_pos noControl_nil, escape, List.flatMap_nil, List.nil_append, string.eq_def]
    exact if_pos rfl
  | cons c bytes ih =>
    rw [escape_cons]
    by_cases hc : c = 0x5C ∨ c = 0x22
    · have hle : (0x20 : UInt8) ≤ c := by
        obtain rfl | rfl := hc <;> decide
      have hplain : unescape c = some c := by
        obtain rfl | rfl := hc <;> rfl
      rw [if_pos hc, List.append_assoc, List.cons_append, List.cons_append, List.nil_append]
      rw [string, if_neg (by decide), if_pos rfl]
      simp only [hplain, Option.bind_some, ih, noControl_cons, hle, true_and]
      split <;> rfl
    · rw [not_or] at hc
      rw [if_neg (not_or.mpr hc), List.append_assoc, List.singleton_append, string.eq_def]
      simp only [if_neg hc.1, if_neg hc.2, ih, noControl_cons]
      by_cases hctrl : c < 0x20
      · rw [if_pos hctrl, if_neg fun h => absurd h.1 (UInt8.not_le.mpr hctrl)]
      · simp only [if_neg hctrl, UInt8.not_lt.mp hctrl, true_and]
        split <;> rfl

/-! ## Printed numbers -/

theorem toDecimal_head (n : Nat) :
    ¬((toDecimal n).head? = some 0x30 ∧ (toDecimal n).length ≠ 1) := by
  rintro ⟨hhead, hlen⟩
  rw [toDecimal] at hhead hlen
  split at hhead
  · rename_i h
    rw [if_pos h] at hlen
    exact hlen rfl
  · rename_i h
    rw [List.head?_map, List.head?_reverse,
      List.getLast?_eq_some_getLast (Nat.digits_ne_nil_iff_ne_zero.mpr h), Option.map_some,
      Option.some.injEq] at hhead
    have hlast := Nat.getLast_digit_ne_zero 10 h
    have hlt := Nat.digits_lt_base (by decide : 1 < 10)
      (List.getLast_mem (Nat.digits_ne_nil_iff_ne_zero.mpr h))
    have hall : ∀ d < 10, UInt8.ofNat (0x30 + d) = 0x30 → d = 0 := by decide
    exact hlast (hall _ hlt hhead)

/-- A printed number is read as it was, with no digit behind. -/
theorem integer_printInt (z : Int) {c : UInt8} (hc : isDigit c = false) (rest : List UInt8) :
    integer (printInt z ++ c :: rest) = some (z, c :: rest) := by
  have hdigits : ∀ n, (toDecimal n ++ c :: rest).takeWhile isDigit = toDecimal n := by
    intro n
    rw [List.takeWhile_append_of_pos fun _ => isDigit_of_mem_toDecimal,
      List.takeWhile_cons_of_neg (by rw [hc]; decide), List.append_nil]
  have hread : ∀ n, ¬((toDecimal n) = [] ∨
      (toDecimal n).head? = some 0x30 ∧ (toDecimal n).length ≠ 1) := fun n =>
    not_or.mpr ⟨toDecimal_ne_nil n, toDecimal_head n⟩
  rw [printInt]
  by_cases hz : z < 0
  · rw [if_pos hz, integer, List.cons_append]
    simp only [List.head?_cons, if_true, List.tail_cons, hdigits, if_neg (hread _),
      decimal_toDecimal, List.drop_left]
    rw [Int.ofNat_natAbs_of_nonpos (Int.le_of_lt hz), Int.neg_neg]
  · have hminus : (toDecimal z.natAbs ++ c :: rest).head? ≠ some 0x2D := by
      obtain ⟨d, ds, hd⟩ := List.exists_cons_of_ne_nil (toDecimal_ne_nil z.natAbs)
      have hdigit : isDigit d = true := isDigit_of_mem_toDecimal (hd ▸ List.mem_cons_self)
      rw [hd, List.cons_append, List.head?_cons, ne_eq, Option.some.injEq]
      rintro rfl
      exact absurd hdigit (by decide)
    rw [if_neg hz, integer]
    simp only [hminus, if_false, hdigits, if_neg (hread _), decimal_toDecimal, List.drop_left]
    rw [Int.natAbs_of_nonneg (Int.not_lt.mp hz)]

/-! ## Texts in UTF-8 -/

theorem ofNat_ge {n : Nat} (h : 0x80 ≤ n % 256) : (0x80 : UInt8) ≤ UInt8.ofNat n := by
  rw [UInt8.le_iff_toNat_le, UInt8.toNat_ofNat']
  exact h

/-- A character is one byte of ASCII, or none of its bytes is of ASCII. -/
theorem utf8EncodeChar_ascii (ch : Char) :
    (∃ b, String.utf8EncodeChar ch = [b]) ∨ ∀ b ∈ String.utf8EncodeChar ch, 0x80 ≤ b := by
  rw [String.utf8EncodeChar]
  split
  · exact Or.inl ⟨_, rfl⟩
  · right
    split
    · simp only [List.forall_mem_cons]
      exact ⟨ofNat_ge (by omega), ofNat_ge (by omega), List.forall_mem_nil _⟩
    · split
      · simp only [List.forall_mem_cons]
        exact ⟨ofNat_ge (by omega), ofNat_ge (by omega), ofNat_ge (by omega),
          List.forall_mem_nil _⟩
      · simp only [List.forall_mem_cons]
        exact ⟨ofNat_ge (by omega), ofNat_ge (by omega), ofNat_ge (by omega),
          ofNat_ge (by omega), List.forall_mem_nil _⟩

theorem utf8EncodeChar_of_ascii {c : UInt8} (hc : c < 0x80) :
    String.utf8EncodeChar (Char.ofNat c.toNat) = [c] := by
  have hall : ∀ c : Fin 256, UInt8.ofFin c < 0x80 →
      String.utf8EncodeChar (Char.ofNat (UInt8.ofFin c).toNat) = [UInt8.ofFin c] := by
    decide +kernel
  exact hall c.toFin hc

theorem isUtf8_nil : IsUtf8 [] := ⟨[], rfl⟩

theorem isUtf8_append {as bs : List UInt8} (has : IsUtf8 as) (hbs : IsUtf8 bs) :
    IsUtf8 (as ++ bs) := by
  obtain ⟨cs, rfl⟩ := has
  obtain ⟨ds, rfl⟩ := hbs
  exact ⟨cs ++ ds, List.flatMap_append.symm⟩

/-- A byte of ASCII separates two texts. -/
theorem isUtf8_append_cons {as bs : List UInt8} {c : UInt8} (hc : c < 0x80) :
    IsUtf8 (as ++ c :: bs) ↔ IsUtf8 as ∧ IsUtf8 bs := by
  constructor
  · rintro ⟨cs, h⟩
    induction cs generalizing as with
    | nil => exact absurd h (List.append_ne_nil_of_right_ne_nil _ (List.cons_ne_nil _ _))
    | cons ch cs ih =>
      rw [List.flatMap_cons, List.append_eq_append_iff] at h
      obtain ⟨x, hch, hrest⟩ | ⟨x, rfl, hrest⟩ := h
      · cases x with
        | nil =>
          rw [List.append_nil] at hch
          obtain ⟨-, hbs⟩ := ih (show [] ++ c :: bs = _ from hrest)
          exact ⟨⟨[ch], by rw [List.flatMap_singleton, hch]⟩, hbs⟩
        | cons y x =>
          obtain ⟨rfl, rfl⟩ := List.cons.inj hrest
          have hmem : c ∈ String.utf8EncodeChar ch := by
            rw [hch]
            exact List.mem_append_right _ List.mem_cons_self
          obtain ⟨b, hb⟩ | hall := utf8EncodeChar_ascii ch
          · rw [hb, List.singleton_eq_append_iff] at hch
            obtain ⟨rfl, hx⟩ | ⟨-, hx⟩ := hch
            · obtain ⟨-, rfl⟩ := List.cons.inj hx
              exact ⟨isUtf8_nil, cs, rfl⟩
            · exact absurd hx (List.cons_ne_nil _ _)
          · exact absurd hc (UInt8.not_lt.mpr (hall c hmem))
      · obtain ⟨has, hbs⟩ := ih hrest.symm
        exact ⟨isUtf8_append ⟨[ch], (List.flatMap_singleton ..).symm⟩ has, hbs⟩
  · rintro ⟨has, hbs⟩
    have hchar : IsUtf8 [c] :=
      ⟨[Char.ofNat c.toNat], by rw [List.flatMap_singleton, utf8EncodeChar_of_ascii hc]⟩
    exact isUtf8_append has (isUtf8_append hchar hbs)

theorem isUtf8_cons {bs : List UInt8} {c : UInt8} (hc : c < 0x80) :
    IsUtf8 (c :: bs) ↔ IsUtf8 bs := by
  have h : IsUtf8 ([] ++ c :: bs) ↔ IsUtf8 [] ∧ IsUtf8 bs := isUtf8_append_cons hc
  rw [List.nil_append] at h
  rw [h]
  exact and_iff_right isUtf8_nil

/-- Texts of ASCII in front change nothing. -/
theorem isUtf8_ascii_append {as bs : List UInt8} (has : ∀ c ∈ as, c < 0x80) :
    IsUtf8 (as ++ bs) ↔ IsUtf8 bs := by
  induction as with
  | nil => rfl
  | cons c as ih =>
    rw [List.forall_mem_cons] at has
    rw [List.cons_append, isUtf8_cons has.1, ih has.2]

/-- Escaping keeps a text in UTF-8, and none becomes one by it. -/
theorem isUtf8_append_escape (as bytes : List UInt8) :
    IsUtf8 (as ++ escape bytes) ↔ IsUtf8 (as ++ bytes) := by
  induction bytes generalizing as with
  | nil => rfl
  | cons c bytes ih =>
    rw [escape_cons]
    by_cases hc : c = 0x5C ∨ c = 0x22
    · have hascii : c < 0x80 := by
        obtain rfl | rfl := hc <;> decide
      have hrest := ih []
      rw [List.nil_append, List.nil_append] at hrest
      rw [if_pos hc, List.cons_append, List.singleton_append,
        isUtf8_append_cons (by decide : (0x5C : UInt8) < 0x80), isUtf8_cons hascii,
        isUtf8_append_cons hascii, hrest]
    · have hrest := ih (as ++ [c])
      rw [List.append_assoc, List.append_assoc, List.singleton_append] at hrest
      rw [if_neg hc]
      exact hrest

end NodeMcu.Lib.Json
