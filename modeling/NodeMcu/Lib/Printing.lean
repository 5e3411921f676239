import NodeMcu.Lib.Text

namespace NodeMcu.Lib.Printing

open NodeMcu.Lib.Text

/-! ## Numbers printed with a width -/

/-- `%5d` and its like: a number with blanks in front, up to the width. -/
def printWidth (width n : Nat) : List UInt8 :=
  List.replicate (width - (toDecimal n).length) 0x20 ++ toDecimal n

theorem printWidth_length (width n : Nat) :
    (printWidth width n).length = max width (toDecimal n).length := by
  rw [printWidth, List.length_append, List.length_replicate]
  omega

/-- The width is kept by the numbers that have no more digits. -/
theorem printWidth_length_of_lt {width n : Nat} (hw : 0 < width) (h : n < 10 ^ width) :
    (printWidth width n).length = width := by
  rw [printWidth_length, Nat.max_eq_left ((toDecimal_length_le hw).mpr h)]

theorem lt_printWidth_length {width n k : Nat} (hk : 0 < k) (h : 10 ^ k ≤ n) :
    k < (printWidth width n).length := by
  rw [printWidth_length]
  have hlen : ¬(toDecimal n).length ≤ k := fun hle =>
    absurd ((toDecimal_length_le hk).mp hle) (Nat.not_lt.mpr h)
  omega

theorem isDigit_plain {c : UInt8} (h : isDigit c = true) :
    isSpace c = false ∧ c ≠ 0x2D ∧ c ≠ 0x2B := by
  have hall : ∀ c : Fin 256, isDigit (UInt8.ofFin c) = true →
      isSpace (UInt8.ofFin c) = false ∧ UInt8.ofFin c ≠ 0x2D ∧ UInt8.ofFin c ≠ 0x2B := by
    decide +kernel
  exact hall c.toFin h

/-- A number is read as it was printed, with blanks in front and no digit behind. -/
theorem number_printWidth (width n : Nat) {rest : List UInt8}
    (hrest : (rest.head?.all fun c => !isDigit c) = true) :
    number (printWidth width n ++ rest) = n := by
  obtain ⟨c, cs, hcs⟩ := List.exists_cons_of_ne_nil (toDecimal_ne_nil n)
  have hdigits : ∀ x ∈ c :: cs, isDigit x = true := fun x hx =>
    isDigit_of_mem_toDecimal (hcs ▸ hx)
  obtain ⟨hspace, hminus, hplus⟩ := isDigit_plain (hdigits c List.mem_cons_self)
  have hblanks : (printWidth width n ++ rest).dropWhile isSpace = c :: cs ++ rest := by
    rw [printWidth, hcs, List.append_assoc, List.dropWhile_append_of_pos]
    · exact List.dropWhile_cons_of_neg (by rw [hspace]; decide)
    · intro x hx
      rw [List.eq_of_mem_replicate hx]
      rfl
  have htake : (c :: cs ++ rest).takeWhile isDigit = c :: cs := by
    rw [List.takeWhile_append_of_pos hdigits]
    cases rest with
    | nil => exact List.append_nil _
    | cons r rs => rw [List.takeWhile_cons_of_neg (by simpa using hrest), List.append_nil]
  rw [number, hblanks]
  have hhead : (c :: cs ++ rest).head? = some c := rfl
  simp only [hhead, Option.some.injEq, if_neg hminus, if_neg hplus]
  rw [htake, ← hcs, decimal_toDecimal]

end NodeMcu.Lib.Printing
