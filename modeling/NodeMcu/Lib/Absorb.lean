import Mathlib.Data.List.Basic

namespace NodeMcu.Lib.Absorb

variable {α σ : Type} (step : σ → List α → σ) (size : Nat)

/-! ## A text taken in by blocks -/

/-- The state after a number of blocks of a text. -/
def blocks (s : σ) : Nat → List α → σ
  | 0, _ => s
  | n + 1, text => blocks (step s (text.take size)) n (text.drop size)

/-- The state after all whole blocks of a text. -/
def absorb (s : σ) (text : List α) : σ := blocks step size s (text.length / size) text

/-- What of a text is left behind its whole blocks. -/
def rest (text : List α) : List α := text.drop (text.length / size * size)

variable {step size} {s : σ} {text more block : List α}

theorem length_rest (text : List α) : (rest size text).length = text.length % size := by
  rw [rest, List.length_drop, Nat.mod_eq_sub_div_mul]

theorem blocks_append {n : Nat} (h : n * size ≤ text.length) :
    blocks step size s n (text ++ more) = blocks step size s n text := by
  induction n generalizing s text with
  | zero => rfl
  | succ n ih =>
    rw [Nat.succ_mul] at h
    have hsize : size ≤ text.length := by omega
    rw [blocks, blocks, List.take_append_of_le_length hsize, List.drop_append_of_le_length hsize]
    exact ih (by rw [List.length_drop]; omega)

theorem blocks_add (m n : Nat) :
    blocks step size s (m + n) text =
      blocks step size (blocks step size s m text) n (text.drop (m * size)) := by
  induction m generalizing s text with
  | zero => rw [Nat.zero_add, Nat.zero_mul, List.drop_zero, blocks]
  | succ m ih =>
    rw [Nat.add_right_comm, blocks, ih, blocks, List.drop_drop, Nat.succ_mul, Nat.add_comm size]

theorem length_append_div (hsize : 0 < size) (text more : List α) :
    (text ++ more).length / size =
      text.length / size + (rest size text ++ more).length / size := by
  rw [List.length_append, List.length_append, length_rest]
  have hsplit : text.length + more.length =
      text.length % size + more.length + size * (text.length / size) := by
    have := Nat.mod_add_div text.length size
    omega
  rw [hsplit, Nat.add_mul_div_left _ _ hsize, Nat.add_comm]

theorem drop_append_rest (text more : List α) :
    (text ++ more).drop (text.length / size * size) = rest size text ++ more :=
  List.drop_append_of_le_length (Nat.div_mul_le_self _ _)

theorem absorb_append (hsize : 0 < size) (s : σ) (text more : List α) :
    absorb step size s (text ++ more) =
      absorb step size (absorb step size s text) (rest size text ++ more) := by
  rw [absorb, length_append_div hsize, blocks_add, drop_append_rest,
    blocks_append (Nat.div_mul_le_self _ _)]
  rfl

theorem rest_append (hsize : 0 < size) (text more : List α) :
    rest size (text ++ more) = rest size (rest size text ++ more) := by
  rw [rest, length_append_div hsize, Nat.add_mul, ← List.drop_drop, drop_append_rest]
  rfl

theorem absorb_of_lt (h : text.length < size) : absorb step size s text = s := by
  rw [absorb, Nat.div_eq_of_lt h, blocks]

theorem rest_of_lt (h : text.length < size) : rest size text = text := by
  rw [rest, Nat.div_eq_of_lt h, Nat.zero_mul, List.drop_zero]

theorem absorb_block (hsize : 0 < size) (h : block.length = size) :
    absorb step size s block = step s block := by
  rw [absorb, h, Nat.div_self hsize, blocks, blocks, ← h, List.take_length]

theorem rest_block (hsize : 0 < size) (h : block.length = size) : rest size block = [] := by
  rw [rest, h, Nat.div_self hsize, Nat.one_mul, ← h, List.drop_length]

end NodeMcu.Lib.Absorb
