import Mathlib.Data.List.Basic

namespace NodeMcu.Lib.Block

variable {α : Type}

/-! ## Blocks of memory, where an access that leaves the block has no result -/

/-- A block as it is obtained, with whatever its memory held. -/
def fresh (junk : Nat → α) (n : Nat) : List α := (List.range n).map junk

/-- A block of a new size: it keeps what has room of the old one, and behind that there is whatever
the memory held. -/
def resize (junk : Nat → α) (block : List α) (n : Nat) : List α :=
  block.take n ++ (fresh junk n).drop block.length

def put (block : List α) (i : Nat) (xs : List α) : Option (List α) :=
  if i + xs.length ≤ block.length then
    some (block.take i ++ (xs ++ block.drop (i + xs.length)))
  else none

def slice (block : List α) (i n : Nat) : Option (List α) :=
  if i + n ≤ block.length then some ((block.drop i).take n) else none

@[simp] theorem length_fresh (junk : Nat → α) (n : Nat) : (fresh junk n).length = n := by
  rw [fresh, List.length_map, List.length_range]

theorem put_of_gt {block xs : List α} {i : Nat} (h : block.length < i + xs.length) :
    put block i xs = none := if_neg (Nat.not_le.mpr h)

theorem slice_of_gt {block : List α} {i n : Nat} (h : block.length < i + n) :
    slice block i n = none := if_neg (Nat.not_le.mpr h)

theorem slice_of_le {block : List α} {i n : Nat} (h : i + n ≤ block.length) :
    slice block i n = some ((block.drop i).take n) := if_pos h

/-- What is put behind a part of the block leaves that part as it is. -/
theorem put_behind (as bs xs : List α) (h : xs.length ≤ bs.length) :
    put (as ++ bs) as.length xs = some (as ++ (xs ++ bs.drop xs.length)) := by
  rw [put, if_pos (by rw [List.length_append]; omega), List.take_left', List.drop_append,
    List.drop_eq_nil_of_le (by omega), Nat.add_sub_cancel_left, List.nil_append]
  rfl

theorem put_length {block xs block' : List α} {i : Nat} (h : put block i xs = some block') :
    block'.length = block.length := by
  rw [put, Option.ite_none_right_eq_some, Option.some.injEq] at h
  obtain ⟨hle, rfl⟩ := h
  rw [List.length_append, List.length_append, List.length_take, List.length_drop]
  omega

theorem put_of_le {block xs : List α} {i : Nat} (h : i + xs.length ≤ block.length) :
    put block i xs = some (block.take i ++ (xs ++ block.drop (i + xs.length))) := if_pos h

/-- What is put is there, and the rest of the block is as it was. -/
theorem getElem?_put {block xs block' : List α} {i : Nat} (h : put block i xs = some block')
    (k : Nat) :
    block'[k]? = if i ≤ k ∧ k < i + xs.length then xs[k - i]? else block[k]? := by
  rw [put, Option.ite_none_right_eq_some, Option.some.injEq] at h
  obtain ⟨hle, rfl⟩ := h
  have htake : (block.take i).length = i := List.length_take_of_le (by omega)
  obtain hlt | hge := Nat.lt_or_ge k i
  · rw [List.getElem?_append_left (by omega), List.getElem?_take_of_lt hlt, if_neg (by omega)]
  · rw [List.getElem?_append_right (by omega), htake]
    obtain hin | hout := Nat.lt_or_ge (k - i) xs.length
    · rw [List.getElem?_append_left hin, if_pos (by omega)]
    · rw [List.getElem?_append_right hout, List.getElem?_drop, if_neg (by omega)]
      congr 1
      omega

theorem getElem?_slice {block xs : List α} {i n : Nat} (h : slice block i n = some xs) (k : Nat)
    (hk : k < n) : xs[k]? = block[i + k]? := by
  rw [slice, Option.ite_none_right_eq_some, Option.some.injEq] at h
  obtain ⟨hle, rfl⟩ := h
  rw [List.getElem?_take_of_lt hk, List.getElem?_drop]

theorem slice_length {block xs : List α} {i n : Nat} (h : slice block i n = some xs) :
    xs.length = n := by
  rw [slice, Option.ite_none_right_eq_some, Option.some.injEq] at h
  obtain ⟨hle, rfl⟩ := h
  rw [List.length_take, List.length_drop]
  omega

@[simp] theorem length_resize (junk : Nat → α) (block : List α) (n : Nat) :
    (resize junk block n).length = n := by
  rw [resize, List.length_append, List.length_take, List.length_drop, length_fresh]
  omega

/-- What a block begins with is kept where the new size has room for it. -/
theorem prefix_resize {junk : Nat → α} {block xs : List α} {n : Nat} (h : xs <+: block)
    (hn : xs.length ≤ n) : xs <+: resize junk block n :=
  (List.prefix_take_iff.mpr ⟨h, hn⟩).trans (List.prefix_append _ _)

/-- What is put right behind what a block begins with continues it. -/
theorem prefix_put {block block' xs ys : List α} (h : xs <+: block)
    (hput : put block xs.length ys = some block') : xs ++ ys <+: block' := by
  obtain ⟨rest, rfl⟩ := h
  have hroom : ys.length ≤ rest.length := by
    rw [put, Option.ite_none_right_eq_some, List.length_append] at hput
    omega
  rw [put_behind xs rest ys hroom, Option.some.injEq] at hput
  rw [← hput, ← List.append_assoc]
  exact List.prefix_append _ _

/-- Pieces are put one behind the other. -/
def putAll (block : List α) (i : Nat) : List (List α) → Option (List α)
  | [] => some block
  | xs :: more => (put block i xs).bind fun block => putAll block (i + xs.length) more

/-- Pieces that have exactly the room of a block become the block. -/
theorem putAll_exact {block done : List α} (pieces : List (List α))
    (h : block.length = pieces.flatten.length) :
    putAll (done ++ block) done.length pieces = some (done ++ pieces.flatten) := by
  induction pieces generalizing block done with
  | nil =>
    obtain rfl := List.eq_nil_of_length_eq_zero h
    rfl
  | cons xs pieces ih =>
    rw [List.flatten_cons, List.length_append] at h
    have hrest : (block.drop xs.length).length = pieces.flatten.length := by
      rw [List.length_drop]
      omega
    rw [putAll, put_behind done block xs (by omega), Option.bind_some, ← List.append_assoc,
      ← List.length_append, ih hrest, List.flatten_cons, List.append_assoc]

end NodeMcu.Lib.Block
