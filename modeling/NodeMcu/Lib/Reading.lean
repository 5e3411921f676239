import NodeMcu.Lib.Memory

namespace NodeMcu.Lib.Reading

open NodeMcu.Lib.Memory

/-- A computation over the bytes of a buffer: its result, and the indices it has read for it. -/
structure Reads (α : Type) where
  val : α
  reads : List Nat

variable {α β : Type}

instance : Monad Reads where
  pure a := ⟨a, []⟩
  bind x f := ⟨(f x.val).val, x.reads ++ (f x.val).reads⟩

abbrev byte (buffer : Mem) (i : Nat) : Reads UInt8 := ⟨buffer i, [i]⟩

/-- Two bytes, the high one first. -/
abbrev word (buffer : Mem) (i : Nat) : Reads Nat := ⟨ofBigEndian (read buffer i 2), [i, i + 1]⟩

def bytes (buffer : Mem) (i n : Nat) : Reads (List UInt8) :=
  ⟨read buffer i n, (List.range n).map (i + ·)⟩

/-- What is read from a pointer to the byte `p`, seen from the beginning of the buffer. -/
def shift (p : Nat) (x : Reads α) : Reads α := ⟨x.val, x.reads.map (p + ·)⟩

@[simp] theorem pure_val (a : α) : (pure a : Reads α).val = a := rfl

@[simp] theorem pure_reads (a : α) : (pure a : Reads α).reads = [] := rfl

@[simp] theorem bind_val (x : Reads α) (f : α → Reads β) : (x >>= f).val = (f x.val).val := rfl

@[simp] theorem bind_reads (x : Reads α) (f : α → Reads β) :
    (x >>= f).reads = x.reads ++ (f x.val).reads := rfl

@[simp] theorem ite_val (c : Prop) [Decidable c] (x y : Reads α) :
    (if c then x else y).val = if c then x.val else y.val := apply_ite _ _ _ _

@[simp] theorem ite_reads (c : Prop) [Decidable c] (x y : Reads α) :
    (if c then x else y).reads = if c then x.reads else y.reads := apply_ite _ _ _ _

/-- Every byte read is one of the first `n`. -/
def Within (n : Nat) (x : Reads α) : Prop := ∀ i ∈ x.reads, i < n

@[simp] theorem within_pure (n : Nat) (a : α) : Within n (pure a : Reads α) := by
  simp [Within]

@[simp] theorem within_bind (n : Nat) (x : Reads α) (f : α → Reads β) :
    Within n (x >>= f) ↔ Within n x ∧ Within n (f x.val) := by
  simp only [Within, bind_reads, List.forall_mem_append]

@[simp] theorem within_byte (n : Nat) (buffer : Mem) (i : Nat) :
    Within n (byte buffer i) ↔ i < n := by
  simp [Within]

@[simp] theorem within_word (n : Nat) (buffer : Mem) (i : Nat) :
    Within n (word buffer i) ↔ i + 1 < n := by
  simp only [Within, List.forall_mem_cons, List.not_mem_nil, false_implies, implies_true, and_true]
  omega

theorem within_bytes (n : Nat) (buffer : Mem) (i k : Nat) (hk : k ≠ 0) :
    Within n (bytes buffer i k) ↔ i + k ≤ n := by
  simp only [Within, bytes, List.forall_mem_map, List.mem_range]
  constructor
  · intro h
    have := h (k - 1) (by omega)
    omega
  · intro h j hj
    omega

theorem within_shift (n p : Nat) (x : Reads α) (hp : p ≤ n) :
    Within n (shift p x) ↔ Within (n - p) x := by
  simp only [Within, shift, List.forall_mem_map]
  exact forall₂_congr fun i _ => by omega

@[simp] theorem within_ite (n : Nat) (c : Prop) [Decidable c] (x y : Reads α) :
    Within n (if c then x else y) ↔ if c then Within n x else Within n y := by
  by_cases h : c <;> simp [h]

/-! ## Errors -/

section Attempt

variable {ε : Type}

/-- The second computation follows where the first one ends without an error. -/
def attempt (x : Reads (Except ε α)) (f : α → Reads (Except ε β)) : Reads (Except ε β) :=
  x >>= fun r => r.casesOn (fun e => pure (.error e)) f

theorem attempt_ok {x : Reads (Except ε α)} {a : α} (h : x.val = .ok a)
    (f : α → Reads (Except ε β)) : (attempt x f).val = (f a).val := by
  rw [attempt, bind_val, h]

theorem attempt_error {x : Reads (Except ε α)} {e : ε} (h : x.val = .error e)
    (f : α → Reads (Except ε β)) : (attempt x f).val = .error e := by
  rw [attempt, bind_val, h]
  rfl

theorem attempt_val_ok {x : Reads (Except ε α)} {f : α → Reads (Except ε β)} {b : β}
    (h : (attempt x f).val = .ok b) : ∃ a, x.val = .ok a ∧ (f a).val = .ok b := by
  cases hx : x.val with
  | error e =>
    rw [attempt_error hx] at h
    cases h
  | ok a =>
    rw [attempt_ok hx] at h
    exact ⟨a, rfl, h⟩

theorem within_attempt {n : Nat} {x : Reads (Except ε α)} {f : α → Reads (Except ε β)}
    (hx : Within n x) (hf : ∀ a, x.val = .ok a → Within n (f a)) : Within n (attempt x f) := by
  rw [attempt, within_bind]
  refine ⟨hx, ?_⟩
  cases h : x.val with
  | error e => exact within_pure n _
  | ok a => exact hf a h

end Attempt

end NodeMcu.Lib.Reading
