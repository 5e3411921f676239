import Mathlib.Data.List.Induction
import Mathlib.Tactic.Ring

namespace NodeMcu.Lib.Memory

/-- The bytes a pointer leads to, by index. A negative index lies before the pointer. -/
abbrev Mem := Int → UInt8

def read (m : Mem) (i : Int) (n : Nat) : List UInt8 :=
  (List.range n).map (fun k : Nat => m (i + k))

def write (m : Mem) (i : Int) (bs : List UInt8) : Mem :=
  fun j => if i ≤ j ∧ j < i + bs.length then bs.getD (j - i).toNat 0 else m j

@[simp] theorem read_length (m : Mem) (i : Int) (n : Nat) : (read m i n).length = n := by
  simp [read]

@[simp] theorem write_nil (m : Mem) (i : Int) : write m i [] = m := by
  funext j
  have h : ¬(i ≤ j ∧ j < i + (([] : List UInt8).length : Int)) := by simp
  simp only [write, h, if_false]

theorem write_outside (m : Mem) (i j : Int) (bs : List UInt8) (h : ¬(i ≤ j ∧ j < i + bs.length)) :
    write m i bs j = m j := if_neg h

theorem write_of_lt (m : Mem) (i j : Int) (bs : List UInt8) (h : j < i) :
    write m i bs j = m j := write_outside m i j bs (by omega)

theorem write_of_ge (m : Mem) (i j : Int) (bs : List UInt8) (h : i + bs.length ≤ j) :
    write m i bs j = m j := write_outside m i j bs (by omega)

theorem write_at (m : Mem) (i : Int) (bs : List UInt8) (k : Nat) (hk : k < bs.length) :
    write m i bs (i + k) = bs.getD k 0 := by
  have h : i ≤ i + (k : Int) ∧ i + (k : Int) < i + bs.length := by omega
  have hk' : (i + (k : Int) - i).toNat = k := by omega
  simp only [write, h, and_self, if_true, hk']

theorem read_getElem? (m : Mem) (i : Int) {k n : Nat} (hk : k < n) :
    (read m i n)[k]? = some (m (i + k)) := by
  simp [read, hk]

theorem read_congr (m m' : Mem) (i : Int) (n : Nat)
    (h : ∀ k : Nat, k < n → m (i + k) = m' (i + k)) : read m i n = read m' i n := by
  apply List.map_congr_left
  intro k hk
  exact h k (List.mem_range.mp hk)

theorem read_write (m : Mem) (i : Int) (bs : List UInt8) :
    read (write m i bs) i bs.length = bs := by
  apply List.ext_getElem
  · simp
  · intro k hk hk'
    have h := write_at m i bs k hk'
    simp only [read, List.getElem_map, List.getElem_range, h]
    simp [List.getD, hk']

theorem write_read (m : Mem) (i : Int) (n : Nat) : write m i (read m i n) = m := by
  funext j
  by_cases h1 : j < i
  · exact write_of_lt m i j _ h1
  · by_cases h2 : j < i + n
    · obtain ⟨k, rfl⟩ : ∃ k : Nat, j = i + k := ⟨(j - i).toNat, by omega⟩
      have hk : k < n := by omega
      rw [write_at m i _ k (by rw [read_length]; exact hk)]
      simp [read, List.getD, hk]
    · exact write_of_ge m i j _ (by rw [read_length]; omega)

/-- Of two words written to one place the second stays. -/
theorem write_write (m : Mem) (i : Int) (as bs : List UInt8) (h : as.length ≤ bs.length) :
    write (write m i as) i bs = write m i bs := by
  funext j
  by_cases h1 : j < i
  · rw [write_of_lt _ _ _ _ h1, write_of_lt _ _ _ _ h1, write_of_lt _ _ _ _ h1]
  · by_cases h2 : j < i + bs.length
    · have hj : i ≤ j ∧ j < i + bs.length := by omega
      simp only [write, hj, and_self, if_true]
    · rw [write_of_ge _ _ _ _ (by omega), write_of_ge _ _ _ _ (by omega),
        write_of_ge _ _ _ _ (by omega)]

theorem read_write_before (m : Mem) (i j : Int) (n : Nat) (bs : List UInt8) (h : j + n ≤ i) :
    read (write m i bs) j n = read m j n := by
  apply read_congr
  intro k hk
  exact write_of_lt m i (j + k) bs (by omega)

theorem read_add (m : Mem) (i : Int) (a b : Nat) :
    read m i (a + b) = read m i a ++ read m (i + a) b := by
  simp only [read, List.range_add, List.map_append, List.map_map]
  congr 1
  apply List.map_congr_left
  intro k _
  simp only [Function.comp_apply, Nat.cast_add]
  congr 1
  omega

theorem read_succ (m : Mem) (i : Int) (n : Nat) : read m i (n + 1) = m i :: read m (i + 1) n := by
  rw [Nat.add_comm, read_add]
  simp [read]

theorem read_take (m : Mem) (i : Int) {k n : Nat} (h : k ≤ n) :
    (read m i n).take k = read m i k := by
  obtain ⟨l, rfl⟩ := Nat.exists_eq_add_of_le h
  rw [read_add, List.take_left' (read_length m i k)]

theorem read_drop (m : Mem) (i : Int) {k n : Nat} (h : k ≤ n) :
    (read m i n).drop k = read m (i + k) (n - k) := by
  obtain ⟨l, rfl⟩ := Nat.exists_eq_add_of_le h
  rw [read_add, List.drop_left' (read_length m i k), Nat.add_sub_cancel_left]

theorem eq_of_read (m : Mem) (i : Int) (bs : List UInt8) (h : read m i bs.length = bs) (k : Nat)
    (hk : k < bs.length) : m (i + k) = bs.getD k 0 := by
  have h1 : (read m i bs.length)[k]? = bs[k]? := by
    rw [h]
  rw [read_getElem? m i hk, List.getElem?_eq_getElem hk, Option.some.injEq] at h1
  simp [h1, List.getD, hk]

/-- The bytes seen from one of them. -/
def after (p : Int) (m : Mem) : Mem := fun i => m (p + i)

theorem read_after (p i : Int) (m : Mem) (n : Nat) : read (after p m) i n = read m (p + i) n := by
  simp only [read, after, Int.add_assoc]

theorem read_append (m : Mem) (i : Int) (as bs : List UInt8) :
    read m i (as ++ bs).length = as ++ bs ↔
      read m i as.length = as ∧ read m (i + as.length) bs.length = bs := by
  rw [List.length_append, read_add]
  constructor
  · intro h
    exact List.append_inj h (read_length m i as.length)
  · rintro ⟨ha, hb⟩
    rw [ha, hb]

/-- Filling a buffer byte by byte is writing the whole word at once. -/
theorem write_append (m : Mem) (i : Int) (as bs : List UInt8) :
    write (write m i as) (i + as.length) bs = write m i (as ++ bs) := by
  funext j
  by_cases h1 : j < i
  · rw [write_of_lt _ _ _ _ (by omega), write_of_lt _ _ _ _ h1, write_of_lt _ _ _ _ h1]
  · by_cases h2 : j < i + as.length
    · obtain ⟨k, rfl⟩ : ∃ k : Nat, j = i + k := ⟨(j - i).toNat, by omega⟩
      have hk : k < as.length := by omega
      rw [write_of_lt _ _ _ _ h2, write_at m i as k hk,
        write_at m i (as ++ bs) k (by simp only [List.length_append]; omega)]
      simp [List.getD, List.getElem?_append_left hk]
    · by_cases h3 : j < i + as.length + bs.length
      · obtain ⟨k, rfl⟩ : ∃ k : Nat, j = i + as.length + k :=
          ⟨(j - (i + as.length)).toNat, by omega⟩
        have hk : k < bs.length := by omega
        have ha : i + (as.length : Int) + k = i + ((as.length + k : Nat) : Int) := by
          simp only [Nat.cast_add]; omega
        rw [write_at _ _ bs k hk, ha,
          write_at m i (as ++ bs) (as.length + k) (by simp only [List.length_append]; omega)]
        simp [List.getD, List.getElem?_append_right]
      · rw [write_of_ge _ _ _ _ (by omega), write_of_ge _ _ _ _ (by omega),
          write_of_ge _ _ _ _ (by simp only [List.length_append, Nat.cast_add]; omega)]

/-- Big-endian bytes of a number, as many as asked for. -/
def bigEndian : Nat → Nat → List UInt8
  | 0, _ => []
  | n + 1, x => UInt8.ofNat (x / 256 ^ n) :: bigEndian n x

def ofBigEndian (bs : List UInt8) : Nat := bs.foldl (fun acc b => acc * 256 + b.toNat) 0

@[simp] theorem bigEndian_length (n x : Nat) : (bigEndian n x).length = n := by
  induction n with
  | zero => rfl
  | succ n ih => simp [bigEndian, ih]

theorem foldl_bigEndian (n x acc : Nat) :
    (bigEndian n x).foldl (fun acc b => acc * 256 + b.toNat) acc = acc * 256 ^ n + x % 256 ^ n := by
  induction n generalizing acc with
  | zero => simp [bigEndian, Nat.mod_one]
  | succ n ih =>
    have hm : x % 256 ^ (n + 1) = x / 256 ^ n % 256 * 256 ^ n + x % 256 ^ n := by
      rw [pow_succ, Nat.mod_mul]
      ring
    have hb : (UInt8.ofNat (x / 256 ^ n)).toNat = x / 256 ^ n % 256 := by
      simp
    simp only [bigEndian, List.foldl_cons, ih, hb, hm]
    ring

theorem ofBigEndian_bigEndian (n x : Nat) : ofBigEndian (bigEndian n x) = x % 256 ^ n := by
  rw [ofBigEndian, foldl_bigEndian]
  simp

theorem foldl_bytes_lt (bs : List UInt8) (n : Nat) :
    bs.foldl (fun acc b => acc * 256 + b.toNat) n < (n + 1) * 256 ^ bs.length := by
  induction bs generalizing n with
  | nil => simp
  | cons b bs ih =>
    have hb := b.toNat_lt
    have hle : n * 256 + b.toNat + 1 ≤ (n + 1) * 256 := by omega
    calc
      (b :: bs).foldl (fun acc b => acc * 256 + b.toNat) n
          < (n * 256 + b.toNat + 1) * 256 ^ bs.length := ih (n * 256 + b.toNat)
      _ ≤ (n + 1) * 256 * 256 ^ bs.length := Nat.mul_le_mul_right _ hle
      _ = (n + 1) * 256 ^ (b :: bs).length := by rw [List.length_cons, pow_succ]; ring

theorem ofBigEndian_lt (bs : List UInt8) : ofBigEndian bs < 256 ^ bs.length := by
  have h := foldl_bytes_lt bs 0
  rwa [Nat.zero_add, Nat.one_mul] at h

theorem foldl_bytes_inj (as bs : List UInt8) (h : as.length = bs.length) (m n : Nat)
    (he : as.foldl (fun acc b => acc * 256 + b.toNat) m =
      bs.foldl (fun acc b => acc * 256 + b.toNat) n) : m = n ∧ as = bs := by
  induction as generalizing bs m n with
  | nil =>
    rw [List.length_nil] at h
    rw [List.eq_nil_of_length_eq_zero h.symm] at he ⊢
    exact ⟨he, rfl⟩
  | cons a as ih =>
    cases bs with
    | nil => simp at h
    | cons b bs =>
      obtain ⟨hmn, hs⟩ := ih bs (Nat.succ.inj h) _ _ he
      have hword : m * 256 + a.toNat = n * 256 + b.toNat := hmn
      have ha := a.toNat_lt
      have hb := b.toNat_lt
      have hab : a = b := UInt8.toNat_inj.mp (by omega)
      exact ⟨by omega, by rw [hab, hs]⟩

/-- Words of one length are told apart by their values. -/
theorem ofBigEndian_inj (as bs : List UInt8) (h : as.length = bs.length)
    (he : ofBigEndian as = ofBigEndian bs) : as = bs :=
  (foldl_bytes_inj as bs h 0 0 he).2

end NodeMcu.Lib.Memory
