import NodeMcu.Lib.Memory

namespace NodeMcu.Lib.Memory

/-! ## Writes that cover others, or leave what they found -/

/-- What is written over as a whole does not matter. -/
theorem write_cover (m : Mem) {i j : Int} {as bs : List UInt8} (hij : i ≤ j)
    (hend : j + as.length ≤ i + bs.length) : write (write m j as) i bs = write m i bs := by
  funext k
  by_cases hlt : k < i
  · rw [write_of_lt _ _ _ _ hlt, write_of_lt _ _ _ _ hlt, write_of_lt _ _ _ _ (by omega)]
  · by_cases hge : i + bs.length ≤ k
    · rw [write_of_ge _ _ _ _ hge, write_of_ge _ _ _ _ hge, write_of_ge _ _ _ _ (by omega)]
    · obtain ⟨n, rfl⟩ : ∃ n : Nat, k = i + n := ⟨(k - i).toNat, by omega⟩
      rw [write_at _ _ _ _ (by omega), write_at _ _ _ _ (by omega)]

theorem read_write_behind (m : Mem) {i j : Int} (n : Nat) {bs : List UInt8}
    (h : i + bs.length ≤ j) : read (write m i bs) j n = read m j n :=
  read_congr _ _ _ _ fun k _ => write_of_ge m i (j + k) bs (by omega)

/-- Bytes in the middle of what is there are written as they are by themselves. -/
theorem write_around (m : Mem) (i : Int) (a b : Nat) (bs : List UInt8) :
    write m i (read m i a ++ (bs ++ read m (i + a + bs.length) b)) = write m (i + a) bs := by
  rw [← write_append, write_read, read_length, ← write_append,
    ← read_write_behind m b (Int.le_refl (i + a + bs.length)), write_read]

/-- Bytes read from a memory after a write into it: those in front, those written, those
behind. -/
theorem read_write_inside (m : Mem) (i : Int) (a b : Nat) (bs : List UInt8) :
    read (write m (i + a) bs) i (a + (bs.length + b)) =
      read m i a ++ (bs ++ read m (i + a + bs.length) b) := by
  rw [read_add, read_add, read_write_before m (i + a) i a bs (Int.le_refl _), read_write,
    read_write_behind m b (Int.le_refl (i + a + bs.length))]

end NodeMcu.Lib.Memory
