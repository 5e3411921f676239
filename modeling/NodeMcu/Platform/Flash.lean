import NodeMcu.Lib.Covering

namespace NodeMcu.Platform.Flash

open NodeMcu.Lib.Memory

/-! ## Access to the flash chip -/

/-- An operation of the flash chip, and whether it succeeded. -/
structure Access where
  addr : Nat
  size : Nat
  ok : Bool

/-- The chip, the operations made on it, and how many copies of a buffer were asked for. -/
structure Chip where
  bytes : Mem
  accesses : List Access
  copies : Nat

/-- Which operations succeed and which copies are obtained, in their order, where `tmpdata` lies
on the stack in `platform_flash_write`, and what the stack holds. -/
structure Env where
  ok : Nat → Bool
  alloc : Nat → Bool
  tmp : Nat
  junk : Mem

def flashRead (env : Env) (st : Chip) (addr size : Nat) : Chip × Option (List UInt8) :=
  let ok := env.ok st.accesses.length
  ({ st with accesses := st.accesses ++ [⟨addr, size, ok⟩] },
    if ok then some (read st.bytes addr size) else none)

def flashWrite (env : Env) (st : Chip) (addr : Nat) (bytes : List UInt8) : Chip × Bool :=
  let ok := env.ok st.accesses.length
  ({ st with
      bytes := if ok then write st.bytes addr bytes else st.bytes
      accesses := st.accesses ++ [⟨addr, bytes.length, ok⟩] }, ok)

def internalFlashMappedAddress : Nat := 0x40200000

/-- A buffer that is not aligned, or lies in flash itself, is copied first. -/
def needsCopy (fromaddr : Nat) : Bool := fromaddr % 4 ≠ 0 || internalFlashMappedAddress ≤ fromaddr

def platformSFlashWrite (env : Env) (st : Chip) (fromaddr : Nat) (bytes : List UInt8)
    (toaddr : Nat) : Chip × Nat :=
  if needsCopy fromaddr && !env.alloc st.copies then ({ st with copies := st.copies + 1 }, 0)
  else
    let st := if needsCopy fromaddr then { st with copies := st.copies + 1 } else st
    let (st, ok) := flashWrite env st toaddr bytes
    (st, if ok then bytes.length else 0)

/-- The memory that holds the buffer afterwards. Into a buffer that is not aligned the bytes are
read at the next aligned address and moved, but for the last four. -/
def platformSFlashRead (env : Env) (st : Chip) (mem : Mem) (toaddr fromaddr size : Nat) :
    Chip × Mem × Nat :=
  if size = 0 then (st, mem, 0)
  else if toaddr % 4 ≠ 0 then
    let size2 := size - 4
    let to2 := toaddr - toaddr % 4 + 4
    match flashRead env st fromaddr size2 with
    | (st, none) => (st, mem, 0)
    | (st, some bytes) =>
      let mem := write mem to2 bytes
      let mem := write mem toaddr (read mem to2 size2)
      match flashRead env st (fromaddr + size2) 4 with
      | (st, none) => (st, write mem (toaddr + size2 : Nat) (read env.junk 0 4), 0)
      | (st, some back) => (st, write mem (toaddr + size2 : Nat) back, size)
  else
    match flashRead env st fromaddr size with
    | (st, none) => (st, mem, 0)
    | (st, some bytes) => (st, write mem toaddr bytes, size)

/-- A block is read into `tmpdata`, some of its bytes are replaced, and it is written back. -/
def patchBlock (env : Env) (st : Chip) (ram : Mem) (pfrom temp rest n : Nat) : Chip :=
  let (st, tmpdata, _) := platformSFlashRead env st env.junk env.tmp temp 4
  let tmpdata := write tmpdata (env.tmp + rest : Nat) (read ram pfrom n)
  (platformSFlashWrite env st env.tmp (read tmpdata env.tmp 4) temp).1

/-- The blocks from an aligned address on, and the part of a block behind them. -/
def writeAligned (env : Env) (st : Chip) (ram : Mem) (pfrom toaddr size : Nat) : Chip :=
  let rest := size % 4
  let temp := size - rest
  let st :=
    if temp ≠ 0 then (platformSFlashWrite env st pfrom (read ram pfrom temp) toaddr).1 else st
  if rest ≠ 0 then patchBlock env st ram (pfrom + temp) (toaddr + temp) 0 rest else st

def platformFlashWrite (env : Env) (st : Chip) (ram : Mem) (pfrom toaddr size : Nat) :
    Chip × Nat :=
  let ssize := size
  let rest := toaddr % 4
  if rest ≠ 0 then
    let temp := toaddr - rest
    let n := min size (4 - rest)
    let st := patchBlock env st ram pfrom temp rest n
    if size - n = 0 then (st, ssize)
    else (writeAligned env st ram (pfrom + n) (temp + 4) (size - n), ssize)
  else (writeAligned env st ram pfrom toaddr size, ssize)

/-- A block is read into `tmpdata`, which is aligned here, and some of its bytes are copied. -/
def fetchBlock (env : Env) (st : Chip) (mem : Mem) (pto temp rest n : Nat) : Chip × Mem :=
  let (st, tmpdata, _) := platformSFlashRead env st env.junk 0 temp 4
  (st, write mem pto (read tmpdata rest n))

def readAligned (env : Env) (st : Chip) (mem : Mem) (pto fromaddr size : Nat) : Chip × Mem :=
  let rest := size % 4
  let temp := size - rest
  let (st, mem) :=
    if temp ≠ 0 then
      let (st, mem, _) := platformSFlashRead env st mem pto fromaddr temp
      (st, mem)
    else (st, mem)
  if rest ≠ 0 then fetchBlock env st mem (pto + temp) (fromaddr + temp) 0 rest else (st, mem)

def platformFlashRead (env : Env) (st : Chip) (mem : Mem) (pto fromaddr size : Nat) :
    Chip × Mem × Nat :=
  let ssize := size
  let rest := fromaddr % 4
  if rest ≠ 0 then
    let temp := fromaddr - rest
    let n := min size (4 - rest)
    let (st, mem) := fetchBlock env st mem pto temp rest n
    if size - n = 0 then (st, mem, ssize)
    else
      let (st, mem) := readAligned env st mem (pto + n) (temp + 4) (size - n)
      (st, mem, ssize)
  else
    let (st, mem) := readAligned env st mem pto fromaddr size
    (st, mem, ssize)

/-! ## What the operations do -/

def AllOk (st : Chip) : Prop := ∀ a ∈ st.accesses, a.ok = true

/-- From one state to the next at most `n` operations were made, and exactly so many if all of
them succeeded, each one aligned and with the result of its turn. -/
def Made (env : Env) (st st' : Chip) (n : Nat) : Prop :=
  ∃ new : List Access, st'.accesses = st.accesses ++ new ∧ new.length ≤ n ∧
    (∀ a ∈ new, 4 ∣ a.addr ∧ 4 ∣ a.size) ∧
    (∀ (i : Nat) (a : Access), new[i]? = some a → a.ok = env.ok (st.accesses.length + i)) ∧
    ((∀ a ∈ new, a.ok = true) → new.length = n)

section Made

variable {env : Env} {st st' st'' : Chip} {n k : Nat}

theorem Made.refl (env : Env) (st : Chip) : Made env st st 0 :=
  ⟨[], (List.append_nil _).symm, Nat.le_refl 0, fun _ h => absurd h List.not_mem_nil,
    fun _ _ h => absurd h (Option.some_ne_none _).symm, fun _ => rfl⟩

theorem Made.of_accesses (h : Made env st st' n) (heq : st''.accesses = st'.accesses) :
    Made env st st'' n := by
  obtain ⟨new, hnew, hrest⟩ := h
  exact ⟨new, heq.trans hnew, hrest⟩

theorem Made.one {a : Access} (haddr : 4 ∣ a.addr) (hsize : 4 ∣ a.size)
    (hok : a.ok = env.ok st.accesses.length) (h : st'.accesses = st.accesses ++ [a]) :
    Made env st st' 1 := by
  refine ⟨[a], h, Nat.le_refl 1, ?_, ?_, fun _ => rfl⟩
  · intro b hb
    obtain rfl := List.mem_singleton.mp hb
    exact ⟨haddr, hsize⟩
  · intro i b hb
    cases i with
    | zero =>
      obtain rfl := Option.some.inj hb
      exact hok
    | succ i => exact absurd hb (Option.some_ne_none b).symm

/-- An operation that failed may be the only one of several. -/
theorem Made.failed {a : Access} (haddr : 4 ∣ a.addr) (hsize : 4 ∣ a.size)
    (hok : false = env.ok st.accesses.length) (hfail : a.ok = env.ok st.accesses.length)
    (h : st'.accesses = st.accesses ++ [a]) (n : Nat) : Made env st st' (n + 1) := by
  obtain ⟨new, hnew, hle, halign, hresult, -⟩ := Made.one haddr hsize hfail h
  refine ⟨new, hnew, Nat.le_add_left_of_le hle, halign, hresult, fun hall => ?_⟩
  have hlast : new = [a] := List.append_cancel_left (hnew.symm.trans h)
  have ha := hall a (hlast ▸ List.mem_cons_self)
  rw [hfail, ← hok] at ha
  cases ha

theorem Made.trans (h : Made env st st' n) (h' : Made env st' st'' k) :
    Made env st st'' (n + k) := by
  obtain ⟨new, hnew, hle, halign, hok, hall⟩ := h
  obtain ⟨new', hnew', hle', halign', hok', hall'⟩ := h'
  refine ⟨new ++ new', ?_, ?_, ?_, ?_, ?_⟩
  · rw [hnew', hnew, List.append_assoc]
  · rw [List.length_append]
    omega
  · rw [List.forall_mem_append]
    exact ⟨halign, halign'⟩
  · intro i a ha
    by_cases hi : i < new.length
    · rw [List.getElem?_append_left hi] at ha
      exact hok i a ha
    · rw [List.getElem?_append_right (Nat.not_lt.mp hi)] at ha
      rw [hok' _ a ha, hnew, List.length_append]
      congr 1
      omega
  · rw [List.forall_mem_append, List.length_append]
    rintro ⟨h, h'⟩
    rw [hall h, hall' h']

/-- What succeeded in the end succeeded before. -/
theorem Made.allOk (h : Made env st st' n) (hok : AllOk st') : AllOk st := by
  obtain ⟨new, hnew, -⟩ := h
  intro a ha
  exact hok a (hnew ▸ List.mem_append_left new ha)

/-- From the start on all operations succeed exactly if the results of the first `n` are so. -/
theorem Made.allOk_iff {bytes : Mem} {copies : Nat} (h : Made env ⟨bytes, [], copies⟩ st' n) :
    AllOk st' ↔ ∀ i < n, env.ok i = true := by
  obtain ⟨new, hnew, hle, -, hok, hall⟩ := h
  rw [List.nil_append] at hnew
  have hat : ∀ (i : Nat) (a : Access), new[i]? = some a → a.ok = env.ok i := by
    intro i a ha
    rw [hok i a ha]
    exact congrArg env.ok (Nat.zero_add i)
  rw [AllOk, hnew]
  constructor
  · intro h i hi
    rw [← hall h] at hi
    rw [← hat i _ (List.getElem?_eq_getElem hi)]
    exact h _ (List.getElem_mem hi)
  · intro h a ha
    obtain ⟨i, hi, rfl⟩ := List.getElem_of_mem ha
    rw [hat i _ (List.getElem?_eq_getElem hi)]
    exact h i (Nat.lt_of_lt_of_le hi hle)

theorem Made.aligned {bytes : Mem} {copies : Nat} (h : Made env ⟨bytes, [], copies⟩ st' n) :
    ∀ a ∈ st'.accesses, 4 ∣ a.addr ∧ 4 ∣ a.size := by
  obtain ⟨new, hnew, -, halign, -⟩ := h
  rw [List.nil_append] at hnew
  rw [hnew]
  exact halign

end Made

/-! ## Reading -/

/-- How many operations a read of some blocks takes, by the alignment of its buffer. -/
def readUnits (toaddr size : Nat) : Nat :=
  if size = 0 then 0 else if toaddr % 4 = 0 then 1 else 2

/-- A read of some bytes, made of at most `n` operations, which leaves the chip and gives the
memory with the bytes if they succeed. -/
structure Reads (env : Env) (st : Chip) (mem : Mem) (toaddr fromaddr size n : Nat) (st' : Chip)
    (mem' : Mem) : Prop where
  made : Made env st st' n
  bytes : st'.bytes = st.bytes
  copies : st'.copies = st.copies
  data : AllOk st' → mem' = write mem toaddr (read st.bytes fromaddr size)

section Reading

variable {env : Env} {st st' st'' : Chip} {mem mem' mem'' : Mem}
variable {toaddr fromaddr size size' n k : Nat}

theorem Reads.trans (h : Reads env st mem toaddr fromaddr size n st' mem')
    (h' : Reads env st' mem' (toaddr + size) (fromaddr + size) size' k st'' mem'') :
    Reads env st mem toaddr fromaddr (size + size') (n + k) st'' mem'' := by
  refine ⟨h.made.trans h'.made, h'.bytes.trans h.bytes, h'.copies.trans h.copies, fun hok => ?_⟩
  have hdata := h.data (h'.made.allOk hok)
  have hlen : ((toaddr + size : Nat) : Int) =
      (toaddr : Int) + (read st.bytes fromaddr size).length := by
    rw [read_length]
    exact Nat.cast_add toaddr size
  rw [h'.data hok, hdata, h.bytes, hlen, write_append, read_add]
  rfl

theorem Reads.refl (env : Env) (st : Chip) (mem : Mem) (toaddr fromaddr : Nat) :
    Reads env st mem toaddr fromaddr 0 0 st mem :=
  ⟨Made.refl env st, rfl, rfl, fun _ => (write_nil mem toaddr).symm⟩

theorem flashRead_made (haddr : 4 ∣ fromaddr) (hsize : 4 ∣ size) :
    Made env st (flashRead env st fromaddr size).1 1 :=
  Made.one haddr hsize rfl rfl

/-- A read that gives no bytes has failed, and so may be the first of several. -/
theorem flashRead_none (haddr : 4 ∣ fromaddr) (hsize : 4 ∣ size)
    (h : flashRead env st fromaddr size = (st', none)) :
    Made env st st' (n + 1) ∧ st'.bytes = st.bytes ∧ st'.copies = st.copies ∧ ¬AllOk st' := by
  obtain ⟨rfl, hnone⟩ := Prod.mk.inj h
  have hfail : env.ok st.accesses.length = false := by
    split at hnone
    · cases hnone
    · rename_i hok
      exact Bool.not_eq_true _ ▸ hok
  refine ⟨Made.failed haddr hsize hfail.symm rfl rfl n, rfl, rfl, fun hok => ?_⟩
  have hat := hok _ (List.mem_append_right _ List.mem_cons_self)
  rw [hfail] at hat
  cases hat

theorem flashRead_some {bytes : List UInt8}
    (h : flashRead env st fromaddr size = (st', some bytes)) :
    bytes = read st.bytes fromaddr size ∧ st'.bytes = st.bytes ∧ st'.copies = st.copies := by
  obtain ⟨rfl, hsome⟩ := Prod.mk.inj h
  split at hsome
  · exact ⟨(Option.some.inj hsome).symm, rfl, rfl⟩
  · cases hsome

/-- The bytes read at the next aligned address are moved to where they belong, and the last four
come behind them. -/
theorem moved_bytes (hsize : 4 ≤ size) (bytes : Mem) :
    write (write (write mem (toaddr - toaddr % 4 + 4 : Nat) (read bytes fromaddr (size - 4))) toaddr
        (read (write mem (toaddr - toaddr % 4 + 4 : Nat) (read bytes fromaddr (size - 4)))
          (toaddr - toaddr % 4 + 4 : Nat) (size - 4)))
      (toaddr + (size - 4) : Nat) (read bytes (fromaddr + (size - 4) : Nat) 4) =
      write mem toaddr (read bytes fromaddr size) := by
  have hback := read_write mem (toaddr - toaddr % 4 + 4 : Nat) (read bytes fromaddr (size - 4))
  rw [read_length] at hback
  have hsplit : read bytes fromaddr size =
      read bytes fromaddr (size - 4) ++ read bytes (fromaddr + (size - 4) : Nat) 4 := by
    conv_lhs => rw [show size = size - 4 + 4 by omega]
    rw [read_add]
    rfl
  have hlen : ((toaddr + (size - 4) : Nat) : Int) =
      (toaddr : Int) + (read bytes fromaddr (size - 4)).length := by
    rw [read_length]
    exact Nat.cast_add toaddr (size - 4)
  rw [hback, hlen, write_append, hsplit, write_cover]
  · omega
  · rw [List.length_append, read_length, read_length]
    omega

theorem platformSFlashRead_reads (haddr : 4 ∣ fromaddr) (hsize : 4 ∣ size) {ret : Nat}
    (h : platformSFlashRead env st mem toaddr fromaddr size = (st', mem', ret)) :
    Reads env st mem toaddr fromaddr size (readUnits toaddr size) st' mem' := by
  rw [platformSFlashRead] at h
  rw [readUnits]
  split at h
  · rename_i hzero
    obtain ⟨rfl, rfl, -⟩ := h
    rw [if_pos hzero, hzero]
    exact Reads.refl env st mem toaddr fromaddr
  · rename_i hpos
    rw [if_neg hpos]
    split at h
    · rename_i hto
      have hsize2 : 4 ∣ size - 4 := Nat.dvd_sub hsize (Nat.dvd_refl 4)
      have haddr2 : 4 ∣ fromaddr + (size - 4) := Nat.dvd_add haddr hsize2
      rw [if_neg hto]
      dsimp only at h
      split at h
      · rename_i st₁ hread
        obtain ⟨rfl, rfl, -⟩ := h
        obtain ⟨hmade, hbytes, hcopies, hfail⟩ := flashRead_none (n := 1) haddr hsize2 hread
        exact ⟨hmade, hbytes, hcopies, fun hok => absurd hok hfail⟩
      · rename_i st₁ bytes hread
        have hmade : Made env st _ 1 := flashRead_made haddr hsize2
        obtain ⟨rfl, hbytes, hcopies⟩ := flashRead_some hread
        rw [hread] at hmade
        split at h
        · rename_i st₂ hback
          obtain ⟨rfl, rfl, -⟩ := h
          obtain ⟨hmade', hbytes', hcopies', hfail⟩ :=
            flashRead_none (n := 0) haddr2 (Nat.dvd_refl 4) hback
          exact ⟨hmade.trans hmade', hbytes'.trans hbytes, hcopies'.trans hcopies,
            fun hok => absurd hok hfail⟩
        · rename_i st₂ back hback
          obtain ⟨rfl, rfl, -⟩ := h
          have hmade' : Made env st₁ _ 1 := flashRead_made haddr2 (Nat.dvd_refl 4)
          obtain ⟨rfl, hbytes', hcopies'⟩ := flashRead_some hback
          rw [hback] at hmade'
          refine ⟨hmade.trans hmade', hbytes'.trans hbytes, hcopies'.trans hcopies, fun _ => ?_⟩
          rw [hbytes]
          exact moved_bytes (by omega) st.bytes
    · rename_i hto
      rw [if_pos (Decidable.not_not.mp hto)]
      split at h
      · rename_i st₁ hread
        obtain ⟨rfl, rfl, -⟩ := h
        obtain ⟨hmade, hbytes, hcopies, hfail⟩ := flashRead_none (n := 0) haddr hsize hread
        exact ⟨hmade, hbytes, hcopies, fun hok => absurd hok hfail⟩
      · rename_i st₁ bytes hread
        obtain ⟨rfl, rfl, -⟩ := h
        have hmade : Made env st _ 1 := flashRead_made haddr hsize
        obtain ⟨rfl, hbytes, hcopies⟩ := flashRead_some hread
        rw [hread] at hmade
        exact ⟨hmade, hbytes, hcopies, fun _ => rfl⟩

/-- A part of what was copied from a memory is read as in that memory. -/
theorem read_of_copied (m m' : Mem) (i j : Int) {a n k : Nat} (h : a + n ≤ k) :
    read (write m i (read m' j k)) (i + a) n = read m' (j + a) n := by
  have hpart : ∀ (m : Mem) (i : Int), ((read m i k).drop a).take n = read m (i + a) n := by
    intro m i
    rw [read_drop _ _ (by omega), read_take _ _ (by omega)]
  have hcopy := read_write m i (read m' j k)
  rw [read_length] at hcopy
  rw [← hpart, hcopy, hpart]

/-- Some bytes of a block are read through `tmpdata`. -/
theorem fetchBlock_reads {pto temp rest : Nat} (htemp : 4 ∣ temp) (hn : rest + n ≤ 4)
    (h : fetchBlock env st mem pto temp rest n = (st', mem')) :
    Reads env st mem pto (temp + rest) n 1 st' mem' := by
  rw [fetchBlock] at h
  generalize hread : platformSFlashRead env st env.junk 0 temp 4 = r at h
  obtain ⟨st₁, tmpdata, ret⟩ := r
  obtain ⟨rfl, rfl⟩ := Prod.mk.inj h
  have hreads := platformSFlashRead_reads htemp (Nat.dvd_refl 4) hread
  refine ⟨hreads.made, hreads.bytes, hreads.copies, fun hok => ?_⟩
  have hcopied := read_of_copied env.junk st.bytes (0 : Nat) temp hn
  rw [Nat.cast_zero, Int.zero_add] at hcopied
  rw [hreads.data hok, Nat.cast_zero, hcopied]
  rfl

theorem readAligned_reads {pto : Nat} (haddr : 4 ∣ fromaddr)
    (h : readAligned env st mem pto fromaddr size = (st', mem')) :
    Reads env st mem pto fromaddr size
      (readUnits pto (size - size % 4) + if size % 4 = 0 then 0 else 1) st' mem' := by
  have hblocks : 4 ∣ size - size % 4 := Nat.dvd_sub_mod size
  have hsum : size - size % 4 + size % 4 = size := Nat.sub_add_cancel (Nat.mod_le size 4)
  have hmiddle : ∀ {st₁ mem₁}, (if size - size % 4 ≠ 0 then
      ((platformSFlashRead env st mem pto fromaddr (size - size % 4)).1,
        (platformSFlashRead env st mem pto fromaddr (size - size % 4)).2.1)
      else (st, mem)) = (st₁, mem₁) →
      Reads env st mem pto fromaddr (size - size % 4) (readUnits pto (size - size % 4))
        st₁ mem₁ := by
    intro st₁ mem₁ h₁
    split at h₁
    · obtain ⟨rfl, rfl⟩ := Prod.mk.inj h₁
      exact platformSFlashRead_reads haddr hblocks rfl
    · rename_i hnone
      obtain ⟨rfl, rfl⟩ := Prod.mk.inj h₁
      rw [Decidable.not_not.mp hnone]
      exact Reads.refl env st mem pto fromaddr
  rw [readAligned] at h
  dsimp only at h
  generalize hr : (if size - size % 4 ≠ 0 then
      ((platformSFlashRead env st mem pto fromaddr (size - size % 4)).1,
        (platformSFlashRead env st mem pto fromaddr (size - size % 4)).2.1)
      else (st, mem)) = r at h
  obtain ⟨st₁, mem₁⟩ := r
  have hreads := hmiddle hr
  dsimp only at h
  by_cases hrest : size % 4 = 0
  · rw [if_neg (Decidable.not_not.mpr hrest)] at h
    obtain ⟨rfl, rfl⟩ := Prod.mk.inj h
    rw [if_pos hrest, Nat.add_zero]
    rw [hrest, Nat.sub_zero] at hreads ⊢
    exact hreads
  · rw [if_pos hrest] at h
    have htail : Reads env st₁ mem₁ _ (fromaddr + (size - size % 4) + 0) (size % 4) 1 st' mem' :=
      fetchBlock_reads (Nat.dvd_add haddr hblocks) (by omega) h
    have hall := hreads.trans htail
    rw [hsum] at hall
    rw [if_neg hrest]
    exact hall

/-- The bytes up to the first block border. -/
def headSize (addr size : Nat) : Nat := if addr % 4 = 0 then 0 else min size (4 - addr % 4)

/-- The bytes of whole blocks behind the border. -/
def middleSize (addr size : Nat) : Nat :=
  size - headSize addr size - (size - headSize addr size) % 4

/-- The bytes of the last block. -/
def tailSize (addr size : Nat) : Nat := (size - headSize addr size) % 4

/-- How many operations a read takes, by its address, its size and the alignment of its buffer. -/
def readOps (pto fromaddr size : Nat) : Nat :=
  (if fromaddr % 4 = 0 then 0 else 1) +
    (readUnits (pto + headSize fromaddr size) (middleSize fromaddr size) +
      if tailSize fromaddr size = 0 then 0 else 1)

theorem headSize_le (addr size : Nat) : headSize addr size ≤ size := by
  rw [headSize]
  split <;> omega

theorem platformFlashRead_reads {pto ret : Nat}
    (h : platformFlashRead env st mem pto fromaddr size = (st', mem', ret)) :
    ret = size ∧ Reads env st mem pto fromaddr size (readOps pto fromaddr size) st' mem' := by
  rw [platformFlashRead] at h
  rw [readOps, middleSize, tailSize, headSize]
  dsimp only at h
  by_cases hrest : fromaddr % 4 = 0
  · rw [if_neg (Decidable.not_not.mpr hrest)] at h
    obtain ⟨rfl, rfl, rfl⟩ := h
    rw [if_pos hrest, if_pos hrest, Nat.sub_zero, Nat.add_zero, Nat.zero_add]
    exact ⟨rfl, readAligned_reads (Nat.dvd_of_mod_eq_zero hrest) rfl⟩
  · rw [if_pos hrest] at h
    rw [if_neg hrest, if_neg hrest]
    have htemp : 4 ∣ fromaddr - fromaddr % 4 := Nat.dvd_sub_mod fromaddr
    have hat : fromaddr - fromaddr % 4 + fromaddr % 4 = fromaddr :=
      Nat.sub_add_cancel (Nat.mod_le fromaddr 4)
    generalize hhead : fetchBlock env st mem pto (fromaddr - fromaddr % 4) (fromaddr % 4)
      (min size (4 - fromaddr % 4)) = r at h
    obtain ⟨st₁, mem₁⟩ := r
    have hreads := fetchBlock_reads htemp (by omega) hhead
    rw [hat] at hreads
    dsimp only at h
    split at h
    · rename_i hdone
      obtain ⟨rfl, rfl, rfl⟩ := h
      have hall : min size (4 - fromaddr % 4) = size := by omega
      rw [hall] at hreads ⊢
      rw [Nat.sub_self]
      exact ⟨rfl, hreads⟩
    · rename_i hleft
      obtain ⟨rfl, rfl, rfl⟩ := h
      have hborder : fromaddr - fromaddr % 4 + 4 =
          fromaddr + min size (4 - fromaddr % 4) := by omega
      rw [hborder]
      have htail : Reads env st₁ mem₁ (pto + min size (4 - fromaddr % 4))
          (fromaddr + min size (4 - fromaddr % 4)) (size - min size (4 - fromaddr % 4)) _ _ _ :=
        readAligned_reads (hborder ▸ Nat.dvd_add htemp (Nat.dvd_refl 4)) rfl
      have hall := hreads.trans htail
      rw [Nat.add_sub_cancel' (Nat.min_le_left _ _)] at hall
      exact ⟨rfl, hall⟩

end Reading

/-- Exactly the bytes of the flash are in the buffer, nothing around it is changed, the operations
are aligned, and the size is returned only if all of them succeeded. -/
def ReadLaw (env : Env) (pto fromaddr size : Nat) : Prop :=
  ∀ flash ram st' ram' ret,
    platformFlashRead env ⟨flash, [], 0⟩ ram pto fromaddr size = (st', ram', ret) →
      read ram' pto size = read flash fromaddr size ∧
      (∀ j : Int, j < pto ∨ (pto : Int) + size ≤ j → ram' j = ram j) ∧ st'.bytes = flash ∧
      (∀ a ∈ st'.accesses, 4 ∣ a.addr ∧ 4 ∣ a.size) ∧ (ret = size → AllOk st')

theorem readLaw_of_ok {env : Env} {pto fromaddr size : Nat}
    (h : ∀ i < readOps pto fromaddr size, env.ok i = true) : ReadLaw env pto fromaddr size := by
  intro flash ram st' ram' ret hrun
  obtain ⟨-, hreads⟩ := platformFlashRead_reads hrun
  have hok := hreads.made.allOk_iff.mpr h
  have hdata := hreads.data hok
  have hread := read_write ram pto (read flash fromaddr size)
  rw [read_length] at hread
  refine ⟨by rw [hdata, hread], fun j hj => ?_, hreads.bytes, hreads.made.aligned, fun _ => hok⟩
  rw [hdata]
  rcases hj with hj | hj
  · exact write_of_lt _ _ _ _ hj
  · exact write_of_ge _ _ _ _ (by rw [read_length]; exact hj)

theorem ok_of_readLaw {env : Env} {pto fromaddr size : Nat} (h : ReadLaw env pto fromaddr size) :
    ∀ i < readOps pto fromaddr size, env.ok i = true := by
  generalize hrun : platformFlashRead env ⟨env.junk, [], 0⟩ env.junk pto fromaddr size = r
  obtain ⟨st', ram', ret⟩ := r
  obtain ⟨hret, hreads⟩ := platformFlashRead_reads hrun
  obtain ⟨-, -, -, -, hok⟩ := h _ _ st' ram' ret hrun
  exact hreads.made.allOk_iff.mp (hok hret)

/-! ## Writing -/

/-- Whether a buffer can be written, where so many copies were asked for before. -/
def copied (env : Env) (fromaddr k : Nat) : Bool := !needsCopy fromaddr || env.alloc k

def asked (fromaddr : Nat) : Nat := if needsCopy fromaddr then 1 else 0

/-- Some bytes of the memory written to the chip, or not. -/
def piece (o : Bool) (m ram : Mem) (toaddr pfrom n : Nat) : Mem :=
  if o then write m toaddr (read ram pfrom n) else m

theorem piece_zero (o : Bool) (m ram : Mem) (toaddr pfrom : Nat) :
    piece o m ram toaddr pfrom 0 = m := by
  rw [piece]
  split
  · exact write_nil m toaddr
  · rfl

/-- A write of some bytes, made of at most `n` operations, which asks for `c` copies and changes
the chip as said if the operations succeed. -/
structure Writes (env : Env) (st st' : Chip) (n c : Nat) (bytes : Mem) : Prop where
  made : Made env st st' n
  copies : st'.copies = st.copies + c
  data : AllOk st' → st'.bytes = bytes

section Writing

variable {env : Env} {st st' st'' : Chip} {ram : Mem} {pfrom toaddr n k : Nat}

theorem Writes.refl (env : Env) (st : Chip) : Writes env st st 0 0 st.bytes :=
  ⟨Made.refl env st, rfl, fun _ => rfl⟩

theorem platformSFlashWrite_writes (env : Env) (st : Chip) (pfrom : Nat) (bytes : List UInt8)
    (haddr : 4 ∣ toaddr) (hsize : 4 ∣ bytes.length) :
    Writes env st (platformSFlashWrite env st pfrom bytes toaddr).1
      (if copied env pfrom st.copies then 1 else 0) (asked pfrom)
      (if copied env pfrom st.copies then write st.bytes toaddr bytes else st.bytes) := by
  rw [platformSFlashWrite, copied, asked]
  cases hneeds : needsCopy pfrom with
  | false =>
    refine ⟨Made.one haddr hsize rfl rfl, rfl, fun hok => ?_⟩
    exact if_pos (hok _ (List.mem_append_right _ List.mem_cons_self))
  | true =>
    cases halloc : env.alloc st.copies with
    | false => exact ⟨(Made.refl env st).of_accesses rfl, rfl, fun _ => rfl⟩
    | true =>
      refine ⟨Made.one haddr hsize rfl rfl, rfl, fun hok => ?_⟩
      exact if_pos (hok _ (List.mem_append_right _ List.mem_cons_self))

/-- How many operations it takes to replace bytes of a block. -/
def patchUnits (env : Env) (k : Nat) : Nat :=
  readUnits env.tmp 4 + if copied env env.tmp k then 1 else 0

theorem patchBlock_writes (env : Env) (st : Chip) (ram : Mem) (pfrom : Nat) {temp rest : Nat}
    (htemp : 4 ∣ temp) (hn : rest + n ≤ 4) :
    Writes env st (patchBlock env st ram pfrom temp rest n) (patchUnits env st.copies)
      (asked env.tmp)
      (piece (copied env env.tmp st.copies) st.bytes ram (temp + rest) pfrom n) := by
  rw [patchBlock]
  generalize hread : platformSFlashRead env st env.junk env.tmp temp 4 = r
  obtain ⟨st₁, tmpdata, ret⟩ := r
  have hreads := platformSFlashRead_reads htemp (Nat.dvd_refl 4) hread
  have hwrites := platformSFlashWrite_writes env st₁ env.tmp
    (read (write tmpdata (env.tmp + rest : Nat) (read ram pfrom n)) env.tmp 4) htemp
    (by rw [read_length])
  refine ⟨?_, ?_, fun hok => ?_⟩
  · rw [patchUnits, ← hreads.copies]
    exact hreads.made.trans hwrites.made
  · rw [hwrites.copies, hreads.copies]
  · -- the bytes of the block around those that are replaced are written back as they were
    have hblock : read (write tmpdata (env.tmp + rest : Nat) (read ram pfrom n)) env.tmp 4 =
        read st.bytes temp rest ++ (read ram pfrom n ++
          read st.bytes (temp + rest + (read ram pfrom n).length) (4 - rest - n)) := by
      obtain ⟨b, hb⟩ := Nat.exists_eq_add_of_le hn
      have hinside := read_write_inside tmpdata env.tmp rest b (read ram pfrom n)
      have hfront := read_of_copied env.junk st.bytes env.tmp temp (by omega : 0 + rest ≤ 4)
      have hbehind := read_of_copied env.junk st.bytes env.tmp temp
        (by omega : rest + n + b ≤ 4)
      rw [Nat.cast_zero, Int.add_zero, Int.add_zero] at hfront
      rw [Nat.cast_add, ← Int.add_assoc, ← Int.add_assoc] at hbehind
      rw [hreads.data (hwrites.made.allOk hok), read_length,
        show rest + (n + b) = 4 by omega, hfront] at hinside
      rw [hreads.data (hwrites.made.allOk hok), read_length, show 4 - rest - n = b by omega,
        Nat.cast_add, hinside, hbehind]
    rw [hwrites.data hok, hreads.bytes, hreads.copies, piece, hblock, write_around]
    rfl

/-- How many operations and copies a middle part takes, and the part of a block behind it. -/
def middleUnits (env : Env) (pfrom m k : Nat) : Nat :=
  if m = 0 then 0 else if copied env pfrom k then 1 else 0

def middleAsked (pfrom m : Nat) : Nat := if m = 0 then 0 else asked pfrom

def partUnits (env : Env) (n k : Nat) : Nat := if n = 0 then 0 else patchUnits env k

def partAsked (env : Env) (n : Nat) : Nat := if n = 0 then 0 else asked env.tmp

theorem middle_writes (env : Env) (st : Chip) (ram : Mem) (pfrom : Nat) {m : Nat}
    (haddr : 4 ∣ toaddr) (hm : 4 ∣ m) :
    Writes env st
      (if m ≠ 0 then (platformSFlashWrite env st pfrom (read ram pfrom m) toaddr).1 else st)
      (middleUnits env pfrom m st.copies) (middleAsked pfrom m)
      (piece (copied env pfrom st.copies) st.bytes ram toaddr pfrom m) := by
  rw [middleUnits, middleAsked]
  by_cases hzero : m = 0
  · rw [if_neg (Decidable.not_not.mpr hzero), if_pos hzero, if_pos hzero, hzero, piece_zero]
    exact Writes.refl env st
  · rw [if_pos hzero, if_neg hzero, if_neg hzero, piece]
    exact platformSFlashWrite_writes env st pfrom _ haddr (by rw [read_length]; exact hm)

theorem part_writes (env : Env) (st : Chip) (ram : Mem) (pfrom : Nat) {temp : Nat}
    (htemp : 4 ∣ temp) (hn : n ≤ 4) :
    Writes env st (if n ≠ 0 then patchBlock env st ram pfrom temp 0 n else st)
      (partUnits env n st.copies) (partAsked env n)
      (piece (copied env env.tmp st.copies) st.bytes ram temp pfrom n) := by
  rw [partUnits, partAsked]
  by_cases hzero : n = 0
  · rw [if_neg (Decidable.not_not.mpr hzero), if_pos hzero, if_pos hzero, hzero, piece_zero]
    exact Writes.refl env st
  · rw [if_pos hzero, if_neg hzero, if_neg hzero]
    exact patchBlock_writes env st ram pfrom htemp (by omega)

theorem Writes.trans {n' c c' : Nat} {bytes bytes' : Mem} (h : Writes env st st' n c bytes)
    (h' : Writes env st' st'' n' c' bytes') : Made env st st'' (n + n') ∧
      st''.copies = st.copies + (c + c') ∧
      (AllOk st'' → st'.bytes = bytes ∧ st''.bytes = bytes') := by
  refine ⟨h.made.trans h'.made, ?_, fun hok => ⟨h.data (h'.made.allOk hok), h'.data hok⟩⟩
  rw [h'.copies, h.copies, Nat.add_assoc]

theorem writeAligned_writes (env : Env) (st : Chip) (ram : Mem) (pfrom size : Nat)
    (haddr : 4 ∣ toaddr) :
    Writes env st (writeAligned env st ram pfrom toaddr size)
      (middleUnits env pfrom (size - size % 4) st.copies +
        partUnits env (size % 4) (st.copies + middleAsked pfrom (size - size % 4)))
      (middleAsked pfrom (size - size % 4) + partAsked env (size % 4))
      (piece (copied env env.tmp (st.copies + middleAsked pfrom (size - size % 4)))
        (piece (copied env pfrom st.copies) st.bytes ram toaddr pfrom (size - size % 4)) ram
        (toaddr + (size - size % 4)) (pfrom + (size - size % 4)) (size % 4)) := by
  have hblocks : 4 ∣ size - size % 4 := Nat.dvd_sub_mod size
  have hmiddle := middle_writes env st ram pfrom haddr hblocks
  rw [writeAligned]
  generalize (if size - size % 4 ≠ 0 then
    (platformSFlashWrite env st pfrom (read ram pfrom (size - size % 4)) toaddr).1
    else st) = st₁ at hmiddle ⊢
  have hpart := part_writes env st₁ ram (pfrom + (size - size % 4))
    (Nat.dvd_add haddr hblocks) (by omega : size % 4 ≤ 4)
  rw [hmiddle.copies] at hpart
  obtain ⟨hmade, hcopies, hdata⟩ := hmiddle.trans hpart
  refine ⟨hmade, hcopies, fun hok => ?_⟩
  obtain ⟨hbytes, hbytes'⟩ := hdata hok
  rw [hbytes', hbytes]

/-- How many operations a write takes, by its addresses, its size and the copies obtained. -/
def writeOps (env : Env) (pfrom toaddr size : Nat) : Nat :=
  partUnits env (toaddr % 4) 0 +
    (middleUnits env (pfrom + headSize toaddr size) (middleSize toaddr size)
        (partAsked env (toaddr % 4)) +
      partUnits env (tailSize toaddr size) (partAsked env (toaddr % 4) +
        middleAsked (pfrom + headSize toaddr size) (middleSize toaddr size)))

/-- Which of the three parts of a write get the copies that they ask for. -/
def headCopied (env : Env) : Bool := copied env env.tmp 0

def middleCopied (env : Env) (pfrom toaddr size : Nat) : Bool :=
  copied env (pfrom + headSize toaddr size) (partAsked env (toaddr % 4))

def tailCopied (env : Env) (pfrom toaddr size : Nat) : Bool :=
  copied env env.tmp (partAsked env (toaddr % 4) +
    middleAsked (pfrom + headSize toaddr size) (middleSize toaddr size))

/-- The chip after a write whose operations succeed, with the parts that were written. -/
def written (env : Env) (flash ram : Mem) (pfrom toaddr size : Nat) : Mem :=
  piece (tailCopied env pfrom toaddr size)
    (piece (middleCopied env pfrom toaddr size)
      (piece (headCopied env) flash ram toaddr pfrom (headSize toaddr size)) ram
      (toaddr + headSize toaddr size) (pfrom + headSize toaddr size) (middleSize toaddr size)) ram
    (toaddr + headSize toaddr size + middleSize toaddr size)
    (pfrom + headSize toaddr size + middleSize toaddr size) (tailSize toaddr size)

theorem platformFlashWrite_writes {flash : Mem} {size ret : Nat}
    (h : platformFlashWrite env ⟨flash, [], 0⟩ ram pfrom toaddr size = (st', ret)) :
    ret = size ∧ Made env ⟨flash, [], 0⟩ st' (writeOps env pfrom toaddr size) ∧
      (AllOk st' → st'.bytes = written env flash ram pfrom toaddr size) := by
  rw [platformFlashWrite] at h
  dsimp only at h
  by_cases hrest : toaddr % 4 = 0
  · rw [if_neg (Decidable.not_not.mpr hrest)] at h
    obtain ⟨rfl, rfl⟩ := Prod.mk.inj h
    have haligned := writeAligned_writes env ⟨flash, [], 0⟩ ram pfrom size
      (Nat.dvd_of_mod_eq_zero hrest)
    have hhead : headSize toaddr size = 0 := if_pos hrest
    refine ⟨rfl, ?_, fun hok => ?_⟩
    · have hmade := haligned.made
      rw [writeOps, partUnits, if_pos hrest, partAsked, if_pos hrest, middleSize, tailSize, hhead]
      simp only [Nat.zero_add, Nat.add_zero, Nat.sub_zero] at hmade ⊢
      exact hmade
    · have hdata := haligned.data hok
      rw [written, headCopied, middleCopied, tailCopied, partAsked, if_pos hrest, middleSize,
        tailSize, hhead, piece_zero]
      simp only [Nat.zero_add, Nat.add_zero, Nat.sub_zero] at hdata ⊢
      exact hdata
  · have htemp : 4 ∣ toaddr - toaddr % 4 := Nat.dvd_sub_mod toaddr
    have hat : toaddr - toaddr % 4 + toaddr % 4 = toaddr :=
      Nat.sub_add_cancel (Nat.mod_le toaddr 4)
    have hhead : headSize toaddr size = min size (4 - toaddr % 4) := if_neg hrest
    have hpatch : Writes env ⟨flash, [], 0⟩ _ (patchUnits env 0) (asked env.tmp) _ :=
      patchBlock_writes env ⟨flash, [], 0⟩ ram pfrom htemp
        (by omega : toaddr % 4 + min size (4 - toaddr % 4) ≤ 4)
    rw [if_pos hrest] at h
    rw [writeOps, written, headCopied, middleCopied, tailCopied, partUnits, if_neg hrest,
      partAsked, if_neg hrest, middleSize, tailSize, hhead]
    generalize patchBlock env ⟨flash, [], 0⟩ ram pfrom (toaddr - toaddr % 4) (toaddr % 4)
      (min size (4 - toaddr % 4)) = st₁ at h hpatch
    rw [hat] at hpatch
    split at h
    · rename_i hdone
      obtain ⟨rfl, rfl⟩ := Prod.mk.inj h
      rw [hdone]
      refine ⟨rfl, hpatch.made, fun hok => ?_⟩
      rw [hpatch.data hok, Nat.zero_mod, Nat.sub_zero, piece_zero, piece_zero]
    · rename_i hleft
      obtain ⟨rfl, rfl⟩ := Prod.mk.inj h
      have hborder : toaddr - toaddr % 4 + 4 = toaddr + min size (4 - toaddr % 4) := by omega
      rw [hborder]
      have haligned := writeAligned_writes env st₁ ram (pfrom + min size (4 - toaddr % 4))
        (size - min size (4 - toaddr % 4)) (hborder ▸ Nat.dvd_add htemp (Nat.dvd_refl 4))
      rw [hpatch.copies] at haligned
      simp only [Nat.zero_add] at haligned
      refine ⟨rfl, hpatch.made.trans haligned.made, fun hok => ?_⟩
      rw [haligned.data hok, hpatch.data (haligned.made.allOk hok)]

end Writing

/-- Exactly the bytes of the range become the given ones, the operations are aligned, and the size
is returned only if all of them succeeded. -/
def WriteLaw (env : Env) (pfrom toaddr size : Nat) : Prop :=
  ∀ flash ram st' ret, platformFlashWrite env ⟨flash, [], 0⟩ ram pfrom toaddr size = (st', ret) →
    st'.bytes = write flash toaddr (read ram pfrom size) ∧
    (∀ a ∈ st'.accesses, 4 ∣ a.addr ∧ 4 ∣ a.size) ∧ (ret = size → AllOk st')

/-- Every operation succeeds, and each part that holds bytes gets the copy that it asks for. -/
structure WriteFits (env : Env) (pfrom toaddr size : Nat) : Prop where
  ops : ∀ i < writeOps env pfrom toaddr size, env.ok i = true
  head : 0 < headSize toaddr size → headCopied env = true
  middle : 0 < middleSize toaddr size → middleCopied env pfrom toaddr size = true
  tail : 0 < tailSize toaddr size → tailCopied env pfrom toaddr size = true

section Written

variable {o : Bool} {m ram : Mem} {toaddr pfrom n : Nat} {j : Int}

theorem piece_of_copied (h : 0 < n → o = true) :
    piece o m ram toaddr pfrom n = write m toaddr (read ram pfrom n) := by
  cases n with
  | zero =>
    rw [piece_zero]
    exact (write_nil m toaddr).symm
  | succ n => exact if_pos (h (Nat.succ_pos n))

theorem piece_outside (hj : j < toaddr ∨ (toaddr : Int) + n ≤ j) :
    piece o m ram toaddr pfrom n j = m j := by
  rw [piece]
  split
  · rcases hj with hj | hj
    · exact write_of_lt _ _ _ _ hj
    · exact write_of_ge _ _ _ _ (by rw [read_length]; exact hj)
  · rfl

theorem piece_refused (h : o = false) : piece o m ram toaddr pfrom n = m := by
  rw [piece, h]
  exact if_neg (by decide)

/-- Parts that follow each other are one write. -/
theorem write_parts (m ram : Mem) (toaddr pfrom a b : Nat) :
    write (write m toaddr (read ram pfrom a)) (toaddr + a : Nat) (read ram (pfrom + a : Nat) b) =
      write m toaddr (read ram pfrom (a + b)) := by
  have hlen : ((toaddr + a : Nat) : Int) = (toaddr : Int) + (read ram pfrom a).length := by
    rw [read_length]
    exact Nat.cast_add toaddr a
  rw [hlen, write_append, read_add]
  rfl

end Written

theorem sizes_sum (addr size : Nat) :
    headSize addr size + middleSize addr size + tailSize addr size = size := by
  have hle := headSize_le addr size
  rw [middleSize, tailSize]
  omega

theorem writeLaw_of_fits {env : Env} {pfrom toaddr size : Nat}
    (h : WriteFits env pfrom toaddr size) : WriteLaw env pfrom toaddr size := by
  intro flash ram st' ret hrun
  obtain ⟨-, hmade, hdata⟩ := platformFlashWrite_writes hrun
  have hok := hmade.allOk_iff.mpr h.ops
  refine ⟨?_, hmade.aligned, fun _ => hok⟩
  rw [hdata hok, written, piece_of_copied h.head, piece_of_copied h.middle,
    piece_of_copied h.tail, Nat.add_assoc toaddr, Nat.add_assoc pfrom, write_parts, write_parts,
    sizes_sum]

/-- Each byte of the range is written, so each part with a byte got its copy. -/
theorem fits_of_writeLaw {env : Env} {pfrom toaddr size : Nat}
    (h : WriteLaw env pfrom toaddr size) : WriteFits env pfrom toaddr size := by
  generalize hrun : platformFlashWrite env ⟨fun _ => 0, [], 0⟩ (fun _ => 1) pfrom toaddr size = r
  obtain ⟨st', ret⟩ := r
  obtain ⟨hret, hmade, hdata⟩ := platformFlashWrite_writes hrun
  obtain ⟨hbytes, -, hok⟩ := h _ _ st' ret hrun
  have hsum := sizes_sum toaddr size
  -- where nothing was written there still is a zero
  have hone : ∀ k < size, written env (fun _ => 0) (fun _ => 1) pfrom toaddr size
      (toaddr + k : Nat) = 1 := by
    intro k hk
    rw [← hdata (hok hret), hbytes, Nat.cast_add,
      write_at _ _ _ _ (by rw [read_length]; exact hk), List.getD, read_getElem? _ _ hk]
    rfl
  refine ⟨hmade.allOk_iff.mp (hok hret), fun hpos => ?_, fun hpos => ?_, fun hpos => ?_⟩
  · by_contra hrefused
    have hat := hone 0 (by omega)
    rw [written, piece_outside (by omega), piece_outside (by omega),
      piece_refused (Bool.not_eq_true _ ▸ hrefused)] at hat
    exact absurd hat (by decide)
  · by_contra hrefused
    have hat := hone (headSize toaddr size) (by omega)
    rw [written, piece_outside (by omega), piece_refused (Bool.not_eq_true _ ▸ hrefused),
      piece_outside (by omega)] at hat
    exact absurd hat (by decide)
  · by_contra hrefused
    have hat := hone (headSize toaddr size + middleSize toaddr size) (by omega)
    rw [written, piece_refused (Bool.not_eq_true _ ▸ hrefused), piece_outside (by omega),
      piece_outside (by omega)] at hat
    exact absurd hat (by decide)

/-- Reads and writes do what they should exactly if every operation of the chip succeeds and, for
a write, every copy is obtained. -/
theorem flash_access_iff (env : Env) (p addr size : Nat) :
    (ReadLaw env p addr size ↔ ∀ i < readOps p addr size, env.ok i = true) ∧
      (WriteLaw env p addr size ↔ WriteFits env p addr size) :=
  ⟨⟨ok_of_readLaw, readLaw_of_ok⟩, ⟨fits_of_writeLaw, writeLaw_of_fits⟩⟩

/-- The size of a read is returned although the only operation failed. -/
theorem failed_read_returned :
    ¬ReadLaw ⟨fun _ => false, fun _ => true, 0, fun _ => 0xFF⟩ 0x3FFE8000 0x100000 4 := by
  intro h
  have hok := ok_of_readLaw h 0 (by decide)
  cases hok

end NodeMcu.Platform.Flash
