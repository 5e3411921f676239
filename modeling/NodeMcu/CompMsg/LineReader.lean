import NodeMcu.Lib.Lines

namespace NodeMcu.CompMsg.LineReader

open NodeMcu.Lib.Lines

def bufSiz : Nat := 1024
def newLine : UInt8 := 0x0A

/-- The size of `buf` in `handleMsgFileInternal`. -/
def lineBufLgth : Nat := 100

/-- `fs_read` gives what is left of the file if that is less. -/
def fsRead (file : List UInt8) (pos n : Nat) : List UInt8 := (file.drop pos).take n

/-- The loop of `readLine`. -/
def copyLine : List UInt8 → List UInt8
  | [] => []
  | c :: cs => if c = newLine then [c] else c :: copyLine cs

/-- What a call of `readLine` stores from the start of the caller's buffer on, the length it gives,
and where it leaves the file. -/
structure LineRead where
  stored : List UInt8
  lgth : Nat
  pos : Nat
  deriving DecidableEq

def readLine (file : List UInt8) (pos : Nat) : LineRead :=
  let buf := fsRead file pos bufSiz
  let line := copyLine buf
  { stored := line ++ [0]
    lgth := line.length % 256
    pos := pos + buf.length - (buf.length - line.length) }

/-- The line as its length gives it to the caller. -/
def LineRead.line (r : LineRead) : List UInt8 := r.stored.take r.lgth

/-- Where the file is after some calls. -/
def posAfter (file : List UInt8) : Nat → Nat
  | 0 => 0
  | k + 1 => (readLine file (posAfter file k)).pos

def call (file : List UInt8) (k : Nat) : LineRead := readLine file (posAfter file k)

/-- What a reader of lines is for. -/
structure ReadsLines (file : List UInt8) : Prop where
  lines : ∀ k, (call file k).line = (linesOf newLine file)[k]?.getD []
  atEnd : ∀ k, (call file k).lgth = 0 → file.length ≤ posAfter file k
  inside : ∀ k, (call file k).stored.length ≤ lineBufLgth

theorem copyLine_eq (cs : List UInt8) : copyLine cs = firstLine newLine cs := by
  induction cs with
  | nil => rfl
  | cons c cs ih => rw [copyLine, firstLine, ih]

theorem readLine_stored (file : List UInt8) (pos : Nat) :
    (readLine file pos).stored.length =
      min bufSiz (firstLine newLine (file.drop pos)).length + 1 := by
  have h : (readLine file pos).stored = copyLine (fsRead file pos bufSiz) ++ [0] := rfl
  rw [h, copyLine_eq, fsRead, List.length_append, firstLine_take_length, List.length_singleton]

/-- A line that the caller's buffer takes is read as it is. -/
theorem readLine_fits (file : List UInt8) (pos : Nat)
    (h : (firstLine newLine (file.drop pos)).length < lineBufLgth) :
    readLine file pos =
      { stored := firstLine newLine (file.drop pos) ++ [0]
        lgth := (firstLine newLine (file.drop pos)).length
        pos := pos + (firstLine newLine (file.drop pos)).length } := by
  have hline : copyLine (fsRead file pos bufSiz) = firstLine newLine (file.drop pos) := by
    rw [copyLine_eq]
    apply firstLine_take
    exact Nat.le_of_lt (Nat.lt_trans h (by decide))
  have hle := firstLine_length newLine (fsRead file pos bufSiz)
  rw [← copyLine_eq, hline] at hle
  have hmod : (firstLine newLine (file.drop pos)).length % 256 =
      (firstLine newLine (file.drop pos)).length :=
    Nat.mod_eq_of_lt (Nat.lt_trans h (by decide))
  have hpos : pos + (fsRead file pos bufSiz).length -
      ((fsRead file pos bufSiz).length - (firstLine newLine (file.drop pos)).length) =
      pos + (firstLine newLine (file.drop pos)).length := by
    omega
  rw [readLine, hline, hmod, hpos]

/-- As long as the lines fit, each call goes on at the next one. -/
theorem posAfter_eq (file : List UInt8) (k : Nat)
    (h : ∀ line ∈ (linesOf newLine file).take k, line.length < lineBufLgth) :
    posAfter file k = ((linesOf newLine file).take k).flatten.length := by
  induction k with
  | zero => rfl
  | succ k ih =>
    rw [List.take_add_one] at h
    have hpos := ih fun line hline => h line (List.mem_append_left _ hline)
    have hfirst : firstLine newLine (file.drop (posAfter file k)) =
        (linesOf newLine file)[k]?.getD [] := by
      rw [hpos, firstLine_eq_head, linesOf_drop, List.head?_drop]
    have hfits : (firstLine newLine (file.drop (posAfter file k))).length < lineBufLgth := by
      rw [hfirst]
      cases hk : (linesOf newLine file)[k]? with
      | none => exact Nat.succ_pos _
      | some line =>
        rw [hk] at h
        exact h line (by simp)
    rw [posAfter, readLine_fits file _ hfits, List.take_add_one, List.flatten_append,
      List.length_append, hfirst, hpos]
    cases (linesOf newLine file)[k]? <;> simp

theorem firstLine_call (file : List UInt8) (k : Nat)
    (h : ∀ line ∈ (linesOf newLine file).take k, line.length < lineBufLgth) :
    firstLine newLine (file.drop (posAfter file k)) = (linesOf newLine file)[k]?.getD [] := by
  rw [posAfter_eq file k h, firstLine_eq_head, linesOf_drop, List.head?_drop]

/-- If the calls stay inside the buffer the lines fit it. -/
theorem fits_of_inside (file : List UInt8) (k : Nat)
    (h : ∀ j, j < k → (call file j).stored.length ≤ lineBufLgth) :
    ∀ line ∈ (linesOf newLine file).take k, line.length < lineBufLgth := by
  induction k with
  | zero =>
    intro line hline
    rw [List.take_zero] at hline
    cases hline
  | succ k ih =>
    have hbefore := ih fun j hj => h j (Nat.lt_succ_of_lt hj)
    intro line hline
    rw [List.take_add_one] at hline
    obtain hline | hline := List.mem_append.mp hline
    · exact hbefore line hline
    · have hk : (linesOf newLine file)[k]? = some line := by simpa using hline
      have hstored := h k (Nat.lt_succ_self k)
      rw [call, readLine_stored, firstLine_call file k hbefore, hk, Option.getD_some] at hstored
      simp only [bufSiz, lineBufLgth] at hstored ⊢
      omega

/-- The reader is right for files whose lines, each with its newline, leave room for the zero. -/
theorem readsLines_iff (file : List UInt8) :
    ReadsLines file ↔ ∀ line ∈ linesOf newLine file, line.length < lineBufLgth := by
  constructor
  · intro h line hline
    apply fits_of_inside file (linesOf newLine file).length (fun j _ => h.inside j)
    rwa [List.take_length]
  · intro h
    have htake : ∀ k, ∀ line ∈ (linesOf newLine file).take k, line.length < lineBufLgth :=
      fun k line hline => h line (List.mem_of_mem_take hline)
    have hfits : ∀ k : Nat, ((linesOf newLine file)[k]?.getD []).length < lineBufLgth := by
      intro k
      cases hk : (linesOf newLine file)[k]? with
      | none => exact Nat.succ_pos _
      | some line => exact h line (List.mem_of_getElem? hk)
    have hcall : ∀ k : Nat, call file k =
        { stored := (linesOf newLine file)[k]?.getD [] ++ [0]
          lgth := ((linesOf newLine file)[k]?.getD []).length
          pos := posAfter file k + ((linesOf newLine file)[k]?.getD []).length } := by
      intro k
      have hfirst := firstLine_call file k (htake k)
      rw [call, readLine_fits, hfirst]
      rw [hfirst]
      exact hfits k
    refine ⟨?_, ?_, ?_⟩
    · intro k
      rw [hcall, LineRead.line]
      exact List.take_left
    · intro k hk
      rw [hcall] at hk
      have hnone : (linesOf newLine file)[k]? = none := by
        cases hline : (linesOf newLine file)[k]? with
        | none => rfl
        | some line =>
          rw [hline] at hk
          have hne := ne_nil_of_mem_linesOf newLine file line (List.mem_of_getElem? hline)
          exact absurd (List.length_eq_zero_iff.mp hk) hne
      have hlen := List.getElem?_eq_none_iff.mp hnone
      apply Nat.le_of_eq
      rw [posAfter_eq file k (htake k), List.take_of_length_le hlen, linesOf_flatten]
    · intro k
      rw [hcall, List.length_append]
      exact hfits k

/-- What the calls deliver up to the first empty one is the file. -/
theorem delivered_flatten (file : List UInt8) (h : ReadsLines file) :
    ((List.range (linesOf newLine file).length).map fun k => (call file k).line).flatten =
      file := by
  have hlines : (List.range (linesOf newLine file).length).map (fun k => (call file k).line) =
      linesOf newLine file := by
    apply List.ext_getElem
    · rw [List.length_map, List.length_range]
    · intro k hk hk'
      rw [List.getElem_map, List.getElem_range, h.lines k, List.getElem?_eq_getElem hk']
      rfl
  rw [hlines, linesOf_flatten]

/-- A line of a hundred bytes needs one more for the zero. -/
theorem longLine_not_read : ¬ ReadsLines (List.replicate 100 0x61) := by
  intro h
  have hlen := h.inside 0
  revert hlen
  decide +kernel

end NodeMcu.CompMsg.LineReader
