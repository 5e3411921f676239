import NodeMcu.CompMsg.LineReader
import NodeMcu.Lib.Text

namespace NodeMcu.CompMsg.DescFiles

open NodeMcu.Lib.Lines NodeMcu.Lib.Text NodeMcu.CompMsg.LineReader

def comma : UInt8 := 0x2C
def carriageReturn : UInt8 := 0x0D
def space : UInt8 := 0x20
def hash : UInt8 := 0x23
def msgMaxLineFields : Nat := 15

/-- The fields of a line: the buffer, and for each field where it begins in the buffer. A pointer
that was not set since the file was opened is `none`. -/
structure LineFields where
  buffer : List UInt8
  numLineFields : Nat
  lineFields : Nat → Option Nat

/-- The loop of `getLineFields`, and whether the line has not too many fields. -/
def fieldLoop : Nat → Nat → LineFields → Bool × LineFields
  | 0, _, f => (true, f)
  | n + 1, cp, f =>
    let c := f.buffer.getD cp 0
    if c = comma then
      let num := f.numLineFields + 1
      let f := { f with buffer := f.buffer.set cp 0, numLineFields := num }
      if msgMaxLineFields ≤ num then (false, f)
      else
        fieldLoop n (cp + 1)
          { f with lineFields := Function.update f.lineFields num (some (cp + 1)) }
    else if c = carriageReturn ∨ c = newLine then
      fieldLoop n (cp + 1) { f with buffer := f.buffer.set cp 0 }
    else fieldLoop n (cp + 1) f

def getLineFields (lgth : Nat) (f : LineFields) : Bool × LineFields :=
  let r := fieldLoop lgth 0
    { f with numLineFields := 0, lineFields := Function.update f.lineFields 0 (some 0) }
  if r.1 then (true, { r.2 with numLineFields := r.2.numLineFields + 1 }) else r

/-- The string that a field's pointer points at. What the pointers of earlier files point at is a
parameter; a null pointer points at nothing. -/
def fieldText (old : Nat → Option (List UInt8)) (f : LineFields) (i : Nat) :
    Option (List UInt8) :=
  match f.lineFields i with
  | some cp => some (cString (f.buffer.drop cp))
  | none => old i

/-- The texts of the fields of the line. -/
def fieldTexts (old : Nat → Option (List UInt8)) (f : LineFields) : List (List UInt8) :=
  (List.range f.numLineFields).map fun i => (fieldText old f i).getD []

def isOctal (c : UInt8) : Bool := 0x30 ≤ c && c ≤ 0x37
def octal (digits : List UInt8) : Nat := digits.foldl (fun a c => 8 * a + (c.toNat - 0x30)) 0

/-- The digits that `strtoul` with base 0 reads, their value, and what is behind them. -/
def digitsOf (s : List UInt8) : List UInt8 × Nat × List UInt8 :=
  if s.head? = some 0x30 ∧ s.tail.head?.map toLower = some 0x78 then
    let digits := (s.drop 2).takeWhile isXDigit
    (digits, hexadecimal digits, (s.drop 2).dropWhile isXDigit)
  else if s.head? = some 0x30 then
    let digits := s.takeWhile isOctal
    (digits, octal digits, s.dropWhile isOctal)
  else
    let digits := s.takeWhile isDigit
    (digits, decimal digits, s.dropWhile isDigit)

/-- `strtoul` with base 0, where a `long` has 32 bits: the number and the text behind it. -/
def strtoul (text : List UInt8) : Nat × List UInt8 :=
  let s := text.dropWhile isSpace
  let negative := decide (s.head? = some 0x2D)
  let s := if s.head? = some 0x2D ∨ s.head? = some 0x2B then s.tail else s
  let d := digitsOf s
  if d.1 = [] then (0, text)
  else
    let n := d.2.1
    (if 2 ^ 32 ≤ n then 2 ^ 32 - 1 else if negative then (2 ^ 32 - n) % 2 ^ 32 else n, d.2.2)

/-- The number as an `int`. -/
def getIntFieldValue (text : List UInt8) : Int :=
  let n := (strtoul text).1
  if n < 2 ^ 31 then n else (n : Int) - 2 ^ 32

/-- What `handleMsgFileInternal` returns. The errors of the line handler are a parameter. -/
inductive Code (ε : Type)
  | ok
  | tooManyLineFields
  | wrongDescFileLine
  | badNumDescFileLines
  | handler (e : ε)
  | crash
  deriving DecidableEq

variable {σ ε : Type}

/-- The line handler with the fields of its line, the number of expected lines and that of the
line. -/
abbrev HandleMsgLine (σ ε : Type) := List (List UInt8) → Int → Int → σ → Except ε Unit × σ

/-- The state of the loop, with the lines that the handler was called for. -/
structure Progress (σ : Type) where
  pos : Nat
  fields : LineFields
  numLines : Int
  hadNumLines : Bool
  expectedLines : Int
  currLineNo : Int
  state : σ
  calls : List (List (List UInt8))

/-- How the function ends: the code, whether the file is closed, and the state. -/
structure Exit (σ ε : Type) where
  code : Code ε
  closed : Bool
  final : Progress σ

def isBlank (c : UInt8) : Bool := c == space || c == carriageReturn || c == newLine

/-- The handling of a line that is neither empty nor a comment. -/
def handleLine (old : Nat → Option (List UInt8)) (handleMsgLine : HandleMsgLine σ ε)
    (p : Progress σ) : Except (Exit σ ε) (Progress σ) :=
  if p.numLines = 0 ∧ p.hadNumLines = false then
    let p := { p with currLineNo := 0 }
    if fieldText old p.fields 0 = some [hash] then
      match fieldText old p.fields 1 with
      | none => .error ⟨.crash, false, p⟩
      | some text =>
        .ok { p with expectedLines := getIntFieldValue text, hadNumLines := true }
    else .error ⟨.wrongDescFileLine, false, p⟩
  else
    let p := { p with numLines := p.numLines + 1 }
    if p.expectedLines < p.numLines then .error ⟨.badNumDescFileLines, true, p⟩
    else
      let fields := fieldTexts old p.fields
      let p := { p with currLineNo := p.currLineNo + 1, calls := p.calls ++ [fields] }
      let h := handleMsgLine fields p.expectedLines p.currLineNo p.state
      let p := { p with state := h.2 }
      match h.1 with
      | .error e => .error ⟨.handler e, true, p⟩
      | .ok _ => .ok p

/-- One pass of the loop. A line that leaves the buffer is a crash. -/
def pass (file : List UInt8) (old : Nat → Option (List UInt8))
    (handleMsgLine : HandleMsgLine σ ε) (p : Progress σ) : Except (Exit σ ε) (Progress σ) :=
  let r := readLine file p.pos
  if lineBufLgth < r.stored.length then .error ⟨.crash, false, p⟩
  else
    let buffer := r.stored ++ p.fields.buffer.drop r.stored.length
    let p := { p with pos := r.pos, fields := { p.fields with buffer := buffer } }
    if r.lgth = 0 then
      if p.expectedLines < p.numLines then .error ⟨.badNumDescFileLines, true, p⟩
      else .error ⟨.ok, true, p⟩
    else if (buffer.takeWhile isBlank).length = r.lgth then .ok p
    else
      let g := getLineFields r.lgth { p.fields with buffer := buffer.set r.lgth 0 }
      let p := { p with fields := g.2 }
      if g.1 = false then .error ⟨.tooManyLineFields, true, p⟩
      else if g.2.numLineFields < 2 ∧ fieldText old g.2 0 = some [] then .ok p
      else if g.2.buffer.getD 0 0 = hash ∧ g.2.buffer.getD 1 0 = space then .ok p
      else handleLine old handleMsgLine p

/-- The loop, with a bound for its passes. -/
def fileLoop (file : List UInt8) (old : Nat → Option (List UInt8))
    (handleMsgLine : HandleMsgLine σ ε) : Nat → Progress σ → Option (Exit σ ε)
  | 0, _ => none
  | n + 1, p =>
    match pass file old handleMsgLine p with
    | .error e => some e
    | .ok p => fileLoop file old handleMsgLine n p

/-- What the function finds when it is called: the bytes of its buffer, what the pointers to the
fields still point at, the lines expected for the file before, and the state of the handler. -/
structure Found (σ : Type) where
  buffer : List UInt8
  old : Nat → Option (List UInt8)
  numLineFields : Nat
  expectedLines : Int
  state : σ

def startProgress (found : Found σ) : Progress σ where
  pos := 0
  fields := ⟨found.buffer, found.numLineFields, fun _ => none⟩
  numLines := 0
  hadNumLines := false
  expectedLines := found.expectedLines
  currLineNo := 0
  state := found.state
  calls := []

/-- Each pass reads at least a byte or is the last one. -/
def handleMsgFileInternal (handleMsgLine : HandleMsgLine σ ε) (found : Found σ)
    (file : List UInt8) : Option (Exit σ ε) :=
  fileLoop file found.old handleMsgLine (file.length + 1) (startProgress found)

section fields

/-- The text of a field, up to the first zero or end of line. -/
def cut (text : List UInt8) : List UInt8 :=
  text.takeWhile fun c => c ≠ 0 ∧ c ≠ carriageReturn ∧ c ≠ newLine

/-- The comma-separated fields of a line. -/
def fieldsOf (line : List UInt8) : List (List UInt8) := (line.splitOn comma).map cut

/-- What `getLineFields` leaves of a character. -/
def ended (c : UInt8) : UInt8 := if c = comma ∨ c = carriageReturn ∨ c = newLine then 0 else c

theorem cString_ended (rest tail : List UInt8) :
    cString (rest.map ended ++ 0 :: tail) = cut ((rest.splitOn comma).headD []) := by
  induction rest with
  | nil => rfl
  | cons c rest ih =>
    rw [List.splitOn_cons_eq_if_modifyHead]
    by_cases hc : c = comma
    · have hcut : ended c = 0 := if_pos (.inl hc)
      rw [if_pos (beq_iff_eq.mpr hc), List.map_cons, hcut]
      rfl
    · obtain ⟨first, others, hsplit⟩ := List.exists_cons_of_ne_nil (List.splitOn_ne_nil comma rest)
      rw [if_neg (by simpa using hc), hsplit, List.modifyHead_cons, List.headD_cons, List.map_cons,
        List.cons_append]
      rw [hsplit, List.headD_cons] at ih
      by_cases hend : c = carriageReturn ∨ c = newLine
      · have hcut : ended c = 0 := if_pos (.inr hend)
        rw [hcut, cString, List.takeWhile_cons_of_neg (by decide), cut,
          List.takeWhile_cons_of_neg]
        simp only [decide_eq_true_eq]
        tauto
      · have hsame : ended c = c := if_neg (by tauto)
        rw [hsame]
        by_cases hzero : c = 0
        · rw [hzero, cString, List.takeWhile_cons_of_neg (by decide), cut,
            List.takeWhile_cons_of_neg]
          simp
        · rw [cString, List.takeWhile_cons_of_pos (by simpa using hzero), cut,
            List.takeWhile_cons_of_pos (by simp only [decide_eq_true_eq]; tauto)]
          rw [cString, cut] at ih
          rw [ih]

/-- What the loop has done with a line when it comes to its end. -/
structure Split (pre rest tail : List UInt8) (f f' : LineFields) : Prop where
  buffer : f'.buffer = pre ++ rest.map ended ++ tail
  number : f'.numLineFields = f.numLineFields + rest.count comma
  before : ∀ i, i ≤ f.numLineFields → f'.lineFields i = f.lineFields i
  beyond : ∀ i, f'.numLineFields < i → f'.lineFields i = f.lineFields i
  behind : ∀ k, k < rest.count comma → ∃ cp, f'.lineFields (f.numLineFields + (k + 1)) = some cp ∧
    ∀ after, cString ((pre ++ rest.map ended ++ 0 :: after).drop cp) =
      cut ((rest.splitOn comma).getD (k + 1) [])

theorem set_at (pre tail : List UInt8) (c x : UInt8) :
    (pre ++ c :: tail).set pre.length x = pre ++ x :: tail := by
  rw [List.set_append_right _ _ (Nat.le_refl _), Nat.sub_self, List.set_cons_zero]

theorem getD_at (pre tail : List UInt8) (c : UInt8) :
    (pre ++ c :: tail).getD pre.length 0 = c := by
  rw [List.getD_eq_getElem?_getD, List.getElem?_append_right (Nat.le_refl _), Nat.sub_self]
  rfl

/-- A character that ends no field. -/
theorem split_other (pre rest tail : List UInt8) (c : UInt8) (f f' : LineFields)
    (hc : c ≠ comma) (h : Split (pre ++ [ended c]) rest tail f f') :
    Split pre (c :: rest) tail f f' := by
  have hcount : (c :: rest).count comma = rest.count comma := List.count_cons_of_ne hc
  have happend : ∀ t : List UInt8, pre ++ (c :: rest).map ended ++ t =
      pre ++ [ended c] ++ rest.map ended ++ t := by
    intro t
    simp
  refine ⟨?_, ?_, h.before, h.beyond, ?_⟩
  · rw [h.buffer, happend]
  · rw [h.number, hcount]
  · intro k hk
    rw [hcount] at hk
    obtain ⟨cp, hcp, htext⟩ := h.behind k hk
    refine ⟨cp, hcp, ?_⟩
    intro after
    obtain ⟨first, others, hsplit⟩ := List.exists_cons_of_ne_nil (List.splitOn_ne_nil comma rest)
    rw [happend, htext, List.splitOn_cons_eq_if_modifyHead, if_neg (by simpa using hc), hsplit,
      List.modifyHead_cons, List.getD_cons_succ, List.getD_cons_succ]

/-- A comma ends a field, and a new one begins behind it. -/
theorem split_comma (pre rest tail buffer : List UInt8) (f f' : LineFields)
    (h : Split (pre ++ [0]) rest tail
      { f with
        buffer := buffer
        numLineFields := f.numLineFields + 1
        lineFields := Function.update f.lineFields (f.numLineFields + 1) (some (pre.length + 1)) }
      f') :
    Split pre (comma :: rest) tail f f' := by
  have hended : ended comma = 0 := rfl
  have happend : ∀ after, pre ++ (comma :: rest).map ended ++ 0 :: after =
      pre ++ [0] ++ rest.map ended ++ 0 :: after := by
    intro after
    rw [List.map_cons, hended]
    simp
  have hnumber := h.number
  dsimp only at hnumber
  refine ⟨?_, ?_, ?_, ?_, ?_⟩
  · rw [h.buffer, List.map_cons, hended]
    simp
  · rw [hnumber, List.count_cons_self]
    omega
  · intro i hi
    rw [h.before i (Nat.le_succ_of_le hi)]
    exact Function.update_of_ne (by omega) _ _
  · intro i hi
    rw [h.beyond i hi]
    exact Function.update_of_ne (by omega) _ _
  · intro k hk
    rw [List.count_cons_self] at hk
    rw [List.splitOn_cons_eq_if_modifyHead, if_pos (beq_self_eq_true comma), List.getD_cons_succ]
    cases k with
    | zero =>
      refine ⟨pre.length + 1, ?_, ?_⟩
      · rw [Nat.zero_add, h.before _ (Nat.le_refl _)]
        exact Function.update_self _ _ _
      · intro after
        have hlen : pre.length + 1 = (pre ++ [(0 : UInt8)]).length := by simp
        rw [happend, List.append_assoc, hlen, List.drop_left, cString_ended]
        cases rest.splitOn comma <;> rfl
    | succ k =>
      obtain ⟨cp, hcp, htext⟩ := h.behind k (by omega)
      refine ⟨cp, ?_, ?_⟩
      · rw [← hcp]
        dsimp only
        congr 1
        omega
      · intro after
        rw [happend, htext]

theorem fieldLoop_split (rest pre tail : List UInt8) (f : LineFields)
    (hbuffer : f.buffer = pre ++ rest ++ tail)
    (hnum : f.numLineFields + rest.count comma < msgMaxLineFields) :
    ∃ f', fieldLoop rest.length pre.length f = (true, f') ∧ Split pre rest tail f f' := by
  induction rest generalizing pre f with
  | nil =>
    exact ⟨f, rfl, by simpa using hbuffer, rfl, fun _ _ => rfl, fun _ _ => rfl,
      fun k hk => nomatch hk⟩
  | cons c rest ih =>
    have hpre : (pre ++ [ended c]).length = pre.length + 1 := by simp
    have hget : f.buffer.getD pre.length 0 = c := by
      rw [hbuffer, List.append_assoc, List.cons_append]
      exact getD_at pre (rest ++ tail) c
    have hset : f.buffer.set pre.length 0 = pre ++ [0] ++ rest ++ tail := by
      rw [hbuffer, List.append_assoc, List.cons_append, set_at]
      simp
    rw [List.length_cons, fieldLoop]
    dsimp only
    rw [hget]
    by_cases hc : c = comma
    · subst hc
      rw [List.count_cons_self] at hnum
      rw [if_pos rfl, if_neg (by omega)]
      obtain ⟨f', hloop, hsplit⟩ := ih (pre ++ [0])
        { f with
          buffer := f.buffer.set pre.length 0
          numLineFields := f.numLineFields + 1
          lineFields := Function.update f.lineFields (f.numLineFields + 1) (some (pre.length + 1)) }
        hset (by dsimp only; omega)
      rw [List.length_append, List.length_singleton] at hloop
      exact ⟨f', hloop, split_comma pre rest tail _ f f' hsplit⟩
    · rw [List.count_cons_of_ne hc] at hnum
      rw [if_neg hc]
      by_cases hend : c = carriageReturn ∨ c = newLine
      · have hended : ended c = 0 := if_pos (.inr hend)
        rw [if_pos hend]
        obtain ⟨f', hloop, hsplit⟩ := ih (pre ++ [ended c])
          { f with buffer := f.buffer.set pre.length 0 } (by rw [hended]; exact hset) hnum
        rw [hpre] at hloop
        exact ⟨f', hloop, split_other pre rest tail c f f' hc
          ⟨hsplit.buffer, hsplit.number, hsplit.before, hsplit.beyond, hsplit.behind⟩⟩
      · have hended : ended c = c := if_neg (by tauto)
        rw [if_neg hend]
        obtain ⟨f', hloop, hsplit⟩ := ih (pre ++ [ended c]) f (by rw [hended, hbuffer]; simp) hnum
        rw [hpre] at hloop
        exact ⟨f', hloop, split_other pre rest tail c f f' hc hsplit⟩

/-- A line with too many commas is refused. -/
theorem fieldLoop_refused (rest pre tail : List UInt8) (f : LineFields)
    (hbuffer : f.buffer = pre ++ rest ++ tail) (hlt : f.numLineFields < msgMaxLineFields)
    (hnum : msgMaxLineFields ≤ f.numLineFields + rest.count comma) :
    (fieldLoop rest.length pre.length f).1 = false := by
  induction rest generalizing pre f with
  | nil =>
    rw [List.count_nil] at hnum
    omega
  | cons c rest ih =>
    have hpre : ∀ x : UInt8, (pre ++ [x]).length = pre.length + 1 := by simp
    have hget : f.buffer.getD pre.length 0 = c := by
      rw [hbuffer, List.append_assoc, List.cons_append]
      exact getD_at pre (rest ++ tail) c
    have hset : f.buffer.set pre.length 0 = pre ++ [0] ++ rest ++ tail := by
      rw [hbuffer, List.append_assoc, List.cons_append, set_at]
      simp
    rw [List.length_cons, fieldLoop]
    dsimp only
    rw [hget]
    by_cases hc : c = comma
    · subst hc
      rw [List.count_cons_self] at hnum
      rw [if_pos rfl]
      split
      · rfl
      · next hfits =>
        rw [← hpre 0]
        apply ih (pre ++ [0])
        · exact hset
        · exact Nat.lt_of_not_le hfits
        · dsimp only
          omega
    · rw [List.count_cons_of_ne hc] at hnum
      rw [if_neg hc]
      split
      · rw [← hpre 0]
        exact ih (pre ++ [0]) _ hset hlt hnum
      · rw [← hpre c]
        apply ih (pre ++ [c]) f _ hlt hnum
        rw [hbuffer]
        simp

theorem splitOn_length (line : List UInt8) :
    (line.splitOn comma).length = line.count comma + 1 := by
  induction line with
  | nil => rfl
  | cons c line ih =>
    rw [List.splitOn_cons_eq_if_modifyHead, List.count_cons]
    by_cases hc : c = comma
    · simp [hc, ih]
    · simp [hc, ih]

theorem fieldsOf_length (line : List UInt8) : (fieldsOf line).length = line.count comma + 1 := by
  rw [fieldsOf, List.length_map, splitOn_length]

/-- What is known of the fields when a line was split. -/
structure IsSplit (line tail : List UInt8) (f f' : LineFields) : Prop where
  buffer : f'.buffer = line.map ended ++ 0 :: tail
  number : f'.numLineFields = line.count comma + 1
  text : ∀ old i, i < f'.numLineFields → fieldText old f' i = some ((fieldsOf line).getD i [])
  beyond : ∀ i, f'.numLineFields ≤ i → f'.lineFields i = f.lineFields i

theorem getD_fieldsOf (line : List UInt8) (i : Nat) :
    (fieldsOf line).getD i [] = cut ((line.splitOn comma).getD i []) := by
  rw [fieldsOf, List.getD_eq_getElem?_getD, List.getD_eq_getElem?_getD, List.getElem?_map]
  cases (line.splitOn comma)[i]? <;> rfl

theorem getLineFields_split (line tail : List UInt8) (f : LineFields)
    (hbuffer : f.buffer = line ++ 0 :: tail) (hcount : line.count comma < msgMaxLineFields) :
    ∃ f', getLineFields line.length f = (true, f') ∧ IsSplit line tail f f' := by
  obtain ⟨f', hloop, hsplit⟩ := fieldLoop_split line [] (0 :: tail)
    { f with numLineFields := 0, lineFields := Function.update f.lineFields 0 (some 0) }
    hbuffer (by simpa using hcount)
  have hnumber : f'.numLineFields = line.count comma := by
    rw [hsplit.number]
    exact Nat.zero_add _
  have hbuf : f'.buffer = line.map ended ++ 0 :: tail := hsplit.buffer
  rw [List.length_nil] at hloop
  refine ⟨{ f' with numLineFields := f'.numLineFields + 1 }, ?_, hbuf, ?_, ?_, ?_⟩
  · rw [getLineFields, hloop]
    rfl
  · dsimp only
    rw [hnumber]
  · intro old i hi
    dsimp only at hi
    rw [fieldText, getD_fieldsOf]
    dsimp only
    rw [hbuf]
    cases i with
    | zero =>
      rw [hsplit.before 0 (Nat.le_refl _)]
      dsimp only
      rw [Function.update_self]
      dsimp only
      rw [List.drop_zero, cString_ended]
      cases line.splitOn comma <;> rfl
    | succ k =>
      obtain ⟨cp, hcp, htext⟩ := hsplit.behind k (by omega)
      rw [Nat.zero_add] at hcp
      rw [hcp]
      dsimp only
      rw [← htext tail]
      rfl
  · intro i hi
    dsimp only at hi ⊢
    rw [hsplit.beyond i hi]
    exact Function.update_of_ne (by omega) _ _

theorem getLineFields_refused (line tail : List UInt8) (f : LineFields)
    (hbuffer : f.buffer = line ++ 0 :: tail) (hcount : msgMaxLineFields ≤ line.count comma) :
    (getLineFields line.length f).1 = false := by
  have hloop := fieldLoop_refused line [] (0 :: tail)
    { f with numLineFields := 0, lineFields := Function.update f.lineFields 0 (some 0) }
    hbuffer (show 0 < msgMaxLineFields by decide) (by simpa using hcount)
  rw [List.length_nil] at hloop
  rw [getLineFields, hloop]
  exact hloop

theorem fieldTexts_split (old : Nat → Option (List UInt8)) (line tail : List UInt8)
    (f f' : LineFields) (h : IsSplit line tail f f') : fieldTexts old f' = fieldsOf line := by
  apply List.ext_getElem
  · rw [fieldTexts, List.length_map, List.length_range, h.number, fieldsOf_length]
  · intro i hi hi'
    rw [fieldTexts, List.length_map, List.length_range] at hi
    simp only [fieldTexts, List.getElem_map, List.getElem_range]
    rw [h.text old i hi, Option.getD_some, List.getD_eq_getElem?_getD, List.getElem?_eq_getElem hi',
      Option.getD_some]

end fields

section lines

/-- Spaces and ends of line only, or one field without text. -/
def isEmptyLine (line : List UInt8) : Bool := line.all isBlank || fieldsOf line == [[]]

def isComment (line : List UInt8) : Bool := line.take 2 == [hash, space]

def tooMany (line : List UInt8) : Bool := decide (msgMaxLineFields ≤ line.count comma)

def significant (line : List UInt8) : Bool := !isEmptyLine line && !isComment line

/-- What matters of the loop's state: the number of lines that were handled once the line with
their number has been read. -/
structure Reading (σ : Type) where
  expectedLines : Int
  count : Option Nat
  state : σ
  calls : List (List (List UInt8))

/-- What matters of the end of the function. -/
structure Outcome (ε : Type) where
  code : Code ε
  closed : Bool
  calls : List (List (List UInt8))
  deriving DecidableEq

/-- The text of the number. A line with one field leaves it to an earlier line or file. -/
def numberText (unset : Option (List UInt8)) (line : List UInt8) : Option (List UInt8) :=
  match (fieldsOf line)[1]? with
  | some text => some text
  | none => unset

/-- A line that is neither empty nor a comment, without the reader and the buffer. -/
def readingLine (unset : Option (List UInt8)) (handleMsgLine : HandleMsgLine σ ε)
    (line : List UInt8) (s : Reading σ) : Except (Outcome ε) (Reading σ) :=
  match s.count with
  | none =>
    if (fieldsOf line).headD [] = [hash] then
      match numberText unset line with
      | none => .error ⟨.crash, false, s.calls⟩
      | some text => .ok { s with expectedLines := getIntFieldValue text, count := some 0 }
    else .error ⟨.wrongDescFileLine, false, s.calls⟩
  | some k =>
    if s.expectedLines < k + 1 then .error ⟨.badNumDescFileLines, true, s.calls⟩
    else
      let h := handleMsgLine (fieldsOf line) s.expectedLines (k + 1) s.state
      let calls := s.calls ++ [fieldsOf line]
      match h.1 with
      | .error e => .error ⟨.handler e, true, calls⟩
      | .ok _ => .ok { s with count := some (k + 1), state := h.2, calls := calls }

def readingStep (unset : Option (List UInt8)) (handleMsgLine : HandleMsgLine σ ε)
    (line : List UInt8) (s : Reading σ) : Except (Outcome ε) (Reading σ) :=
  if tooMany line then .error ⟨.tooManyLineFields, true, s.calls⟩
  else if significant line = false then .ok s
  else readingLine unset handleMsgLine line s

/-- The end of the file. -/
def endOutcome (s : Reading σ) : Outcome ε :=
  if s.expectedLines < s.count.getD 0 then ⟨.badNumDescFileLines, true, s.calls⟩
  else ⟨.ok, true, s.calls⟩

/-- The function on the lines of its file. -/
def readLines (unset : Option (List UInt8)) (handleMsgLine : HandleMsgLine σ ε) :
    List (List UInt8) → Reading σ → Outcome ε
  | [], s => endOutcome s
  | line :: rest, s =>
    match readingStep unset handleMsgLine line s with
    | .error out => out
    | .ok s => readLines unset handleMsgLine rest s

/-- The states of the loop that a reading stands for. -/
structure Agrees (p : Progress σ) (s : Reading σ) : Prop where
  expectedLines : p.expectedLines = s.expectedLines
  state : p.state = s.state
  calls : p.calls = s.calls
  numLines : p.numLines = s.count.getD 0
  hadNumLines : p.hadNumLines = s.count.isSome
  currLineNo : p.currLineNo = s.count.getD 0

def Exit.outcome (e : Exit σ ε) : Outcome ε := ⟨e.code, e.closed, e.final.calls⟩

theorem takeWhile_blank (line tail : List UInt8) :
    ((line ++ 0 :: tail).takeWhile isBlank).length = line.length ↔ line.all isBlank = true := by
  induction line with
  | nil => simp [List.takeWhile_cons_of_neg, isBlank, space, carriageReturn, newLine]
  | cons c line ih =>
    rw [List.cons_append, List.takeWhile_cons, List.all_cons]
    cases hc : isBlank c with
    | true => simpa using ih
    | false => simp

theorem isSplit_empty (old : Nat → Option (List UInt8)) (line tail : List UInt8)
    (f f' : LineFields) (h : IsSplit line tail f f') :
    f'.numLineFields < 2 ∧ fieldText old f' 0 = some [] ↔ fieldsOf line = [[]] := by
  have hlen := fieldsOf_length line
  rw [h.text old 0 (by rw [h.number]; omega), h.number]
  constructor
  · rintro ⟨hnum, htext⟩
    obtain ⟨first, hfirst⟩ := List.length_eq_one_iff.mp (show (fieldsOf line).length = 1 by omega)
    rw [hfirst] at htext ⊢
    have hnil : first = [] := Option.some.inj htext
    rw [hnil]
  · intro hfields
    rw [hfields, List.length_singleton] at hlen
    rw [hfields]
    exact ⟨by omega, rfl⟩

/-- Only what ends a field is replaced. -/
theorem ended_iff {k : UInt8} (hk : k ≠ 0)
    (hplain : ¬ (k = comma ∨ k = carriageReturn ∨ k = newLine)) (c : UInt8) :
    ended c = k ↔ c = k := by
  unfold ended
  split
  · next h =>
    constructor
    · intro h0
      exact absurd h0.symm hk
    · rintro rfl
      exact absurd h hplain
  · rfl

theorem isSplit_comment (line tail : List UInt8) (f f' : LineFields) (hne : line ≠ [])
    (h : IsSplit line tail f f') :
    f'.buffer.getD 0 0 = hash ∧ f'.buffer.getD 1 0 = space ↔ isComment line = true := by
  rw [h.buffer, isComment, beq_iff_eq]
  match line, hne with
  | [c], _ =>
    have hzero : (0 : UInt8) ≠ space := by decide
    simp [hzero]
  | c :: d :: line, _ =>
    have hc : ended c = hash ↔ c = hash := ended_iff (by decide) (by decide) c
    have hd : ended d = space ↔ d = space := ended_iff (by decide) (by decide) d
    simp [hc, hd]

/-- What is done with a line ends as the reading does, or both go on, with the file read up to
`pos`. -/
inductive Mirrors (pos : Nat) :
    Except (Exit σ ε) (Progress σ) → Except (Outcome ε) (Reading σ) → Prop
  | ends (e : Exit σ ε) (o : Outcome ε) (ho : e.outcome = o) : Mirrors pos (.error e) (.error o)
  | goesOn (p : Progress σ) (s : Reading σ) (hpos : p.pos = pos) (h : Agrees p s) :
      Mirrors pos (.ok p) (.ok s)

/-- The second field is read as a number, where there is one. -/
theorem numberText_split (old : Nat → Option (List UInt8)) (line tail : List UInt8)
    (f f' : LineFields) (hsplit : IsSplit line tail f f') :
    numberText (fieldText old f' 1) line = fieldText old f' 1 := by
  have hnumber := hsplit.number
  have hlen := fieldsOf_length line
  rw [numberText]
  cases h1 : (fieldsOf line)[1]? with
  | none => rfl
  | some text =>
    have hlt := (List.getElem?_eq_some_iff.mp h1).1
    dsimp only
    rw [hsplit.text old 1 (by omega), List.getD_eq_getElem?_getD, h1]
    rfl

theorem handleLine_mirrors (old : Nat → Option (List UInt8)) (handleMsgLine : HandleMsgLine σ ε)
    (line tail : List UInt8) (f : LineFields) (p : Progress σ) (s : Reading σ)
    (hsplit : IsSplit line tail f p.fields) (h : Agrees p s) :
    Mirrors p.pos (handleLine old handleMsgLine p)
      (readingLine (fieldText old p.fields 1) handleMsgLine line s) := by
  have hfirst : fieldText old p.fields 0 = some ((fieldsOf line).headD []) := by
    rw [hsplit.text old 0 (by rw [hsplit.number]; omega)]
    cases fieldsOf line <;> rfl
  have hnumLines := h.numLines
  have hhad := h.hadNumLines
  have hcurr := h.currLineNo
  unfold handleLine readingLine
  dsimp only
  rw [hfirst, numberText_split old line tail f _ hsplit]
  cases hcount : s.count with
  | none =>
    rw [hcount] at hnumLines hhad
    rw [if_pos ⟨hnumLines, hhad⟩]
    dsimp only
    by_cases hhash : (fieldsOf line).headD [] = [hash]
    · rw [if_pos (congrArg some hhash), if_pos hhash]
      cases fieldText old p.fields 1 with
      | none => exact .ends _ _ (by rw [Exit.outcome, ← h.calls])
      | some text => exact .goesOn _ _ rfl ⟨rfl, h.state, h.calls, hnumLines, rfl, rfl⟩
    · have hne : ¬ some ((fieldsOf line).headD []) = some [hash] :=
        fun heq => hhash (Option.some.inj heq)
      rw [if_neg hne, if_neg hhash]
      exact .ends _ _ (by rw [Exit.outcome, ← h.calls])
  | some k =>
    rw [hcount] at hnumLines hhad hcurr
    have hphase : ¬ (p.numLines = 0 ∧ p.hadNumLines = false) := by
      rw [hhad]
      simp
    have hfields : fieldTexts old p.fields = fieldsOf line :=
      fieldTexts_split old line tail f _ hsplit
    rw [if_neg hphase]
    dsimp only
    rw [hfields, hnumLines, h.expectedLines, hcurr, h.state, h.calls]
    simp only [Option.getD_some]
    split
    · exact .ends _ _ rfl
    · cases (handleMsgLine (fieldsOf line) s.expectedLines (k + 1) s.state).1 with
      | error e => exact .ends _ _ rfl
      | ok u => exact .goesOn _ _ rfl ⟨rfl, rfl, rfl, rfl, hhad, rfl⟩

theorem significant_iff (line : List UInt8) :
    significant line = true ↔
      (¬ line.all isBlank = true ∧ ¬ fieldsOf line = [[]]) ∧ ¬ isComment line = true := by
  simp [significant, isEmptyLine]

theorem readingStep_blank (unset : Option (List UInt8)) (handleMsgLine : HandleMsgLine σ ε)
    (line : List UInt8) (s : Reading σ) (h : line.all isBlank = true) :
    readingStep unset handleMsgLine line s = .ok s := by
  have hcount : line.count comma = 0 := by
    rw [List.count_eq_zero]
    intro hmem
    exact absurd (List.all_eq_true.mp h comma hmem) (by decide)
  have hsig : significant line = false := by simp [significant, isEmptyLine, h]
  rw [readingStep, if_neg (by rw [tooMany, hcount]; decide), if_pos hsig]

theorem pass_end (file : List UInt8) (old : Nat → Option (List UInt8))
    (handleMsgLine : HandleMsgLine σ ε) (p : Progress σ) (s : Reading σ) (h : Agrees p s)
    (hend : file.drop p.pos = []) :
    ∃ e, pass file old handleMsgLine p = .error e ∧ e.outcome = endOutcome s := by
  have hline : firstLine newLine (file.drop p.pos) = [] := by rw [hend]; rfl
  have hread := readLine_fits file p.pos (by rw [hline]; decide)
  rw [hline] at hread
  rw [pass, hread]
  dsimp only
  rw [if_neg (by decide), if_pos List.length_nil, h.expectedLines, h.numLines, endOutcome]
  split
  · exact ⟨_, rfl, by rw [Exit.outcome, h.calls]⟩
  · exact ⟨_, rfl, by rw [Exit.outcome, h.calls]⟩

theorem Agrees.moved {p : Progress σ} {s : Reading σ} (h : Agrees p s) (pos : Nat)
    (fields : LineFields) : Agrees { p with pos := pos, fields := fields } s :=
  ⟨h.expectedLines, h.state, h.calls, h.numLines, h.hadNumLines, h.currLineNo⟩

/-- The pointer to the second field of a line with one is left as it was. -/
theorem fieldText_few (old : Nat → Option (List UInt8)) (line tail : List UInt8)
    (f f' : LineFields) (hsplit : IsSplit line tail f f') (hnone : f.lineFields 1 = none)
    (hfew : (fieldsOf line).length < 2) : fieldText old f' 1 = old 1 := by
  rw [fieldsOf_length] at hfew
  have hbeyond := hsplit.beyond 1 (by rw [hsplit.number]; omega)
  rw [fieldText, hbeyond, hnone]

/-- What a pass over a line does to the reading, where `unset` is what the second field's pointer
is left with. -/
theorem pass_line (file : List UInt8) (old : Nat → Option (List UInt8))
    (handleMsgLine : HandleMsgLine σ ε) (line : List UInt8) (p : Progress σ) (s : Reading σ)
    (h : Agrees p s) (hfirst : firstLine newLine (file.drop p.pos) = line) (hne : line ≠ [])
    (hfits : line.length < lineBufLgth) :
    ∃ unset, (p.fields.lineFields 1 = none → (fieldsOf line).length < 2 → unset = old 1) ∧
      Mirrors (p.pos + line.length) (pass file old handleMsgLine p)
        (readingStep unset handleMsgLine line s) := by
  have hread := readLine_fits file p.pos (by rw [hfirst]; exact hfits)
  rw [hfirst] at hread
  have hpos : line.length ≠ 0 := fun h0 => hne (List.length_eq_zero_iff.mp h0)
  have hstored : ¬ lineBufLgth < (line ++ [(0 : UInt8)]).length := by
    rw [List.length_append, List.length_singleton]
    omega
  let tail := p.fields.buffer.drop (line ++ [(0 : UInt8)]).length
  have hbuffer : line ++ [0] ++ tail = line ++ 0 :: tail := by simp
  rw [pass, hread]
  dsimp only
  rw [if_neg hstored, if_neg hpos, hbuffer, set_at]
  by_cases hblank : line.all isBlank = true
  · rw [if_pos ((takeWhile_blank line tail).mpr hblank)]
    refine ⟨old 1, fun _ _ => rfl, ?_⟩
    rw [readingStep_blank (old 1) handleMsgLine line s hblank]
    exact .goesOn _ _ rfl (h.moved _ _)
  · rw [if_neg (mt (takeWhile_blank line tail).mp hblank)]
    cases htoo : tooMany line with
    | true =>
      have hg := getLineFields_refused line tail
        { p.fields with buffer := line ++ 0 :: tail } rfl (of_decide_eq_true htoo)
      rw [if_pos hg]
      refine ⟨old 1, fun _ _ => rfl, ?_⟩
      rw [readingStep, if_pos htoo]
      exact .ends _ _ (by rw [Exit.outcome, h.calls])
    | false =>
      obtain ⟨f', hg, hsplit⟩ := getLineFields_split line tail
        { p.fields with buffer := line ++ 0 :: tail } rfl
        (Nat.lt_of_not_le (of_decide_eq_false htoo))
      rw [hg]
      dsimp only
      rw [if_neg (by decide)]
      refine ⟨fieldText old f' 1, ?_, ?_⟩
      · exact fun hnone hfew => fieldText_few old line tail _ f' hsplit hnone hfew
      · by_cases hskip : significant line = true
        · obtain ⟨hempty, hcomment⟩ := significant_iff line |>.mp hskip
          rw [if_neg (mt (isSplit_empty old line tail _ f' hsplit).mp hempty.2),
            if_neg (mt (isSplit_comment line tail _ f' hne hsplit).mp hcomment),
            readingStep, if_neg (by rw [htoo]; decide), if_neg (by rw [hskip]; decide)]
          exact handleLine_mirrors old handleMsgLine line tail _
            { p with pos := p.pos + line.length, fields := f' } s hsplit (h.moved _ _)
        · have hstep : readingStep (fieldText old f' 1) handleMsgLine line s = .ok s := by
            rw [readingStep, if_neg (by rw [htoo]; decide), if_pos (by simpa using hskip)]
          rw [hstep]
          split
          · exact .goesOn _ _ rfl (h.moved _ _)
          · next hempty =>
            have hcomment : f'.buffer.getD 0 0 = hash ∧ f'.buffer.getD 1 0 = space := by
              rw [isSplit_comment line tail _ f' hne hsplit]
              rw [isSplit_empty old line tail _ f' hsplit] at hempty
              by_contra hcomment
              exact hskip (significant_iff line |>.mpr ⟨⟨hblank, hempty⟩, hcomment⟩)
            rw [if_pos hcomment]
            exact .goesOn _ _ rfl (h.moved _ _)

theorem readingLine_counted (unset unset' : Option (List UInt8))
    (handleMsgLine : HandleMsgLine σ ε) (line : List UInt8) (s : Reading σ)
    (h : s.count.isSome = true) :
    readingLine unset handleMsgLine line s = readingLine unset' handleMsgLine line s := by
  obtain ⟨k, hk⟩ := Option.isSome_iff_exists.mp h
  rw [readingLine, readingLine, hk]

theorem readingLine_counts (unset : Option (List UInt8)) (handleMsgLine : HandleMsgLine σ ε)
    (line : List UInt8) (s s' : Reading σ) (h : readingLine unset handleMsgLine line s = .ok s') :
    s'.count.isSome = true := by
  unfold readingLine at h
  split at h
  · split at h
    · split at h
      · cases h
      · obtain rfl := Except.ok.inj h
        rfl
    · cases h
  · split at h
    · cases h
    · dsimp only at h
      split at h
      · cases h
      · obtain rfl := Except.ok.inj h
        rfl

theorem readingStep_counted (unset unset' : Option (List UInt8))
    (handleMsgLine : HandleMsgLine σ ε) (line : List UInt8) (s : Reading σ)
    (h : s.count.isSome = true ∨ significant line = false) :
    readingStep unset handleMsgLine line s = readingStep unset' handleMsgLine line s := by
  rw [readingStep, readingStep]
  obtain hcount | hskip := h
  · rw [readingLine_counted unset unset' handleMsgLine line s hcount]
  · rw [if_pos hskip, if_pos hskip]

theorem readingStep_counts (unset : Option (List UInt8)) (handleMsgLine : HandleMsgLine σ ε)
    (line : List UInt8) (s s' : Reading σ) (h : readingStep unset handleMsgLine line s = .ok s')
    (hcount : s.count.isSome = true ∨ significant line = true) : s'.count.isSome = true := by
  unfold readingStep at h
  split at h
  · cases h
  · split at h
    · next hskip =>
      obtain rfl := Except.ok.inj h
      exact hcount.resolve_right (by rw [hskip]; decide)
    · exact readingLine_counts unset handleMsgLine line s s' h

/-- The pointer that was left matters for the first line only. -/
theorem readLines_counted (unset unset' : Option (List UInt8))
    (handleMsgLine : HandleMsgLine σ ε) (lines : List (List UInt8)) (s : Reading σ)
    (h : s.count.isSome = true) :
    readLines unset handleMsgLine lines s = readLines unset' handleMsgLine lines s := by
  induction lines generalizing s with
  | nil => rfl
  | cons line rest ih =>
    rw [readLines, readLines, readingStep_counted unset unset' handleMsgLine line s (.inl h)]
    cases hstep : readingStep unset' handleMsgLine line s with
    | error out => rfl
    | ok s' => exact ih s' (readingStep_counts unset' handleMsgLine line s s' hstep (.inl h))

/-- The loop on the lines that are left. -/
theorem fileLoop_reads (file : List UInt8) (old : Nat → Option (List UInt8))
    (handleMsgLine : HandleMsgLine σ ε) (lines : List (List UInt8)) (n : Nat) (p : Progress σ)
    (s : Reading σ) (h : Agrees p s) (hlines : linesOf newLine (file.drop p.pos) = lines)
    (hn : lines.length < n) (hfits : ∀ line ∈ lines, line.length < lineBufLgth) :
    ∃ e unset, fileLoop file old handleMsgLine n p = some e ∧
      e.outcome = readLines unset handleMsgLine lines s ∧
      ∀ line ∈ lines.head?, significant line = true → p.fields.lineFields 1 = none →
        (fieldsOf line).length < 2 → unset = old 1 := by
  induction lines generalizing n p s with
  | nil =>
    obtain ⟨m, rfl⟩ := Nat.exists_eq_succ_of_ne_zero (Nat.ne_zero_of_lt hn)
    obtain ⟨e, hpass, hout⟩ := pass_end file old handleMsgLine p s h
      ((linesOf_eq_nil newLine _).mp hlines)
    refine ⟨e, old 1, ?_, hout, fun line hline => nomatch hline⟩
    rw [fileLoop, hpass]
  | cons line rest ih =>
    obtain ⟨m, rfl⟩ := Nat.exists_eq_succ_of_ne_zero (Nat.ne_zero_of_lt hn)
    obtain ⟨x, xs, hdrop⟩ := List.exists_cons_of_ne_nil
      (show file.drop p.pos ≠ [] by
        intro hnil
        rw [hnil] at hlines
        cases hlines)
    rw [hdrop, linesOf_cons, ← hdrop, List.drop_drop] at hlines
    obtain ⟨hfirst, hrest⟩ := List.cons.inj hlines
    have hne : line ≠ [] := by
      rw [← hfirst, hdrop]
      exact firstLine_ne_nil newLine x xs
    rw [hfirst] at hrest
    obtain ⟨unset, hunset, hpass⟩ := pass_line file old handleMsgLine line p s h hfirst hne
      (hfits line List.mem_cons_self)
    have hhead : ∀ l ∈ (line :: rest).head?, significant l = true →
        p.fields.lineFields 1 = none → (fieldsOf l).length < 2 → unset = old 1 := by
      rintro l hl - hnone hfew
      obtain rfl := Option.some.inj hl
      exact hunset hnone hfew
    rw [fileLoop]
    generalize hstep : readingStep unset handleMsgLine line s = reading at hpass
    generalize pass file old handleMsgLine p = passed at hpass ⊢
    cases hpass with
    | ends e o ho =>
      refine ⟨e, unset, rfl, ?_, hhead⟩
      rw [readLines, hstep, ho]
    | goesOn p' s' hpos hagrees =>
      obtain ⟨e, unset', hloop, hout, -⟩ := ih m p' s' hagrees (by rw [hpos]; exact hrest)
        (Nat.lt_of_succ_lt_succ hn) fun l hl => hfits l (List.mem_cons_of_mem _ hl)
      cases hsig : significant line with
      | true =>
        refine ⟨e, unset, hloop, ?_, hhead⟩
        rw [readLines, hstep, hout]
        exact readLines_counted unset' unset handleMsgLine rest s'
          (readingStep_counts unset handleMsgLine line s s' hstep (.inr hsig))
      | false =>
        refine ⟨e, unset', hloop, ?_, ?_⟩
        · rw [readLines, readingStep_counted unset' unset handleMsgLine line s (.inr hsig), hstep,
            hout]
        · rintro l hl hl'
          obtain rfl := Option.some.inj hl
          rw [hsig] at hl'
          cases hl'

def startReading (found : Found σ) : Reading σ := ⟨found.expectedLines, none, found.state, []⟩

/-- The function reads the lines of its file. -/
theorem handleMsgFileInternal_reads (handleMsgLine : HandleMsgLine σ ε) (found : Found σ)
    (file : List UInt8) (hfits : ∀ line ∈ linesOf newLine file, line.length < lineBufLgth) :
    ∃ e unset, handleMsgFileInternal handleMsgLine found file = some e ∧
      e.outcome = readLines unset handleMsgLine (linesOf newLine file) (startReading found) ∧
      ∀ line ∈ (linesOf newLine file).head?, significant line = true →
        (fieldsOf line).length < 2 → unset = found.old 1 := by
  obtain ⟨e, unset, hloop, hout, hunset⟩ := fileLoop_reads file found.old handleMsgLine
    (linesOf newLine file) (file.length + 1) (startProgress found) (startReading found)
    ⟨rfl, rfl, rfl, rfl, rfl, rfl⟩ rfl (Nat.lt_succ_of_le (linesOf_length newLine file)) hfits
  exact ⟨e, unset, hloop, hout, fun line hline hsig => hunset line hline hsig rfl⟩

end lines

end NodeMcu.CompMsg.DescFiles
