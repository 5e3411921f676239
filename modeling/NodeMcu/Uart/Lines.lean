import NodeMcu.Uart.Console

namespace NodeMcu.Uart.Lines

open NodeMcu.Lib.Run NodeMcu.Lib.Text NodeMcu.Uart.Console

/-! ## Lines -/

/-- A line while it is typed, and the line end that came last if nothing has come behind it. -/
structure Typed where
  text : List UInt8
  last : UInt8

/-- The second of two different line ends. -/
def Second (last ch : UInt8) : Prop :=
  (ch = carriageReturn ∧ last = newline) ∨ (ch = newline ∧ last = carriageReturn)

instance (last ch : UInt8) : Decidable (Second last ch) := inferInstanceAs (Decidable (_ ∨ _))

/-- What a byte does to the line, and the line that it ends. An empty line is none, and a line for
which there is no room is given up. -/
def Typed.key (t : Typed) (ch : UInt8) : Typed × Option (List UInt8) :=
  if Second t.last ch then ({ t with last := 0 }, none)
  else if ch = 0x7F ∨ ch = 0x08 then (⟨t.text.dropLast, 0⟩, none)
  else if ch = carriageReturn ∨ ch = newline then
    (⟨[], ch⟩, if t.text = [] then none else some t.text)
  else (⟨(if luaMaxinput ≤ t.text.length + 1 then [] else t.text) ++ [ch], 0⟩, none)

/-- The line at the end of the bytes of a task, and the line that they end. Nothing may follow it
but the second line end. -/
inductive Types : Typed → List UInt8 → Typed → Option (List UInt8) → Prop
  | nil {t : Typed} : Types t [] t none
  | key {t t' t'' : Typed} {ch : UInt8} {bytes : List UInt8} {line : Option (List UInt8)}
      (hkey : t.key ch = (t', none)) (hrest : Types t' bytes t'' line) :
      Types t (ch :: bytes) t'' line
  | enter {t t' : Typed} {ch : UInt8} {line : List UInt8} (hkey : t.key ch = (t', some line)) :
      Types t [ch] t' (some line)
  | enterSecond {t t' : Typed} {ch ch' : UInt8} {line : List UInt8}
      (hkey : t.key ch = (t', some line)) (hsecond : Second ch ch') :
      Types t [ch, ch'] { t' with last := 0 } (some line)

/-- The code that has been run, and what is kept of a statement that is not complete. -/
structure Session where
  previous : Option (List UInt8)
  codes : List (List UInt8)

def Session.enter (lua : Lua) (s : Session) (line : List UInt8) : Session :=
  let code := statement s.previous (cString line)
  if lua.incomplete code then { s with previous := some code }
  else ⟨none, s.codes ++ [code]⟩

/-- Tasks one after the other, each with the bytes of at most one line end. -/
inductive Dialog (lua : Lua) : Typed → Session → List (List UInt8) → Typed → Session → Prop
  | nil {t : Typed} {s : Session} : Dialog lua t s [] t s
  | task {t t' t'' : Typed} {s s'' : Session} {bytes : List UInt8} {ended : Option (List UInt8)}
      {calls : List (List UInt8)} (htypes : Types t bytes t' ended)
      (hrest : Dialog lua t' (ended.elim s (s.enter lua)) calls t'' s'') :
      Dialog lua t s (bytes :: calls) t'' s''

def codesOf (effects : List Effect) : List (List UInt8) :=
  effects.filterMap fun
    | .ran code => some code
    | _ => none

variable {lua : Lua} {c : State} {t t' : Typed} {s : Session} {ch : UInt8} {line : List UInt8}

/-- The console shows what has been typed. -/
structure Edits (c : State) (t : Typed) (s : Session) : Prop where
  valid : Valid c
  runs : c.mode.runInput = true
  pending : c.pending = t.text
  plain : newline ∉ t.text
  last : c.lastNlChar = t.last
  previous : c.load.previous = s.previous
  codes : codesOf c.effects = s.codes

/-- A line has been ended and is to be run. Until then its text stays. -/
structure Ends (c : State) (line : List UInt8) (last : UInt8) (s : Session) : Prop
    extends Edits c ⟨line, last⟩ s where
  done : c.load.done = true
  need : c.needDojob = true
  text : cString c.load.line = cString line

@[simp] theorem codesOf_append (es fs : List Effect) :
    codesOf (es ++ fs) = codesOf es ++ codesOf fs := List.filterMap_append

@[simp] theorem codesOf_echo (bytes : List UInt8) :
    codesOf (c.echo bytes).effects = codesOf c.effects := by
  rw [State.echo]
  split
  · simp [State.emit, codesOf]
  · rfl

theorem Edits.second (h : Edits c t s) (hsecond : Second t.last ch) :
    ∃ c', readChar lua c ch = some c' ∧ Edits c' { t with last := 0 } s := by
  rw [readChar, if_pos h.runs]
  refine ⟨{ c with lastNlChar := 0 }, if_pos (h.last ▸ hsecond), ?_⟩
  exact ⟨h.valid.of_load rfl, h.runs, h.pending, h.plain, rfl, h.previous, h.codes⟩

theorem Edits.erase (h : Edits c t s) :
    ∃ c', backspace { c with lastNlChar := 0 } = some c' ∧ Edits c' ⟨t.text.dropLast, 0⟩ s ∧
      c'.needDojob = c.needDojob := by
  have hinside : c.load.linePosition < c.load.line.length := h.valid.length ▸ h.valid.inside
  have htext : t.text.dropLast = c.load.line.take (c.load.linePosition - 1) := by
    rw [← h.pending, State.pending, List.dropLast_take hinside]
  have hplain : newline ∉ t.text.dropLast := fun hmem => h.plain (List.mem_of_mem_dropLast hmem)
  have hlast : Valid { c with lastNlChar := 0 } := h.valid.of_load rfl
  rw [backspace]
  dsimp only
  split_ifs with hpos
  · have hmoved : Valid ((State.echo [0x08, 0x20, 0x08] { c with lastNlChar := 0 }).moveTo
        (c.load.linePosition - 1)) :=
      (hlast.of_load (echo_load _)).moveTo (Nat.lt_of_le_of_lt (Nat.sub_le _ _) h.valid.inside)
    refine ⟨_, hmoved.put 0, ⟨hmoved.put_valid (hmoved.put 0), ?_, ?_, hplain, ?_, ?_, ?_⟩, ?_⟩
    · simpa [State.moveTo] using h.runs
    · simp [State.moveTo, State.pending, htext, List.take_set_of_le]
    · simp [State.moveTo]
    · simpa [State.moveTo] using h.previous
    · simpa [State.moveTo] using h.codes
    · simp [State.moveTo]
  · have hzero : c.load.linePosition = 0 := by omega
    refine ⟨_, hlast.put 0, ⟨hlast.put_valid (hlast.put 0), h.runs, ?_, hplain, rfl,
      h.previous, h.codes⟩, rfl⟩
    simp [State.pending, htext, hzero]

theorem Edits.char (h : Edits c t s) (hch : ch ≠ newline) :
    ∃ c', store ch (discard (State.echo [ch] { c with lastNlChar := 0 })) = some c' ∧
      Edits c' ⟨(if luaMaxinput ≤ t.text.length + 1 then [] else t.text) ++ [ch], 0⟩ s ∧
      c'.needDojob = c.needDojob := by
  have hlast : Valid { c with lastNlChar := 0 } := h.valid.of_load rfl
  have hecho : Valid (State.echo [ch] { c with lastNlChar := 0 }) := hlast.of_load (echo_load _)
  obtain ⟨hvalid, hroom⟩ := hecho.discard
  obtain ⟨c', hstore, hlength, hpos, hpending, hmode, hquiet, heffects, -, hprevious, hlastNl⟩ :=
    stored hvalid ch
  have hshown : (discard (State.echo [ch] { c with lastNlChar := 0 })).pending =
      if luaMaxinput ≤ t.text.length + 1 then [] else t.text := by
    have hposition := pending_length h.valid
    rw [h.pending] at hposition
    rw [Console.discard, echo_load, h.valid.length, hposition]
    split_ifs
    · rfl
    · rw [State.pending, echo_load]
      exact h.pending
  have hrest : (discard (State.echo [ch] { c with lastNlChar := 0 })).mode = c.mode ∧
      (discard (State.echo [ch] { c with lastNlChar := 0 })).load.previous = c.load.previous ∧
      (discard (State.echo [ch] { c with lastNlChar := 0 })).lastNlChar = 0 ∧
      (discard (State.echo [ch] { c with lastNlChar := 0 })).needDojob = c.needDojob ∧
      codesOf (discard (State.echo [ch] { c with lastNlChar := 0 })).effects =
        codesOf c.effects := by
    rw [Console.discard]
    split_ifs <;> simp [State.moveTo]
  obtain ⟨hmode', hprevious', hlast', hneed', hcodes'⟩ := hrest
  refine ⟨c', hstore, ⟨⟨hlength, ?_⟩, ?_, ?_, ?_, ?_, ?_, ?_⟩, hquiet.trans hneed'⟩
  · rw [hpos, pending_length hvalid]
    exact hroom
  · rw [hmode, hmode', h.runs]
  · rw [hpending, hshown]
  · rw [List.mem_append, List.mem_singleton]
    rintro (hmem | rfl)
    · split_ifs at hmem
      · cases hmem
      · exact h.plain hmem
    · exact hch rfl
  · rw [hlastNl, hlast']
  · rw [hprevious, hprevious', h.previous]
  · rw [heffects, hcodes', h.codes]

/-- What a zero ends. -/
theorem cString_set {bytes : List UInt8} {n : Nat} (h : n < bytes.length) :
    cString (bytes.set n 0) = cString (bytes.take n) := by
  rw [List.set_eq_take_append_cons_drop, if_pos h, cString_append_zero]

variable (hlua : ∀ effects, (lua.modeAfter effects).runInput = true)

theorem codesOf_uartOnDataCb (lua : Lua) (c : State) :
    codesOf (uartOnDataCb lua c).effects = codesOf c.effects := by
  rw [uartOnDataCb]
  split_ifs
  · rfl
  · simp [State.call, State.emit, codesOf]

include hlua in
theorem uartOnDataCb_runs (h : c.mode.runInput = true) :
    (uartOnDataCb lua c).mode.runInput = true ∧ (uartOnDataCb lua c).lastNlChar = c.lastNlChar ∧
      (uartOnDataCb lua c).needDojob = c.needDojob := by
  rw [uartOnDataCb]
  split_ifs
  · exact ⟨h, rfl, rfl⟩
  · exact ⟨hlua _, rfl, rfl⟩

include hlua in
theorem Edits.lineEnd (h : Edits c t s) (ch : UInt8) :
    ∃ c', lineEnd lua ch { c with lastNlChar := 0 } = some c' ∧
      if t.text = [] then Edits c' ⟨[], ch⟩ s ∧ c'.needDojob = c.needDojob
      else Ends c' t.text ch s := by
  have hlast : Valid { c with lastNlChar := ch } := h.valid.of_load rfl
  have hposition := pending_length h.valid
  rw [h.pending] at hposition
  have hinside : c.load.linePosition < c.load.line.length := h.valid.length ▸ h.valid.inside
  -- the state behind the zero and the echo
  generalize hended : State.echo [newline] { c with
    lastNlChar := ch
    load := { c.load with line := c.load.line.set c.load.linePosition 0 } } = ended
  have hload : ended.load = { c.load with line := c.load.line.set c.load.linePosition 0 } := by
    rw [← hended, echo_load]
  have hruns : ended.mode.runInput = true := by
    rw [← hended, echo_mode]
    exact h.runs
  have hnl : ended.lastNlChar = ch := by rw [← hended, echo_lastNlChar]
  have hneed : ended.needDojob = c.needDojob := by rw [← hended, echo_needDojob]
  have hcodes : codesOf ended.effects = s.codes := by
    rw [← hended, codesOf_echo]
    exact h.codes
  obtain ⟨hruns', hnl', hneed'⟩ := uartOnDataCb_runs hlua hruns
  have hcodes' := (codesOf_uartOnDataCb lua ended).trans hcodes
  have hload' := (@uartOnDataCb_load lua ended).trans hload
  have hline : Console.lineEnd lua ch { c with lastNlChar := 0 } =
      if t.text = [] then some ((uartOnDataCb lua ended).emit (.prompt c.load.previous.isNone))
      else some { uartOnDataCb lua ended with
        load := { (uartOnDataCb lua ended).load with done := true }, needDojob := true } := by
    rw [Console.lineEnd, hlast.put 0]
    simp only [Option.bind_eq_bind, Option.bind_some, hended, hload']
    exact if_congr (by rw [← hposition, List.length_eq_zero_iff]) rfl rfl
  have hedits : ∀ c', c'.load.line = c.load.line.set c.load.linePosition 0 →
      c'.load.linePosition = c.load.linePosition → c'.load.previous = c.load.previous →
      c'.mode.runInput = true → c'.lastNlChar = ch → codesOf c'.effects = s.codes →
      Edits c' ⟨t.text, ch⟩ s := by
    intro c' hline hpos hprevious hruns hnl hcodes
    refine ⟨⟨by rw [hline, List.length_set, h.valid.length], hpos ▸ h.valid.inside⟩, hruns, ?_,
      h.plain, hnl, hprevious.trans h.previous, hcodes⟩
    rw [State.pending, hline, hpos, List.take_set_of_le (Nat.le_refl _)]
    exact h.pending
  rw [hline]
  split_ifs with htext
  · refine ⟨_, rfl, htext ▸ hedits _ ?_ ?_ ?_ hruns' (hnl'.trans hnl) ?_, hneed'.trans hneed⟩
    · rw [emit_load, hload']
    · rw [emit_load, hload']
    · rw [emit_load, hload']
    · rw [State.emit, codesOf_append, hcodes']
      simp [codesOf]
  · refine ⟨_, rfl, ⟨hedits _ ?_ ?_ ?_ hruns' (hnl'.trans hnl) hcodes', rfl, rfl, ?_⟩⟩
    · rw [hload']
    · rw [hload']
    · rw [hload']
    · dsimp only
      rw [hload', cString_set hinside, ← h.pending]
      rfl

/-- What the console shows of a line that is typed, or that has been ended. -/
def Shown (c : State) (s : Session) : Typed × Option (List UInt8) → Prop
  | (t, none) => Edits c t s ∧ c.needDojob = false
  | (t, some line) => t.text = [] ∧ Ends c line t.last s

theorem readChar_of_not_second (h : Edits c t s) (hsecond : ¬Second t.last ch) :
    readChar lua c ch =
      if ch = 0x7F ∨ ch = 0x08 then backspace { c with lastNlChar := 0 }
      else if ch = carriageReturn ∨ ch = newline then lineEnd lua ch { c with lastNlChar := 0 }
      else store ch (discard (State.echo [ch] { c with lastNlChar := 0 })) := by
  rw [readChar, if_pos h.runs]
  exact if_neg (h.last ▸ hsecond)

include hlua in
/-- One byte, as the editor has it. -/
theorem Edits.key (h : Edits c t s) (hneed : c.needDojob = false) (ch : UInt8) :
    ∃ c', readChar lua c ch = some c' ∧ Shown c' s (t.key ch) := by
  by_cases hsecond : Second t.last ch
  · have hkey : t.key ch = ({ t with last := 0 }, none) := if_pos hsecond
    obtain ⟨c', hc', h'⟩ := @Edits.second lua _ _ _ _ h hsecond
    rw [hkey]
    refine ⟨c', hc', h', ?_⟩
    rw [readChar, if_pos h.runs] at hc'
    dsimp only at hc'
    rw [if_pos (h.last ▸ hsecond), Option.some.injEq] at hc'
    rw [← hc']
    exact hneed
  rw [readChar_of_not_second h hsecond, Typed.key, if_neg hsecond]
  by_cases herase : ch = 0x7F ∨ ch = 0x08
  · rw [if_pos herase, if_pos herase]
    obtain ⟨c', hc', h', hsame⟩ := h.erase
    exact ⟨c', hc', h', hsame.trans hneed⟩
  rw [if_neg herase, if_neg herase]
  by_cases hend : ch = carriageReturn ∨ ch = newline
  · rw [if_pos hend, if_pos hend]
    obtain ⟨c', hc', h'⟩ := h.lineEnd hlua ch
    refine ⟨c', hc', ?_⟩
    split_ifs at h' ⊢
    · exact ⟨h'.1, h'.2.trans hneed⟩
    · exact ⟨rfl, h'⟩
  · rw [if_neg hend, if_neg hend]
    obtain ⟨c', hc', h', hsame⟩ := h.char fun hnl => hend (.inr hnl)
    exact ⟨c', hc', h', hsame.trans hneed⟩

/-- The second line end changes nothing of a line that has been ended. -/
theorem Ends.second {last : UInt8} (h : Ends c line last s) (hsecond : Second last ch) :
    ∃ c', readChar lua c ch = some c' ∧ Ends c' line 0 s := by
  rw [readChar, if_pos h.runs]
  refine ⟨{ c with lastNlChar := 0 }, if_pos (h.last ▸ hsecond), ?_⟩
  exact ⟨⟨h.valid.of_load rfl, h.runs, h.pending, h.plain, rfl, h.previous, h.codes⟩, h.done,
    h.need, h.text⟩

theorem withoutNewline_plain {b : List UInt8} (h : newline ∉ b) : withoutNewline b = b :=
  if_neg fun hlast => h (List.mem_of_getLast? hlast)

include hlua in
theorem Ends.dojob {last : UInt8} (h : Ends c line last s) :
    Edits (dojob lua c) ⟨[], last⟩ (s.enter lua line) := by
  have hplain : newline ∉ cString line := fun hmem =>
    h.plain ((List.takeWhile_prefix _).sublist.mem hmem)
  have hline : doLine lua c =
      if lua.incomplete (statement s.previous (cString line)) then
        { c with load := { c.load with previous := some (statement s.previous (cString line)) } }
      else { c.call lua (.ran (statement s.previous (cString line))) with
        load := { c.load with previous := none } } := by
    rw [doLine]
    dsimp only
    rw [h.text, withoutNewline_plain hplain, h.previous]
    rfl
  have hdone : Console.dojob lua c = ({ doLine lua c with
      load := { (doLine lua c).load with
        line := List.replicate luaMaxinput 0, linePosition := 0, done := false } } : State).emit
          (.prompt (doLine lua c).load.previous.isNone) := by
    have hlength : (doLine lua c).load.line.length = luaMaxinput := by
      rw [hline]
      split_ifs <;> exact h.valid.length
    rw [Console.dojob, if_pos h.done]
    dsimp only
    rw [hlength]
  rw [hdone, Session.enter, hline]
  dsimp only
  split_ifs with hincomplete
  · refine ⟨⟨List.length_replicate, (by decide : 0 < luaMaxinput)⟩, h.runs, rfl, List.not_mem_nil,
      h.last, rfl, ?_⟩
    rw [State.emit, codesOf_append]
    simp [codesOf, ← h.codes]
  · refine ⟨⟨List.length_replicate, (by decide : 0 < luaMaxinput)⟩, hlua _, rfl, List.not_mem_nil,
      h.last, rfl, ?_⟩
    rw [State.emit, codesOf_append]
    simp [State.call, State.emit, codesOf, ← h.codes]

theorem key_enter (h : t.key ch = (t', some line)) : t' = ⟨[], ch⟩ := by
  rw [Typed.key] at h
  split_ifs at h <;> cases h
  rfl

include hlua in
/-- The bytes of a task. -/
theorem Types.reads {bytes : List UInt8} {ended : Option (List UInt8)}
    (h : Types t bytes t' ended) (hc : Edits c t s) (hneed : c.needDojob = false) :
    ∃ c', bytes.foldlM (readChar lua) c = some c' ∧ Shown c' s (t', ended) := by
  induction h generalizing c with
  | nil => exact ⟨c, rfl, hc, hneed⟩
  | @key _ _ _ ch _ _ hkey hrest ih =>
    obtain ⟨c', hc', h'⟩ := hc.key hlua hneed ch
    rw [hkey] at h'
    obtain ⟨c'', hc'', h''⟩ := ih h'.1 h'.2
    exact ⟨c'', by rw [List.foldlM_cons, hc']; exact hc'', h''⟩
  | @enter _ _ ch _ hkey =>
    obtain ⟨c', hc', h'⟩ := hc.key hlua hneed ch
    rw [hkey] at h'
    exact ⟨c', by rw [List.foldlM_cons, hc']; rfl, h'⟩
  | @enterSecond t t' ch ch' _ hkey hsecond =>
    obtain ⟨c', hc', h'⟩ := hc.key hlua hneed ch
    rw [hkey] at h'
    have hends := h'.2
    rw [key_enter hkey] at hends ⊢
    obtain ⟨c'', hc'', h''⟩ := @Ends.second lua _ _ _ _ _ hends hsecond
    refine ⟨c'', ?_, rfl, h''⟩
    rw [List.foldlM_cons, hc', Option.bind_eq_bind, Option.bind_some, List.foldlM_cons, hc'']
    rfl

/-- In a task that reads. -/
theorem flush_runs (h : c.mode.runInput = true) : flush lua c = c := by
  rw [flush, if_neg (by simp [h])]

theorem Edits.restart (h : Edits c t s) : Edits { c with needDojob := false } t s :=
  ⟨h.valid.of_load rfl, h.runs, h.pending, h.plain, h.last, h.previous, h.codes⟩

include hlua in
/-- The end of a task that has ended a line. -/
theorem Ends.step {bytes : List UInt8} {last : UInt8} {c' : State} (h : Ends c' line last s)
    (hread : bytes.foldlM (readChar lua) { c with needDojob := false } = some c') :
    ∃ c'', step lua (some c) (.task false bytes) = some c'' ∧
      Edits c'' ⟨[], last⟩ (s.enter lua line) := by
  refine ⟨Console.dojob lua c', ?_, h.dojob hlua⟩
  change luaHandleInput lua false bytes c = _
  rw [luaHandleInput, if_neg Bool.false_ne_true, readline, hread, Option.map_some, Option.map_some,
    flush_runs h.runs, if_pos h.need]

include hlua in
theorem Types.task {bytes : List UInt8} {ended : Option (List UInt8)}
    (h : Types t bytes t' ended) (hc : Edits c t s) :
    ∃ c', step lua (some c) (.task false bytes) = some c' ∧
      Edits c' t' (ended.elim s (s.enter lua)) := by
  obtain ⟨c', hc', h'⟩ := h.reads hlua hc.restart rfl
  cases ended with
  | none =>
    refine ⟨c', ?_, h'.1⟩
    change luaHandleInput lua false bytes c = _
    rw [luaHandleInput, if_neg Bool.false_ne_true, readline, hc', Option.map_some,
      Option.map_some, flush_runs h'.1.runs, if_neg (by rw [h'.2]; exact Bool.false_ne_true)]
  | some line =>
    obtain ⟨c'', hc'', h''⟩ := h'.2.step hlua hc'
    rw [← h'.1] at h''
    exact ⟨c'', hc'', h''⟩

include hlua in
theorem Dialog.runs {s' : Session} {calls : List (List UInt8)} (h : Dialog lua t s calls t' s')
    (hc : Edits c t s) :
    ∃ c', run (step lua) (some c) (calls.map (.task false)) = some c' ∧ Edits c' t' s' := by
  induction h generalizing c with
  | nil => exact ⟨c, rfl, hc⟩
  | task htypes _ ih =>
    obtain ⟨c', hc', h'⟩ := htypes.task hlua hc
    rw [List.map_cons, run_cons, hc']
    exact ih h'

theorem edits_start {mode : Mode} (hmode : mode.runInput = true) :
    Edits (start mode) ⟨[], 0⟩ ⟨none, []⟩ :=
  ⟨valid_start mode, hmode, rfl, List.not_mem_nil, rfl, rfl, rfl⟩

include hlua in
/-- Where no task brings bytes behind the end of a line, what has been typed is run line by line. -/
theorem console_dialog {mode : Mode} {calls : List (List UInt8)}
    (hmode : mode.runInput = true) (h : Dialog lua ⟨[], 0⟩ ⟨none, []⟩ calls t s) :
    ∃ c, run (step lua) (some (start mode)) (calls.map (.task false)) = some c ∧
      codesOf c.effects = s.codes := by
  obtain ⟨c, hc, h'⟩ := h.runs hlua (edits_start hmode)
  exact ⟨c, hc, h'.codes⟩

/-- `ab`, of which the second byte is erased, and a line end in two tasks. -/
def typed : List (List UInt8) := [[0x61, 0x62, 0x08, 0x0D, 0x0A], [0x63], [0x0A]]

theorem dialog_typed :
    Dialog (plainLua promptMode) ⟨[], 0⟩ ⟨none, []⟩ typed ⟨[], 0x0A⟩ ⟨none, [[0x61], [0x63]]⟩ :=
  .task (.key rfl (.key rfl (.key rfl (.enterSecond rfl (by decide)))))
    (.task (.key rfl .nil) (.task (.enter rfl) .nil))

theorem console_dialog_typed :
    ∃ c, run (step (plainLua promptMode)) (some (start promptMode)) (typed.map (.task false)) =
      some c ∧ codesOf c.effects = [[0x61], [0x63]] :=
  console_dialog (fun _ => rfl) rfl dialog_typed

/-- A byte that is neither a line end nor erases one. -/
def Ordinary (ch : UInt8) : Prop :=
  ch ≠ carriageReturn ∧ ch ≠ newline ∧ ch ≠ 0x7F ∧ ch ≠ 0x08

instance (ch : UInt8) : Decidable (Ordinary ch) := inferInstanceAs (Decidable (_ ∧ _))

theorem Edits.ordinary {text : List UInt8} {last : UInt8} (h : Edits c ⟨text, last⟩ s)
    (hch : Ordinary ch) (hroom : text.length + 1 < luaMaxinput) :
    ∃ c', readChar lua c ch = some c' ∧ Edits c' ⟨text ++ [ch], 0⟩ s := by
  obtain ⟨hcr, hnl, hdel, hbs⟩ := hch
  obtain ⟨c', hc', h', -⟩ := h.char hnl
  rw [if_neg (Nat.not_le.mpr hroom)] at h'
  refine ⟨c', ?_, h'⟩
  rw [readChar_of_not_second h (by simp [Second, hcr, hnl]), if_neg (by simp [hdel, hbs]),
    if_neg (by simp [hcr, hnl]), hc']

theorem Edits.ordinaries {text xs : List UInt8} {last : UInt8} (h : Edits c ⟨text, last⟩ s)
    (hne : xs ≠ []) (hxs : ∀ ch ∈ xs, Ordinary ch) (hroom : (text ++ xs).length < luaMaxinput) :
    ∃ c', xs.foldlM (readChar lua) c = some c' ∧ Edits c' ⟨text ++ xs, 0⟩ s := by
  induction xs generalizing c text last with
  | nil => exact absurd rfl hne
  | cons ch xs ih =>
    rw [List.length_append, List.length_cons] at hroom
    rw [List.forall_mem_cons] at hxs
    obtain ⟨c', hc', h'⟩ := @Edits.ordinary lua _ _ _ _ _ h hxs.1 (by omega)
    rw [List.foldlM_cons, hc']
    by_cases hnil : xs = []
    · subst hnil
      exact ⟨c', rfl, h'⟩
    · have hrest := ih h' hnil hxs.2 (by
        rw [List.length_append, List.length_append, List.length_singleton]
        omega)
      rwa [List.append_assoc] at hrest

include hlua in
/-- Line ends in the bytes of one task do not part their lines. -/
theorem Edits.lines {text : List UInt8} {last : UInt8} {lines : List (List UInt8)}
    (h : Edits c ⟨text, last⟩ s) (hne : lines ≠ [])
    (hlines : ∀ l ∈ lines, l ≠ [] ∧ ∀ ch ∈ l, Ordinary ch)
    (hroom : (text ++ lines.flatten).length < luaMaxinput) :
    ∃ c', (lines.flatMap (· ++ [newline])).foldlM (readChar lua) c = some c' ∧
      Ends c' (text ++ lines.flatten) newline s := by
  induction lines generalizing c text last with
  | nil => exact absurd rfl hne
  | cons l lines ih =>
    rw [List.flatten_cons, ← List.append_assoc] at hroom ⊢
    rw [List.forall_mem_cons] at hlines
    obtain ⟨⟨hl, hplain⟩, hlines⟩ := hlines
    rw [List.length_append] at hroom
    obtain ⟨c', hc', h'⟩ := @Edits.ordinaries lua _ _ _ _ _ h hl hplain (by omega)
    obtain ⟨c'', hc'', h''⟩ := h'.lineEnd hlua newline
    rw [if_neg (List.append_ne_nil_of_right_ne_nil _ hl)] at h''
    have hread : readChar lua c' newline = some c'' := by
      rw [readChar_of_not_second h' (by decide : ¬Second 0 newline), if_neg (by decide),
        if_pos (by decide), hc'']
    have hfirst : (l ++ [newline]).foldlM (readChar lua) c = some c'' := by
      rw [List.foldlM_append, hc', Option.bind_eq_bind, Option.bind_some, List.foldlM_cons, hread]
      rfl
    rw [List.flatMap_cons, List.foldlM_append, hfirst]
    by_cases hnil : lines = []
    · subst hnil
      rw [List.flatten_nil, List.append_nil]
      exact ⟨c'', rfl, h''⟩
    · exact ih h''.toEdits hnil hlines (by rw [List.length_append]; exact hroom)

include hlua in
/-- Lines that come in one task are run as one line, which is all of them one behind the other. -/
theorem console_paste {mode : Mode} {calls lines : List (List UInt8)}
    (hmode : mode.runInput = true) (h : Dialog lua ⟨[], 0⟩ ⟨none, []⟩ calls t s)
    (hnone : t.text = []) (hne : lines ≠ [])
    (hlines : ∀ l ∈ lines, l ≠ [] ∧ ∀ ch ∈ l, Ordinary ch)
    (hroom : lines.flatten.length < luaMaxinput) :
    ∃ c, run (step lua) (some (start mode))
        ((calls ++ [lines.flatMap (· ++ [newline])]).map (.task false)) = some c ∧
      codesOf c.effects = (s.enter lua lines.flatten).codes := by
  obtain ⟨c, hc, h'⟩ := h.runs hlua (edits_start hmode)
  have hempty : Edits { c with needDojob := false } ⟨[], t.last⟩ s := hnone ▸ h'.restart
  obtain ⟨c', hc', hends⟩ := hempty.lines hlua hne hlines hroom
  obtain ⟨c'', hc'', h''⟩ := hends.step hlua hc'
  exact ⟨c'', by rw [List.map_append, run_append, hc]; exact hc'', h''.codes⟩

theorem console_paste_typed :
    ∃ c, run (step (plainLua promptMode)) (some (start promptMode))
        ((typed ++ [[[0x61], [0x62]].flatMap (· ++ [newline])]).map (.task false)) = some c ∧
      codesOf c.effects = ((⟨none, [[0x61], [0x63]]⟩ : Session).enter (plainLua promptMode)
        [[0x61], [0x62]].flatten).codes :=
  console_paste (fun _ => rfl) rfl dialog_typed rfl (List.cons_ne_nil _ _) (by decide +kernel)
    (by decide)

end NodeMcu.Uart.Lines
