import Mathlib.Tactic.SplitIfs
import NodeMcu.Lib.Run
import NodeMcu.Lib.Text

namespace NodeMcu.Uart.Console

open NodeMcu.Lib.Run NodeMcu.Lib.Text

/-! ## The console -/

def luaMaxinput : Nat := 256

def carriageReturn : UInt8 := 0x0D
def newline : UInt8 := 0x0A

/-- What Lua code has set: whether the input is echoed, whether there is a callback for data,
whether the input is run as code, and where the data are cut. -/
structure Mode where
  uart0Echo : Bool
  registered : Bool
  runInput : Bool
  needLen : Nat
  endChar : Option UInt8

/-- What the console does: it sends bytes, prompts, calls the callback for data, or runs code. -/
inductive Effect
  | sent (bytes : List UInt8)
  | prompt (first : Bool)
  | data (text : List UInt8)
  | ran (code : List UInt8)

/-- The buffer of a line, and what is kept of the lines before where a statement goes on. -/
structure Load where
  line : List UInt8
  linePosition : Nat
  done : Bool
  previous : Option (List UInt8)

structure State where
  load : Load
  needDojob : Bool
  lastNlChar : UInt8
  mode : Mode
  effects : List Effect

/-- What depends on Lua code: the mode after the code that the last effect has called, and whether
a text is the beginning of a statement. -/
structure Lua where
  modeAfter : List Effect → Mode
  incomplete : List UInt8 → Bool

section Code

variable (lua : Lua)

def uart0Putc (c : UInt8) : List UInt8 :=
  if c = newline then [carriageReturn, newline] else if c = carriageReturn then [] else [c]

def State.emit (e : Effect) (c : State) : State := { c with effects := c.effects ++ [e] }

def State.echo (bytes : List UInt8) (c : State) : State :=
  if c.mode.uart0Echo then c.emit (.sent (bytes.flatMap uart0Putc)) else c

/-- There is no result where a byte behind the buffer is written. -/
def State.put (ch : UInt8) (c : State) : Option State :=
  if c.load.linePosition < c.load.line.length then
    some { c with load := { c.load with line := c.load.line.set c.load.linePosition ch } }
  else none

def State.moveTo (linePosition : Nat) (c : State) : State :=
  { c with load := { c.load with linePosition } }

/-- A call of Lua code, which may set another mode. -/
def State.call (e : Effect) (c : State) : State :=
  { c.emit e with mode := lua.modeAfter (c.effects ++ [e]) }

def uartOnDataCb (c : State) : State :=
  if c.load.linePosition = 0 ∨ c.mode.registered = false then c
  else c.call lua (.data (c.load.line.take c.load.linePosition))

def backspace (c : State) : Option State :=
  if 0 < c.load.linePosition then
    ((c.echo [0x08, 0x20, 0x08]).moveTo (c.load.linePosition - 1)).put 0
  else c.put 0

def lineEnd (ch : UInt8) (c : State) : Option State := do
  let c ← { c with lastNlChar := ch }.put 0
  let c := uartOnDataCb lua (c.echo [newline])
  if c.load.linePosition = 0 then some (c.emit (.prompt c.load.previous.isNone))
  else some { c with load := { c.load with done := true }, needDojob := true }

def store (ch : UInt8) (c : State) : Option State := do
  let c ← c.put ch
  some (c.moveTo (c.load.linePosition + 1))

/-- A line for which there is no room is thrown away. -/
def discard (c : State) : State :=
  if c.load.line.length ≤ c.load.linePosition + 1 then c.moveTo 0 else c

/-- The data are cut where there are enough of them or where they end. -/
def cut (ch : UInt8) (c : State) : State :=
  if (c.mode.needLen ≠ 0 ∧ c.mode.needLen ≤ c.load.linePosition) ∨
      c.load.line.length ≤ c.load.linePosition ∨ c.mode.endChar = some ch then
    (uartOnDataCb lua c).moveTo 0
  else c

/-- One round of the loop of `readline`. -/
def readChar (c : State) (ch : UInt8) : Option State :=
  if c.mode.runInput then
    let last := c.lastNlChar
    let c := { c with lastNlChar := 0 }
    if (ch = carriageReturn ∧ last = newline) ∨ (ch = newline ∧ last = carriageReturn) then some c
    else if ch = 0x7F ∨ ch = 0x08 then backspace c
    else if ch = carriageReturn ∨ ch = newline then lineEnd lua ch c
    else store ch (discard (c.echo [ch]))
  else (store ch c).map (cut lua ch)

/-- Data that nothing cuts are handed on at once. -/
def flush (c : State) : State :=
  if 0 < c.load.linePosition ∧ c.mode.runInput = false ∧ c.mode.needLen = 0 ∧
      c.mode.endChar = none then
    (uartOnDataCb lua c).moveTo 0
  else c

/-- For the bytes that `uart_getc` returns. -/
def readline (bytes : List UInt8) (c : State) : Option State :=
  (bytes.foldlM (readChar lua) { c with needDojob := false }).map (flush lua)

/-- The text that is loaded: a line that begins with `=` is to be printed, and a statement that is
not complete goes on. -/
def statement (previous : Option (List UInt8)) (b : List UInt8) : List UInt8 :=
  match previous with
  | none => if b.head? = some 0x3D then bytesOf "return " ++ b.tail else b
  | some text => text ++ [newline] ++ b

def withoutNewline (b : List UInt8) : List UInt8 :=
  if b.getLast? = some newline then b.dropLast else b

def doLine (c : State) : State :=
  let code := statement c.load.previous (withoutNewline (cString c.load.line))
  if lua.incomplete code then { c with load := { c.load with previous := some code } }
  else
    let c := c.call lua (.ran code)
    { c with load := { c.load with previous := none } }

def dojob (c : State) : State :=
  let c := if c.load.done then doLine lua c else c
  let line := List.replicate c.load.line.length 0
  { c with load := { c.load with done := false, linePosition := 0, line } }.emit
    (.prompt c.load.previous.isNone)

def luaHandleInput (force : Bool) (bytes : List UInt8) (c : State) : Option State :=
  if force then some (dojob lua c)
  else (readline lua bytes c).map fun c => if c.needDojob then dojob lua c else c

/-- A text becomes the line and is to be run, unless there is a line already. The zero stands one
byte behind its place. -/
def nodeInput (text : List UInt8) (c : State) : Option State :=
  if text ≠ [] ∧ text.length < luaMaxinput - 1 ∧ c.load.linePosition = 0 then
    if text.length + 1 < c.load.line.length then
      let line := (text ++ c.load.line.drop text.length).set (text.length + 1) 0
      let linePosition := (cString line).length + 1
      some { c with load := { c.load with line, linePosition, done := true } }
    else none
  else some c

/-- A task with what the ring holds, or one that `node.input` has posted; a mode that Lua code
sets; or a call of `node.input`. -/
inductive Event
  | task (force : Bool) (bytes : List UInt8)
  | setMode (mode : Mode)
  | input (text : List UInt8)

def handle (c : State) : Event → Option State
  | .task force bytes => luaHandleInput lua force bytes c
  | .setMode mode => some { c with mode }
  | .input text => nodeInput text c

def step (c : Option State) (e : Event) : Option State := c.bind (handle lua · e)

/-- With the first prompt. -/
def start (mode : Mode) : State where
  load := ⟨List.replicate luaMaxinput 0, 0, false, none⟩
  needDojob := false
  lastNlChar := 0
  mode
  effects := [.prompt true]

end Code

/-! ## The buffer -/

section Buffer

variable {lua : Lua} {c c' : State} {ch : UInt8}

/-- The position is inside the buffer. -/
structure Valid (c : State) : Prop where
  length : c.load.line.length = luaMaxinput
  inside : c.load.linePosition < luaMaxinput

/-- What the callback for data is called with. -/
def dataOf (effects : List Effect) : List (List UInt8) :=
  effects.filterMap fun
    | .data text => some text
    | _ => none

theorem Valid.of_load (h : Valid c) (hload : c'.load = c.load) : Valid c' :=
  ⟨by rw [hload, h.length], by rw [hload]; exact h.inside⟩

@[simp] theorem emit_load (e : Effect) : (c.emit e).load = c.load := rfl

@[simp] theorem emit_mode (e : Effect) : (c.emit e).mode = c.mode := rfl

@[simp] theorem echo_load (bytes : List UInt8) : (c.echo bytes).load = c.load := by
  rw [State.echo]
  split <;> rfl

@[simp] theorem echo_mode (bytes : List UInt8) : (c.echo bytes).mode = c.mode := by
  rw [State.echo]
  split <;> rfl

@[simp] theorem echo_lastNlChar (bytes : List UInt8) :
    (c.echo bytes).lastNlChar = c.lastNlChar := by
  rw [State.echo]
  split <;> rfl

@[simp] theorem echo_needDojob (bytes : List UInt8) : (c.echo bytes).needDojob = c.needDojob := by
  rw [State.echo]
  split <;> rfl

@[simp] theorem call_load (e : Effect) : (c.call lua e).load = c.load := rfl

@[simp] theorem uartOnDataCb_load : (uartOnDataCb lua c).load = c.load := by
  rw [uartOnDataCb]
  split <;> rfl

theorem Valid.put (h : Valid c) (ch : UInt8) :
    c.put ch = some { c with
      load := { c.load with line := c.load.line.set c.load.linePosition ch } } :=
  if_pos (by rw [h.length]; exact h.inside)

theorem Valid.put_valid (h : Valid c) (hput : c.put ch = some c') : Valid c' := by
  rw [h.put, Option.some.injEq] at hput
  subst hput
  exact ⟨by rw [List.length_set, h.length], h.inside⟩

theorem Valid.moveTo (h : Valid c) {linePosition : Nat} (hpos : linePosition < luaMaxinput) :
    Valid (c.moveTo linePosition) := ⟨h.length, hpos⟩

theorem Valid.backspace (h : Valid c) : ∃ c', backspace c = some c' ∧ Valid c' := by
  rw [Console.backspace]
  split
  · have hmoved : Valid ((c.echo [0x08, 0x20, 0x08]).moveTo (c.load.linePosition - 1)) :=
      (h.of_load (echo_load _)).moveTo (Nat.lt_of_le_of_lt (Nat.sub_le _ _) h.inside)
    exact ⟨_, hmoved.put 0, hmoved.put_valid (hmoved.put 0)⟩
  · exact ⟨_, h.put 0, h.put_valid (h.put 0)⟩

theorem Valid.lineEnd (h : Valid c) (ch : UInt8) :
    ∃ c', lineEnd lua ch c = some c' ∧ Valid c' := by
  have hlast : Valid { c with lastNlChar := ch } := h.of_load rfl
  have hput := hlast.put_valid (hlast.put 0)
  rw [Console.lineEnd, hlast.put 0]
  simp only [Option.bind_eq_bind, Option.bind_some]
  split
  · exact ⟨_, rfl, hput.of_load (by simp)⟩
  · refine ⟨_, rfl, ⟨?_, ?_⟩⟩
    · simpa using hput.length
    · simpa using hput.inside

theorem Valid.store (h : Valid c) (ch : UInt8) :
    ∃ c', store ch c = some c' ∧ c'.load.line.length = luaMaxinput ∧
      c'.load.linePosition = c.load.linePosition + 1 ∧ c'.mode = c.mode := by
  rw [Console.store, h.put]
  exact ⟨_, rfl, by simp [State.moveTo, h.length], rfl, rfl⟩

/-- The bytes of the line so far. -/
def State.pending (c : State) : List UInt8 := c.load.line.take c.load.linePosition

theorem pending_length (h : Valid c) : c.pending.length = c.load.linePosition := by
  rw [State.pending, List.length_take, h.length]
  have := h.inside
  omega

/-- The console with a byte behind what is pending. -/
theorem stored (h : Valid c) (ch : UInt8) :
    ∃ c', store ch c = some c' ∧ c'.load.line.length = luaMaxinput ∧
      c'.load.linePosition = c.pending.length + 1 ∧ c'.pending = c.pending ++ [ch] ∧
      c'.mode = c.mode ∧ c'.needDojob = c.needDojob ∧ c'.effects = c.effects ∧
      c'.load.done = c.load.done ∧ c'.load.previous = c.load.previous ∧
      c'.lastNlChar = c.lastNlChar := by
  rw [store, h.put]
  refine ⟨_, rfl, ?_, ?_, ?_, rfl, rfl, rfl, rfl, rfl, rfl⟩
  · simp [State.moveTo, h.length]
  · rw [pending_length h]
    rfl
  · simp [State.moveTo, State.pending, List.take_add_one, List.take_set_of_le,
      h.length, h.inside]

theorem Valid.discard (h : Valid c) :
    Valid (discard c) ∧ (discard c).load.linePosition + 1 < luaMaxinput := by
  rw [Console.discard, h.length]
  split
  · exact ⟨h.moveTo (by decide), by simp [State.moveTo, luaMaxinput]⟩
  · exact ⟨h, by omega⟩

/-- The buffer is handed on when it is full. -/
theorem cut_valid (hlength : c.load.line.length = luaMaxinput) (ch : UInt8) :
    Valid (cut lua ch c) := by
  rw [cut]
  split
  · exact ⟨by simp [State.moveTo, hlength], by simp [State.moveTo, luaMaxinput]⟩
  · exact ⟨hlength, by omega⟩

theorem Valid.readChar (h : Valid c) (ch : UInt8) :
    ∃ c', readChar lua c ch = some c' ∧ Valid c' := by
  rw [Console.readChar]
  split
  · have hlast : Valid { c with lastNlChar := 0 } := h.of_load rfl
    dsimp only
    split_ifs
    · exact ⟨_, rfl, hlast⟩
    · exact hlast.backspace
    · exact hlast.lineEnd ch
    · obtain ⟨hvalid, hroom⟩ := (hlast.of_load (echo_load (c := { c with lastNlChar := 0 })
        [ch])).discard
      obtain ⟨c', hstore, hlength, hpos, -⟩ := hvalid.store ch
      exact ⟨c', hstore, hlength, hpos ▸ hroom⟩
  · obtain ⟨c', hstore, hlength, -⟩ := h.store ch
    exact ⟨_, by rw [hstore]; rfl, cut_valid hlength ch⟩

theorem Valid.readline (h : Valid c) (bytes : List UInt8) :
    ∃ c', readline lua bytes c = some c' ∧ Valid c' := by
  have hread : ∀ c, Valid c → ∃ c', bytes.foldlM (Console.readChar lua) c = some c' ∧ Valid c' := by
    induction bytes with
    | nil => exact fun c h => ⟨c, rfl, h⟩
    | cons ch bytes ih =>
      intro c h
      obtain ⟨c', hc', h'⟩ := h.readChar ch
      rw [List.foldlM_cons, hc']
      exact ih c' h'
  obtain ⟨c', hc', h'⟩ := hread _ (h.of_load rfl : Valid { c with needDojob := false })
  refine ⟨_, by rw [Console.readline, hc']; rfl, ?_⟩
  rw [flush]
  split
  · exact (h'.of_load uartOnDataCb_load).moveTo (by decide)
  · exact h'

theorem dojob_valid (hlength : c.load.line.length = luaMaxinput) : Valid (dojob lua c) := by
  have hline : (doLine lua c).load.line = c.load.line := by
    rw [doLine]
    dsimp only
    split <;> rfl
  refine ⟨?_, by simp [dojob, luaMaxinput]⟩
  rw [dojob]
  dsimp only [emit_load]
  rw [List.length_replicate]
  split
  · rw [hline, hlength]
  · exact hlength

theorem Valid.luaHandleInput (h : Valid c) (force : Bool) (bytes : List UInt8) :
    ∃ c', luaHandleInput lua force bytes c = some c' ∧ Valid c' := by
  rw [Console.luaHandleInput]
  split
  · exact ⟨_, rfl, dojob_valid h.length⟩
  · obtain ⟨c', hc', h'⟩ := h.readline bytes
    rw [hc', Option.map_some]
    refine ⟨_, rfl, ?_⟩
    split_ifs
    · exact dojob_valid h'.length
    · exact h'

theorem cString_length_le {bytes : List UInt8} {i : Nat} (h : bytes[i]? = some 0) :
    (cString bytes).length ≤ i := by
  induction bytes generalizing i with
  | nil => cases h
  | cons c bytes ih =>
    rw [cString, List.takeWhile_cons]
    split_ifs with hc
    · cases i with
      | zero =>
        obtain rfl := Option.some.inj h
        exact absurd hc (by decide)
      | succ i => exact Nat.succ_le_succ (ih h)
    · exact Nat.zero_le _

/-- The byte behind the text of `node.input` is zero already, or there is room for one more. -/
def Clean (c : State) : Event → Prop
  | .input text => text.length + 2 < luaMaxinput ∨ c.load.line[text.length]? = some 0
  | _ => True

theorem Valid.nodeInput (h : Valid c) {text : List UInt8} (hclean : Clean c (.input text)) :
    ∃ c', nodeInput text c = some c' ∧ Valid c' := by
  rw [Console.nodeInput]
  split_ifs with htext hroom
  · have hlength : (text ++ c.load.line.drop text.length).length = luaMaxinput := by
      rw [List.length_append, List.length_drop, h.length]
      omega
    refine ⟨_, rfl, by rw [List.length_set, hlength], ?_⟩
    have hzero : ((text ++ c.load.line.drop text.length).set (text.length + 1) 0)[
        text.length + 1]? = some 0 := by
      rw [List.getElem?_set_self (by rw [hlength, ← h.length]; exact hroom)]
    obtain hshort | hclean := hclean
    · have hle := cString_length_le hzero
      dsimp only
      omega
    · have hbehind : ((text ++ c.load.line.drop text.length).set (text.length + 1) 0)[
          text.length]? = some 0 := by
        rw [List.getElem?_set_ne (by omega), List.getElem?_append_right (Nat.le_refl _),
          List.getElem?_drop, Nat.sub_self]
        exact hclean
      have hle := cString_length_le hbehind
      rw [luaMaxinput] at htext ⊢
      dsimp only
      omega
  · rw [h.length, luaMaxinput] at hroom
    rw [luaMaxinput] at htext
    omega
  · exact ⟨c, rfl, h⟩

theorem Valid.handle (h : Valid c) {e : Event} (he : Clean c e) :
    ∃ c', handle lua c e = some c' ∧ Valid c' := by
  cases e with
  | task force bytes => exact h.luaHandleInput force bytes
  | setMode mode => exact ⟨_, rfl, h.of_load rfl⟩
  | input text => exact h.nodeInput he

theorem valid_start (mode : Mode) : Valid (start mode) :=
  ⟨List.length_replicate, (by decide : 0 < luaMaxinput)⟩

/-- In every run, whatever Lua code does with the modes, no byte is written outside the buffer. -/
theorem console_run {mode : Mode} {events : List Event}
    (hclean : Along (step lua) (fun c e => ∀ c' ∈ c, Clean c' e) (some (start mode)) events) :
    ∃ c, run (step lua) (some (start mode)) events = some c ∧ Valid c := by
  have h := run_invariant (step lua) _ (fun c => ∃ c' ∈ c, Valid c') (fun c e h he => by
    obtain ⟨c', rfl, h'⟩ := h
    exact h'.handle (he c' rfl)) _ _ ⟨start mode, rfl, valid_start mode⟩ hclean
  exact h

/-- Lua code that leaves a mode as it is, and for which every text is a statement. -/
def plainLua (mode : Mode) : Lua := ⟨fun _ => mode, fun _ => false⟩

def promptMode : Mode := ⟨true, false, true, 0, none⟩

theorem console_run_input :
    ∃ c, run (step (plainLua promptMode)) (some (start promptMode))
      [.task false [0x61, 0x08, 0x0D], .input [0x62], .task true []] = some c ∧ Valid c :=
  console_run ⟨fun _ _ => trivial, fun _ _ => .inl (by decide), fun _ _ => trivial, trivial⟩

end Buffer

end NodeMcu.Uart.Console
