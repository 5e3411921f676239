import NodeMcu.Uart.Console

namespace NodeMcu.Uart.Data

open NodeMcu.Lib.Run NodeMcu.Uart.Console

/-! ## Data -/

/-- Where data are cut. -/
def Complete (m : Mode) (text : List UInt8) : Prop :=
  (m.needLen ≠ 0 ∧ m.needLen ≤ text.length) ∨ luaMaxinput ≤ text.length ∨
    (m.endChar.isSome ∧ text.getLast? = m.endChar)

instance (m : Mode) (text : List UInt8) : Decidable (Complete m text) :=
  inferInstanceAs (Decidable (_ ∨ _ ∨ _))

/-- No beginning of the text is cut off. -/
def Uncut (m : Mode) (text : List UInt8) : Prop := ∀ t, t <+: text → t ≠ [] → ¬Complete m t

/-- Nothing says where data are cut. -/
def Direct (m : Mode) : Prop := m.needLen = 0 ∧ m.endChar = none

instance (m : Mode) : Decidable (Direct m) := inferInstanceAs (Decidable (_ ∧ _))

variable {m : Mode} {lua : Lua} {c : State} {text : List UInt8}

theorem uncut_nil : Uncut m [] := fun _ ht hne => absurd (List.prefix_nil.mp ht) hne

theorem uncut_concat {ch : UInt8} (h : Uncut m text) (hch : ¬Complete m (text ++ [ch])) :
    Uncut m (text ++ [ch]) := by
  intro t ht hne
  obtain rfl | ht := List.prefix_concat_iff.mp ht
  · exact hch
  · exact h t ht hne

/-- The pieces that were handed on, the bytes that they and what is pending are, and what holds of
them. -/
structure Pieces (m : Mode) (pieces : List (List UInt8)) (pending bytes : List UInt8) : Prop where
  all : pieces.flatten ++ pending = bytes
  early : ∀ t ∈ pieces, Uncut m t.dropLast
  complete : ∀ t ∈ pieces, Complete m t ∨ Direct m
  pending : Uncut m pending

/-- The console while data come in. -/
structure Gathers (m : Mode) (c : State) (bytes : List UInt8) : Prop where
  valid : Valid c
  mode : c.mode = m
  quiet : c.needDojob = false
  pieces : Pieces m (dataOf c.effects) c.pending bytes

theorem uartOnDataCb_data (hmode : c.mode = m) (hregistered : m.registered = true)
    (hlua : ∀ effects, lua.modeAfter effects = m) (hpos : c.load.linePosition ≠ 0) :
    (uartOnDataCb lua c).mode = m ∧ (uartOnDataCb lua c).needDojob = c.needDojob ∧
      dataOf (uartOnDataCb lua c).effects = dataOf c.effects ++ [c.pending] := by
  rw [uartOnDataCb, if_neg (by simp [hpos, hmode, hregistered])]
  refine ⟨hlua _, rfl, ?_⟩
  simp [State.call, State.emit, dataOf, State.pending]

theorem Pieces.push {pieces : List (List UInt8)} {pending bytes : List UInt8}
    (h : Pieces m pieces pending bytes) (ch : UInt8) :
    if Complete m (pending ++ [ch]) then Pieces m (pieces ++ [pending ++ [ch]]) [] (bytes ++ [ch])
    else Pieces m pieces (pending ++ [ch]) (bytes ++ [ch]) := by
  have hall : pieces.flatten ++ (pending ++ [ch]) = bytes ++ [ch] := by
    rw [← List.append_assoc, h.all]
  split_ifs with hcomplete
  · refine ⟨by simpa using hall, ?_, ?_, uncut_nil⟩
    · rw [List.forall_mem_append, List.forall_mem_singleton, List.dropLast_concat]
      exact ⟨h.early, h.pending⟩
    · rw [List.forall_mem_append, List.forall_mem_singleton]
      exact ⟨h.complete, .inl hcomplete⟩
  · exact ⟨hall, h.early, h.complete, uncut_concat h.pending hcomplete⟩

theorem complete_concat_iff (m : Mode) (text : List UInt8) (ch : UInt8) :
    Complete m (text ++ [ch]) ↔ (m.needLen ≠ 0 ∧ m.needLen ≤ text.length + 1) ∨
      luaMaxinput ≤ text.length + 1 ∨ m.endChar = some ch := by
  rw [Complete, List.length_append, List.length_singleton, List.getLast?_concat]
  cases m.endChar <;> simp [eq_comm]

theorem Gathers.readChar {bytes : List UInt8} (h : Gathers m c bytes)
    (hdata : m.runInput = false) (hregistered : m.registered = true)
    (hlua : ∀ effects, lua.modeAfter effects = m) (ch : UInt8) :
    ∃ c', readChar lua c ch = some c' ∧ Gathers m c' (bytes ++ [ch]) := by
  obtain ⟨c', hstore, hlength, hpos, hpending, hmode, hquiet, heffects, -⟩ := stored h.valid ch
  have hpush := h.pieces.push ch
  rw [Console.readChar, h.mode, hdata, if_neg Bool.false_ne_true, hstore, Option.map_some]
  refine ⟨_, rfl, ?_⟩
  have hcut : cut lua ch c' =
      if Complete m (c.pending ++ [ch]) then (uartOnDataCb lua c').moveTo 0 else c' := by
    rw [cut, hmode, h.mode, hlength, hpos]
    exact if_congr (complete_concat_iff m _ ch).symm rfl rfl
  have hvalid : Valid (cut lua ch c') := cut_valid hlength ch
  rw [hcut] at hvalid ⊢
  split_ifs at hpush hvalid ⊢ with hcomplete
  · obtain ⟨hnew, hneed, heff⟩ := uartOnDataCb_data (hmode.trans h.mode) hregistered hlua
      (by rw [hpos]; exact Nat.succ_ne_zero _)
    refine ⟨hvalid, hnew, hneed.trans (hquiet.trans h.quiet), ?_⟩
    rw [hpending, heffects] at heff
    exact (congrArg (fun d => Pieces m d [] (bytes ++ [ch])) heff).mpr hpush
  · refine ⟨hvalid, hmode.trans h.mode, hquiet.trans h.quiet, ?_⟩
    rw [hpending, heffects]
    exact hpush

theorem Pieces.direct {pieces : List (List UInt8)} {pending bytes : List UInt8}
    (h : Pieces m pieces pending bytes) (hdirect : Direct m) :
    Pieces m (pieces ++ [pending]) [] bytes := by
  refine ⟨by simpa using h.all, ?_, fun _ _ => .inr hdirect, uncut_nil⟩
  rw [List.forall_mem_append, List.forall_mem_singleton]
  exact ⟨h.early, fun t ht => h.pending t (ht.trans (List.dropLast_prefix _))⟩

theorem Gathers.flush {bytes : List UInt8} (h : Gathers m c bytes)
    (hdata : m.runInput = false) (hregistered : m.registered = true)
    (hlua : ∀ effects, lua.modeAfter effects = m) :
    Gathers m (flush lua c) bytes ∧ (Direct m → (Console.flush lua c).pending = []) := by
  rw [Console.flush, h.mode]
  split_ifs with hcut
  · obtain ⟨hnew, hneed, heff⟩ := uartOnDataCb_data h.mode hregistered hlua
      (Nat.ne_of_gt hcut.1)
    have hpieces := h.pieces.direct ⟨hcut.2.2.1, hcut.2.2.2⟩
    refine ⟨⟨(h.valid.of_load uartOnDataCb_load).moveTo (by decide), hnew, hneed.trans h.quiet, ?_⟩,
      fun _ => rfl⟩
    exact (congrArg (fun d => Pieces m d [] bytes) heff).mpr hpieces
  · refine ⟨h, fun hdirect => ?_⟩
    have hzero : c.load.linePosition = 0 := by
      by_contra hpos
      exact hcut ⟨Nat.pos_of_ne_zero hpos, hdata, hdirect.1, hdirect.2⟩
    rw [State.pending, hzero, List.take_zero]

/-- One task. -/
theorem Gathers.task {bytes : List UInt8} (h : Gathers m c bytes)
    (hdata : m.runInput = false) (hregistered : m.registered = true)
    (hlua : ∀ effects, lua.modeAfter effects = m) (call : List UInt8) :
    ∃ c', luaHandleInput lua false call c = some c' ∧ Gathers m c' (bytes ++ call) ∧
      (Direct m → c'.pending = []) := by
  have hread : ∀ c bytes, Gathers m c bytes →
      ∃ c', call.foldlM (Console.readChar lua) c = some c' ∧ Gathers m c' (bytes ++ call) := by
    induction call with
    | nil => exact fun c bytes h => ⟨c, rfl, by simpa using h⟩
    | cons ch call ih =>
      intro c bytes h
      obtain ⟨c', hc', h'⟩ := h.readChar hdata hregistered hlua ch
      rw [List.foldlM_cons, hc']
      simpa using ih c' _ h'
  have hstart : Gathers m { c with needDojob := false } bytes := ⟨h.valid.of_load rfl, h.mode, rfl,
    h.pieces⟩
  obtain ⟨c', hc', h'⟩ := hread _ _ hstart
  obtain ⟨hflush, hdirect⟩ := h'.flush hdata hregistered hlua
  refine ⟨Console.flush lua c', ?_, hflush, hdirect⟩
  rw [luaHandleInput, if_neg Bool.false_ne_true, readline, hc', Option.map_some, Option.map_some,
    if_neg (by rw [hflush.quiet]; exact Bool.false_ne_true)]

/-- Where data are not run, every byte is handed on once and in order, in pieces that are cut as
early as the mode says; and where it says nothing, no byte is kept for a later task. -/
theorem data_run (hdata : m.runInput = false) (hregistered : m.registered = true)
    (hlua : ∀ effects, lua.modeAfter effects = m) (calls : List (List UInt8)) :
    ∃ c, run (step lua) (some (start m)) (calls.map (.task false)) = some c ∧
      Pieces m (dataOf c.effects) c.pending calls.flatten ∧ (Direct m → c.pending = []) := by
  have hruns : ∀ c bytes, Gathers m c bytes → (Direct m → c.pending = []) →
      ∃ c', run (step lua) (some c) (calls.map (.task false)) = some c' ∧
        Gathers m c' (bytes ++ calls.flatten) ∧ (Direct m → c'.pending = []) := by
    induction calls with
    | nil => exact fun c bytes h hdirect => ⟨c, rfl, by simpa using h, hdirect⟩
    | cons call calls ih =>
      intro c bytes h _
      obtain ⟨c', hc', h', hdirect'⟩ := h.task hdata hregistered hlua call
      have hstep : step lua (some c) (.task false call) = some c' := hc'
      rw [List.map_cons, run_cons, hstep, List.flatten_cons, ← List.append_assoc]
      exact ih c' _ h' hdirect'
  have hstart : Gathers m (start m) [] := ⟨valid_start m, rfl, rfl, rfl, nofun, nofun, uncut_nil⟩
  obtain ⟨c, hc, h, hdirect⟩ := hruns _ _ hstart fun _ => rfl
  exact ⟨c, hc, h.pieces, hdirect⟩

/-- Data are cut behind a full stop. -/
def stopMode : Mode := ⟨true, true, false, 0, some 0x2E⟩

theorem data_run_stop :
    ∃ c, run (step (plainLua stopMode)) (some (start stopMode))
        ([[0x61, 0x2E, 0x62], [0x2E]].map (.task false)) = some c ∧
      Pieces stopMode (dataOf c.effects) c.pending [[0x61, 0x2E, 0x62], [0x2E]].flatten ∧
      (Direct stopMode → c.pending = []) :=
  data_run rfl rfl (fun _ => rfl) _

end NodeMcu.Uart.Data
