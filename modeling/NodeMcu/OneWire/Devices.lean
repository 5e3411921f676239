import Mathlib.Data.Nat.Bitwise
import NodeMcu.Lib.Descent

namespace NodeMcu.OneWire.Devices

open NodeMcu.Lib.Descent

/-! ## The devices of a wire

Every time slot of the master is one step of every device. A device pulls the wire low or lets it
go: what is read is high when all of them let it go. -/

abbrev Rom := Vector UInt8 8

def romByte (r : Rom) (i : Nat) : UInt8 := r[i]?.getD 0

def romBit (r : Rom) (i : Nat) : Bool := (romByte r (i / 8)).toNat.testBit (i % 8)

/-- The bits of a ROM code in the order in which they are sent. -/
def romBits (r : Rom) : Word := (List.range 64).map (romBit r)

def bits8 (v : UInt8) : Word := (List.range 8).map v.toNat.testBit

/-- Where a device stands. In a search, `rest` is what the master has not yet decided on; with no
bit left the device is the one selected. -/
inductive Phase
  | idle
  | command (bits : Word)
  | bit (rest : Word)
  | complement (rest : Word)
  | direction (rest : Word)
  | matching (rest : Word)
  | selected
  deriving DecidableEq

structure Device where
  rom : Rom
  phase : Phase
  deriving DecidableEq

def searchRom : UInt8 := 0xF0
def matchRom : UInt8 := 0x55
def skipRom : UInt8 := 0xCC

/-- What a device does with the command of its eight bits. -/
def obey (r : Rom) (command : Word) : Phase :=
  if command = bits8 searchRom then .bit (romBits r)
  else if command = bits8 matchRom then .matching (romBits r)
  else if command = bits8 skipRom then .selected
  else .idle

/-- One slot in which the master writes `v`: whether the device lets the wire go, and where it
stands then. A slot for reading is one in which a 1 is written. -/
def Device.slot (v : Bool) (d : Device) : Bool × Phase :=
  match d.phase with
  | .idle => (true, .idle)
  | .command bits =>
    (true, if bits.length < 7 then .command (bits ++ [v]) else obey d.rom (bits ++ [v]))
  | .bit [] => (true, .bit [])
  | .bit (b :: rest) => (b, .complement (b :: rest))
  | .complement [] => (true, .bit [])
  | .complement (b :: rest) => (!b, .direction (b :: rest))
  | .direction [] => (true, .bit [])
  | .direction (b :: rest) => (true, if v = b then .bit rest else .idle)
  | .matching [] => (true, .selected)
  | .matching (b :: rest) =>
    (true, if v = b then if rest = [] then .selected else .matching rest else .idle)
  | .selected => (true, .selected)

/-- The devices of a wire. `low` counts how often the wire reads low before a reset finds it
high. -/
structure Bus where
  low : Nat
  devices : List Device
  deriving DecidableEq

def Bus.slot (v : Bool) (bus : Bus) : Bool × Bus :=
  (v && bus.devices.all fun d => (d.slot v).1,
    { bus with devices := bus.devices.map fun d => { d with phase := (d.slot v).2 } })

def onewireWriteBit (v : Bool) (bus : Bus) : Bus := (bus.slot v).2

def onewireReadBit (bus : Bus) : Bool × Bus := bus.slot true

def retries : Nat := 125

/-- Every device answers a reset with its presence and waits for a command. -/
def onewireReset (bus : Bus) : Bool × Bus :=
  if bus.low + 1 < retries then
    (!bus.devices.isEmpty,
      { bus with devices := bus.devices.map fun d => { d with phase := .command [] } })
  else (false, bus)

def bitMasks : List UInt8 := [0x01, 0x02, 0x04, 0x08, 0x10, 0x20, 0x40, 0x80]

def onewireWrite (v : UInt8) (bus : Bus) : Bus :=
  bitMasks.foldl (fun bus bitMask => onewireWriteBit (bitMask &&& v != 0) bus) bus

def onewireSelect (rom : Rom) (bus : Bus) : Bus :=
  rom.toList.foldl (fun bus v => onewireWrite v bus) (onewireWrite matchRom bus)

def onewireSkip (bus : Bus) : Bus := onewireWrite skipRom bus

/-! ## A search on the wire -/

/-- The ROM codes of the devices, and what is left of those that take part in a search. -/
def Bus.roms (bus : Bus) : List Rom := bus.devices.map Device.rom

def Device.remaining (d : Device) : Option Word :=
  match d.phase with
  | .bit rest => some rest
  | _ => none

def Bus.remaining (bus : Bus) : List Word := bus.devices.filterMap Device.remaining

/-- Every device takes part in a search, with `n` bits to go, or waits for a reset. -/
def Searching (n : Nat) (bus : Bus) : Prop :=
  ∀ d ∈ bus.devices, d.phase = .idle ∨ ∃ rest, d.phase = .bit rest ∧ rest.length = n

@[simp] theorem romBits_length (r : Rom) : (romBits r).length = 64 := by simp [romBits]

/-- The wire on which every device has gone on as `f` says. -/
def Bus.advance (f : Device → Phase) (bus : Bus) : Bus :=
  { bus with devices := bus.devices.map fun d => { d with phase := f d } }

@[simp] theorem roms_advance (f : Device → Phase) (bus : Bus) :
    (bus.advance f).roms = bus.roms := by
  simp [Bus.advance, Bus.roms, Function.comp_def]

@[simp] theorem low_advance (f : Device → Phase) (bus : Bus) : (bus.advance f).low = bus.low := rfl

theorem slot_snd (v : Bool) (bus : Bus) : (bus.slot v).2 = bus.advance fun d => (d.slot v).2 := rfl

theorem onewireReset_snd {bus : Bus} (h : bus.low + 1 < retries) :
    (onewireReset bus).2 = bus.advance fun _ => .command [] := by
  rw [onewireReset, if_pos h]
  rfl

theorem mem_remaining {bus : Bus} {w : Word} :
    w ∈ bus.remaining ↔ ∃ d ∈ bus.devices, d.phase = .bit w := by
  rw [Bus.remaining, List.mem_filterMap]
  refine exists_congr fun d => and_congr_right fun _ => ?_
  cases h : d.phase <;> simp [Device.remaining, h]

/-- What a device that searches does with the slots of one bit: it sends the bit and its
complement and reads the direction. -/
structure Asks (d : Device) (c : Bool) (rest : Word) : Prop where
  bit : d.slot true = (c, .complement (c :: rest))
  complement : Device.slot true { d with phase := .complement (c :: rest) } =
    (!c, .direction (c :: rest))
  direction (b : Bool) : Device.slot b { d with phase := .direction (c :: rest) } =
    (true, if b = c then .bit rest else .idle)

theorem asks {d : Device} {c : Bool} {rest : Word} (h : d.phase = .bit (c :: rest)) :
    Asks d c rest := by
  refine ⟨?_, rfl, fun b => rfl⟩
  rw [Device.slot, h]

theorem slot_idle {d : Device} (h : d.phase = .idle) (v : Bool) : d.slot v = (true, .idle) := by
  rw [Device.slot, h]

/-! ## Bytes on the wire -/

/-- Where a device stands after the bits that the master has written. -/
def Device.write : Word → Device → Phase
  | [], d => d.phase
  | v :: bits, d => Device.write bits { d with phase := (d.slot v).2 }

theorem advance_advance (f g : Device → Phase) (bus : Bus) :
    (bus.advance f).advance g = bus.advance fun d => g { d with phase := f d } := by
  simp [Bus.advance, Function.comp_def]

theorem writeBits_eq (bits : Word) (bus : Bus) :
    bits.foldl (fun bus v => onewireWriteBit v bus) bus = bus.advance (Device.write bits) := by
  induction bits generalizing bus with
  | nil => simp [Bus.advance, Device.write]
  | cons v bits ih =>
    rw [List.foldl_cons, ih, onewireWriteBit, slot_snd, advance_advance]
    rfl

theorem and_mask (v : UInt8) (k : Nat) (hk : k < 8) :
    (UInt8.ofNat (2 ^ k) &&& v != 0) = v.toNat.testBit k := by
  have hpow : 2 ^ k < 256 := Nat.pow_lt_pow_right (by decide) hk
  rw [bne, Bool.eq_iff_iff, Bool.not_eq_true', beq_eq_false_iff_ne, ne_eq,
    ← UInt8.toNat_inj, UInt8.toNat_and, UInt8.toNat_ofNat_of_lt' hpow, Nat.two_pow_and]
  cases v.toNat.testBit k <;> simp

theorem bitMasks_bits (v : UInt8) : bitMasks.map (fun bitMask => bitMask &&& v != 0) = bits8 v := by
  have hlist : bitMasks = (List.range 8).map fun k => UInt8.ofNat (2 ^ k) := by decide
  rw [hlist, List.map_map, bits8]
  exact List.map_congr_left fun k hk => and_mask v k (List.mem_range.mp hk)

theorem onewireWrite_eq (v : UInt8) (bus : Bus) :
    onewireWrite v bus = bus.advance (Device.write (bits8 v)) := by
  rw [← writeBits_eq, ← bitMasks_bits, List.foldl_map]
  rfl

@[simp] theorem onewireWrite_roms (v : UInt8) (bus : Bus) :
    (onewireWrite v bus).roms = bus.roms := by
  rw [onewireWrite_eq, roms_advance]

@[simp] theorem onewireWrite_low (v : UInt8) (bus : Bus) : (onewireWrite v bus).low = bus.low := by
  rw [onewireWrite_eq, low_advance]

/-- The last bit of a command makes a device obey. -/
theorem write_command {d : Device} {bits more : Word} (h : d.phase = .command bits)
    (hmore : more ≠ []) (hlength : bits.length + more.length = 8) :
    d.write more = obey d.rom (bits ++ more) := by
  induction more generalizing d bits with
  | nil => exact absurd rfl hmore
  | cons v more ih =>
    rw [List.length_cons] at hlength
    have hslot : (d.slot v).2 =
        if bits.length < 7 then .command (bits ++ [v]) else obey d.rom (bits ++ [v]) := by
      rw [Device.slot, h]
    rw [Device.write]
    by_cases hlast : more = []
    · subst hlast
      rw [List.length_nil] at hlength
      rw [Device.write, hslot, if_neg (by omega)]
    · have hpos := List.length_pos_iff.mpr hlast
      rw [if_pos (by omega)] at hslot
      rw [ih hslot hlast (by rw [List.length_append, List.length_singleton]; omega),
        List.append_assoc]
      rfl

/-- After a reset every device obeys the byte that is written. -/
theorem reset_write {bus : Bus} (h : bus.low + 1 < retries) (v : UInt8) :
    onewireWrite v (onewireReset bus).2 = bus.advance fun d => obey d.rom (bits8 v) := by
  rw [onewireReset_snd h, onewireWrite_eq, advance_advance]
  refine congrArg (fun f => bus.advance f) (funext fun d => ?_)
  exact @write_command _ [] _ rfl (List.ne_nil_of_length_pos (by simp [bits8])) rfl

/-- A search begins with all devices. -/
theorem reset_search {bus : Bus} (h : bus.low + 1 < retries) :
    Searching 64 (onewireWrite searchRom (onewireReset bus).2) ∧
      (onewireWrite searchRom (onewireReset bus).2).remaining = bus.roms.map romBits := by
  have hobey (r : Rom) : obey r (bits8 searchRom) = .bit (romBits r) := if_pos rfl
  rw [reset_write h]
  constructor
  · intro d hd
    obtain ⟨d, -, rfl⟩ := List.mem_map.mp hd
    exact .inr ⟨romBits d.rom, hobey d.rom, romBits_length d.rom⟩
  · simp [Bus.remaining, Bus.advance, Device.remaining, hobey, Bus.roms, List.filterMap_map,
      Function.comp_def]

section Searching

variable {n : Nat} {bus : Bus}

theorem Searching.cases (h : Searching (n + 1) bus) {d : Device} (hd : d ∈ bus.devices) :
    d.phase = .idle ∨ ∃ c rest, d.phase = .bit (c :: rest) ∧ rest.length = n := by
  obtain hidle | ⟨rest, hbit, hlength⟩ := h d hd
  · exact .inl hidle
  · match rest, hlength with
    | c :: rest, hlength => exact .inr ⟨c, rest, hbit, Nat.succ.inj hlength⟩

theorem Searching.sized (h : Searching n bus) : Sized n bus.remaining := by
  intro w hw
  obtain ⟨d, hd, hbit⟩ := mem_remaining.mp hw
  obtain hidle | ⟨rest, hrest, hlength⟩ := h d hd
  · rw [hbit] at hidle
    cases hidle
  · rw [hbit] at hrest
    cases hrest
    exact hlength

/-- The wire is high in the slot of the bit when no device has a 0 there. -/
theorem readBit_fst (h : Searching (n + 1) bus) :
    (onewireReadBit bus).1 = decide (below false bus.remaining = []) := by
  rw [onewireReadBit, Bus.slot, Bool.true_and, Bool.eq_iff_iff, decide_eq_true_iff,
    List.all_eq_true, List.eq_nil_iff_forall_not_mem]
  simp only [mem_below, mem_remaining]
  constructor
  · rintro hall w ⟨d, hd, hbit⟩
    have := hall d hd
    rw [(asks hbit).bit] at this
    cases this
  · intro hnone d hd
    obtain hidle | ⟨c, rest, hbit, -⟩ := h.cases hd
    · rw [slot_idle hidle]
    · rw [(asks hbit).bit]
      cases c with
      | true => rfl
      | false => exact absurd ⟨d, hd, hbit⟩ (hnone rest)

/-- In the slot of the complement it is high when none has a 1. -/
theorem readBit_readBit_fst (h : Searching (n + 1) bus) :
    (onewireReadBit (onewireReadBit bus).2).1 = decide (below true bus.remaining = []) := by
  rw [onewireReadBit, onewireReadBit, slot_snd, Bus.slot, Bool.true_and, Bool.eq_iff_iff,
    decide_eq_true_iff, List.all_eq_true, List.eq_nil_iff_forall_not_mem]
  simp only [mem_below, mem_remaining, Bus.advance, List.forall_mem_map]
  constructor
  · rintro hall w ⟨d, hd, hbit⟩
    have := hall d hd
    rw [(asks hbit).bit, (asks hbit).complement] at this
    cases this
  · intro hnone d hd
    obtain hidle | ⟨c, rest, hbit, -⟩ := h.cases hd
    · rw [slot_idle hidle, slot_idle rfl]
    · rw [(asks hbit).bit, (asks hbit).complement]
      cases c with
      | false => rfl
      | true => exact absurd ⟨d, hd, hbit⟩ (hnone rest)

/-- The wire after both bits were read and a direction was written. -/
def decided (b : Bool) (bus : Bus) : Bus :=
  onewireWriteBit b (onewireReadBit (onewireReadBit bus).2).2

theorem decided_devices (b : Bool) (bus : Bus) : (decided b bus).devices =
    bus.devices.map fun d =>
      { d with phase := (Device.slot b { d with phase := (Device.slot true
        { d with phase := (d.slot true).2 }).2 }).2 } := by
  simp [decided, onewireWriteBit, onewireReadBit, slot_snd, Bus.advance, Function.comp_def]

theorem decided_phase {d : Device} {c : Bool} {rest : Word} (b : Bool)
    (h : d.phase = .bit (c :: rest)) :
    (Device.slot b { d with phase := (Device.slot true
      { d with phase := (d.slot true).2 }).2 }).2 = if b = c then .bit rest else .idle := by
  rw [(asks h).bit, (asks h).complement, (asks h).direction]

theorem decided_idle {d : Device} (b : Bool) (h : d.phase = .idle) :
    (Device.slot b { d with phase := (Device.slot true
      { d with phase := (d.slot true).2 }).2 }).2 = .idle := by
  rw [slot_idle h, slot_idle rfl]

/-- The devices that have the bit of the direction go on. -/
theorem Searching.decided (h : Searching (n + 1) bus) (b : Bool) :
    Searching n (decided b bus) ∧
      (Devices.decided b bus).remaining = below b bus.remaining := by
  constructor
  · intro d hd
    rw [decided_devices, List.mem_map] at hd
    obtain ⟨d, hd, rfl⟩ := hd
    obtain hidle | ⟨c, rest, hbit, hlength⟩ := h.cases hd
    · exact .inl (decided_idle b hidle)
    · rw [decided_phase b hbit]
      split
      · exact .inr ⟨rest, rfl, hlength⟩
      · exact .inl rfl
  · rw [Bus.remaining, decided_devices, List.filterMap_map, below, Bus.remaining,
      List.filterMap_filterMap]
    refine List.filterMap_congr fun d hd => ?_
    obtain hidle | ⟨c, rest, hbit, -⟩ := h.cases hd
    · simp [Device.remaining, hidle, slot_idle]
    · have hphase := decided_phase b hbit
      simp only [Function.comp_apply, Device.remaining, hphase, hbit, Option.bind_some, behind]
      by_cases hbc : b = c
      · rw [if_pos hbc, if_pos hbc.symm]
      · rw [if_neg hbc, if_neg (Ne.symm hbc)]

@[simp] theorem decided_roms (b : Bool) (bus : Bus) : (Devices.decided b bus).roms = bus.roms := by
  simp [Devices.decided, onewireWriteBit, onewireReadBit, slot_snd]

@[simp] theorem decided_low (b : Bool) (bus : Bus) : (Devices.decided b bus).low = bus.low := rfl

end Searching

end NodeMcu.OneWire.Devices
