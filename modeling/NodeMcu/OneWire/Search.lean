import Mathlib.Data.List.Nodup
import Mathlib.Data.Set.List
import NodeMcu.OneWire.Devices

namespace NodeMcu.OneWire.Search

open NodeMcu.Lib.Descent NodeMcu.OneWire.Devices

/-! ## The search -/

/-- What a pin keeps from one search to the next. -/
structure SearchState where
  romNo : Rom
  lastDiscrepancy : Nat
  lastFamilyDiscrepancy : Nat
  lastDeviceFlag : Bool
  deriving DecidableEq

def onewireResetSearch : SearchState := ⟨Vector.replicate 8 0, 0, 0, false⟩

def onewireTargetSearch (familyCode : UInt8) : SearchState :=
  ⟨(Vector.replicate 8 0).set 0 familyCode, 64, 0, false⟩

/-- The state after a search that has found nothing. -/
def SearchState.restart (s : SearchState) : SearchState :=
  { s with lastDiscrepancy := 0, lastDeviceFlag := false, lastFamilyDiscrepancy := 0 }

/-- The variables of the loop, and what it changes of the state. -/
structure Loop where
  idBitNumber : Nat
  lastZero : Nat
  romByteNumber : Nat
  romByteMask : UInt8
  romNo : Rom
  lastFamilyDiscrepancy : Nat
  deriving DecidableEq

def Loop.searchDirection (l : Loop) (lastDiscrepancy : Nat) (idBit cmpIdBit : Bool) : Bool :=
  if idBit ≠ cmpIdBit then idBit
  else if l.idBitNumber < lastDiscrepancy then
    l.romByteMask &&& romByte l.romNo l.romByteNumber != 0
  else l.idBitNumber == lastDiscrepancy

/-- The variables behind a bit. `fork` holds where the devices disagree. -/
def Loop.next (l : Loop) (fork direction : Bool) : Loop :=
  let lastZero := if fork && !direction then l.idBitNumber else l.lastZero
  let byte := romByte l.romNo l.romByteNumber
  let mask := l.romByteMask <<< 1
  { idBitNumber := l.idBitNumber + 1
    lastZero
    lastFamilyDiscrepancy :=
      if fork && !direction && lastZero < 9 then lastZero else l.lastFamilyDiscrepancy
    romNo := l.romNo.setIfInBounds l.romByteNumber
      (if direction then byte ||| l.romByteMask else byte &&& ~~~l.romByteMask)
    romByteNumber := if mask = 0 then l.romByteNumber + 1 else l.romByteNumber
    romByteMask := if mask = 0 then 1 else mask }

/-- The loop ends with the last byte or where no device answers; `fuel` is the number of bits. -/
def searchLoop (lastDiscrepancy : Nat) : Nat → Loop → Bus → Loop × Bus
  | 0, l, bus => (l, bus)
  | fuel + 1, l, bus =>
    let idBit := onewireReadBit bus
    let cmpIdBit := onewireReadBit idBit.2
    if idBit.1 = true ∧ cmpIdBit.1 = true then (l, cmpIdBit.2)
    else
      let direction := l.searchDirection lastDiscrepancy idBit.1 cmpIdBit.1
      let l := l.next (idBit.1 == cmpIdBit.1) direction
      let bus := onewireWriteBit direction cmpIdBit.2
      if l.romByteNumber < 8 then searchLoop lastDiscrepancy fuel l bus else (l, bus)

def SearchState.loop (s : SearchState) : Loop where
  idBitNumber := 1
  lastZero := 0
  romByteNumber := 0
  romByteMask := 1
  romNo := s.romNo
  lastFamilyDiscrepancy := s.lastFamilyDiscrepancy

/-- The ROM code found, if any. -/
def onewireSearch (s : SearchState) (bus : Bus) : Option Rom × SearchState × Bus :=
  if s.lastDeviceFlag then (none, s.restart, bus)
  else
    let reset := onewireReset bus
    if ¬reset.1 then (none, s.restart, reset.2)
    else
      let r := searchLoop s.lastDiscrepancy 64 s.loop (onewireWrite searchRom reset.2)
      let s := { s with
        romNo := r.1.romNo
        lastFamilyDiscrepancy := r.1.lastFamilyDiscrepancy }
      if r.1.idBitNumber < 65 then (none, s.restart, r.2)
      else
        let s := { s with
          lastDiscrepancy := r.1.lastZero
          lastDeviceFlag := r.1.lastZero == 0 }
        if romByte s.romNo 0 = 0 then (none, s.restart, r.2)
        else (some s.romNo, s, r.2)

/-- Searches one after the other, with what they find. -/
def searches : Nat → SearchState → Bus → List (Option Rom) × SearchState × Bus
  | 0, s, bus => ([], s, bus)
  | n + 1, s, bus =>
    let r := onewireSearch s bus
    let rest := searches n r.2.1 r.2.2
    (r.1 :: rest.1, rest.2)

/-! ## Bits of a ROM code -/

theorem romBits_getElem? (r : Rom) (i : Nat) (hi : i < 64) :
    (romBits r)[i]? = some (romBit r i) := by
  simp [romBits, hi]

theorem romBits_inj {r t : Rom} (h : romBits r = romBits t) : r = t := by
  refine Vector.ext fun i hi => UInt8.toNat_inj.mp (Nat.eq_of_testBit_eq fun k => ?_)
  by_cases hk : k < 8
  · have hbit : romBit r (8 * i + k) = romBit t (8 * i + k) := by
      have hlt : 8 * i + k < 64 := by omega
      refine Option.some.inj ?_
      rw [← romBits_getElem? r _ hlt, h, romBits_getElem? t _ hlt]
    have hdiv : (8 * i + k) / 8 = i := by omega
    have hmod : (8 * i + k) % 8 = k := by omega
    simpa [romBit, romByte, hdiv, hmod, hi] using hbit
  · have hsmall (b : UInt8) : b.toNat.testBit k = false :=
      Nat.testBit_lt_two_pow (b.toNat_lt.trans_le (Nat.pow_le_pow_right (by decide)
        (Nat.le_of_not_lt hk)))
    rw [hsmall, hsmall]

/-- The variables after `k` bits. -/
structure At (k : Nat) (l : Loop) : Prop where
  number : l.idBitNumber = k + 1
  byte : l.romByteNumber = k / 8
  mask : l.romByteMask = UInt8.ofNat (2 ^ (k % 8))

theorem At.start (s : SearchState) : At 0 s.loop := ⟨rfl, rfl, rfl⟩

theorem At.next {k : Nat} {l : Loop} (h : At k l) (fork direction : Bool) :
    At (k + 1) (l.next fork direction) := by
  have hshift (j : Nat) (hj : j < 8) : UInt8.ofNat (2 ^ j) <<< 1 = UInt8.ofNat (2 ^ (j + 1)) := by
    rw [← UInt8.toNat_inj, UInt8.toNat_shiftLeft, UInt8.toNat_ofNat', UInt8.toNat_ofNat',
      Nat.mod_eq_of_lt (Nat.pow_lt_pow_right (by decide) hj), Nat.pow_succ]
    exact congrArg (· % 256) (Nat.shiftLeft_eq (2 ^ j) 1)
  have hlt := Nat.mod_lt k (show 0 < 8 by decide)
  have hzero : UInt8.ofNat (2 ^ (k % 8 + 1)) = 0 ↔ k % 8 = 7 := by
    constructor
    · intro h0
      by_contra hne
      have hpow : 2 ^ (k % 8 + 1) < 256 := Nat.pow_lt_pow_right (by decide) (show _ < 8 by omega)
      rw [← UInt8.toNat_inj, UInt8.toNat_ofNat_of_lt' hpow] at h0
      exact absurd h0 (Nat.two_pow_pos _).ne'
    · intro h7
      rw [h7]
      rfl
  refine ⟨congrArg (· + 1) h.number, ?_, ?_⟩
  · simp only [Loop.next, h.mask, h.byte, hshift _ hlt, hzero]
    split <;> omega
  · simp only [Loop.next, h.mask, hshift _ hlt, hzero]
    split
    case isTrue h7 =>
      have : (k + 1) % 8 = 0 := by omega
      rw [this]
      rfl
    case isFalse h7 =>
      have : (k + 1) % 8 = k % 8 + 1 := by omega
      rw [this]

/-- A byte in which the bit of a mask is set or cleared. -/
theorem testBit_masked (b : UInt8) (direction : Bool) (i k : Nat) (hi : i < 8) (hk : k < 8) :
    (if direction then b ||| UInt8.ofNat (2 ^ k)
      else b &&& ~~~UInt8.ofNat (2 ^ k)).toNat.testBit i =
      if i = k then direction else b.toNat.testBit i := by
  have hmask : (UInt8.ofNat (2 ^ k)).toNat.testBit i = decide (k = i) := by
    rw [UInt8.toNat_ofNat_of_lt' (Nat.pow_lt_pow_right (by decide) hk), Nat.testBit_two_pow]
  cases direction with
  | true =>
    rw [if_pos rfl, UInt8.toNat_or, Nat.testBit_or, hmask]
    by_cases hik : i = k
    · simp [hik]
    · simp [hik, Ne.symm hik]
  | false =>
    have hnot : (~~~UInt8.ofNat (2 ^ k)).toNat.testBit i = !decide (k = i) := by
      have hbit : (~~~(UInt8.ofNat (2 ^ k)).toBitVec).getLsbD i =
          (decide (i < 8) && !(UInt8.ofNat (2 ^ k)).toBitVec.getLsbD i) := BitVec.getLsbD_not
      rw [decide_eq_true hi, Bool.true_and] at hbit
      exact hbit.trans (congrArg (!·) hmask)
    rw [if_neg Bool.false_ne_true, UInt8.toNat_and, Nat.testBit_and, hnot]
    by_cases hik : i = k
    · simp [hik]
    · simp [hik, Ne.symm hik]

theorem romBit_next {k : Nat} {l : Loop} (h : At k l) (hk : k < 64) (fork direction : Bool)
    (i : Nat) : romBit (l.next fork direction).romNo i =
      if i = k then direction else romBit l.romNo i := by
  have hsize : k / 8 < 8 := by omega
  have hbyte (j : Nat) : romByte (l.next fork direction).romNo j =
      if j = k / 8 then
        if direction then romByte l.romNo (k / 8) ||| UInt8.ofNat (2 ^ (k % 8))
        else romByte l.romNo (k / 8) &&& ~~~UInt8.ofNat (2 ^ (k % 8))
      else romByte l.romNo j := by
    simp only [Loop.next, romByte, h.byte, h.mask, Vector.getElem?_setIfInBounds, if_pos hsize]
    by_cases hj : k / 8 = j
    · rw [if_pos hj, if_pos hj.symm, Option.getD_some]
    · rw [if_neg hj, if_neg (Ne.symm hj)]
  rw [romBit, hbyte]
  by_cases hik : i / 8 = k / 8
  · rw [if_pos hik, testBit_masked _ _ _ _ (Nat.mod_lt i (by decide)) (Nat.mod_lt k (by decide))]
    by_cases hmod : i % 8 = k % 8
    · rw [if_pos hmod, if_pos (by omega)]
    · rw [if_neg hmod, if_neg (fun heq => hmod (congrArg (· % 8) heq)), romBit, hik]
  · rw [if_neg hik, if_neg (fun heq => hik (congrArg (· / 8) heq))]
    rfl

theorem romBits_next {k : Nat} {l : Loop} (h : At k l) (hk : k < 64) (fork direction : Bool) :
    romBits (l.next fork direction).romNo = (romBits l.romNo).set k direction := by
  refine List.ext_getElem (by simp) fun i hi _ => ?_
  rw [romBits_length] at hi
  rw [List.getElem_set]
  simp only [romBits, List.getElem_map, List.getElem_range, romBit_next h hk]
  simp only [eq_comm]

/-! ## The loop goes down once -/

theorem searchDirection_eq {k : Nat} {l : Loop} (h : At k l) (last : Nat) (b c : Bool) :
    l.searchDirection last b c =
      if b ≠ c then b else choice last (k + 1) (romBit l.romNo k) := by
  rw [Loop.searchDirection, h.number, h.byte, h.mask, and_mask _ _ (Nat.mod_lt k (by decide))]
  rfl

/-- How a loop ends that has gone down as far as `taken`. -/
inductive Ends (taken : Word) (r : Loop) : Option (Word × Nat) → Prop
  | found {w : Word} (number : r.idBitNumber = 65) (rom : romBits r.romNo = taken ++ w) :
    Ends taken r (some (w, r.lastZero))
  | stuck (number : r.idBitNumber < 65) : Ends taken r none

theorem Ends.cons {taken : Word} {b : Bool} {r : Loop} {found : Option (Word × Nat)}
    (h : Ends (taken ++ [b]) r found) : Ends taken r (found.map fun p => (b :: p.1, p.2)) := by
  cases h with
  | found number rom => exact .found number (by rw [rom, List.append_assoc]; rfl)
  | stuck number => exact .stuck number

section Loop

variable {last n k : Nat} {l : Loop} {bus : Bus}

theorem romBits_taken (h : At k l) (hk : k < 64) (fork b : Bool) :
    (romBits (l.next fork b).romNo).take (k + 1) = (romBits l.romNo).take k ++ [b] ∧
      (romBits (l.next fork b).romNo).drop (k + 1) = (romBits l.romNo).drop (k + 1) := by
  have hlength : k < (romBits l.romNo).length := by rwa [romBits_length]
  rw [romBits_next h hk, List.drop_set_of_lt (Nat.lt_succ_self k)]
  refine ⟨?_, rfl⟩
  have hmin : min k 64 = k := by omega
  rw [List.take_set, List.take_succ_eq_append_getElem hlength,
    List.set_append_right _ _ (by simp [hmin])]
  simp [hmin]

theorem descend_next (h : At k l) (hk : k < 64) (hs : Searching (n + 1) bus) (b fork : Bool)
    (hfork : fork =
      (decide (below false bus.remaining = []) == decide (below true bus.remaining = [])))
    (hb : b = if fork then choice last (k + 1) (romBit l.romNo k)
      else decide (below false bus.remaining = []))
    (hany : ¬(below false bus.remaining = [] ∧ below true bus.remaining = [])) :
    descend last (n + 1) (k + 1) bus.remaining ((romBits l.romNo).drop k) l.lastZero =
      (descend last n (k + 1 + 1) (decided b bus).remaining
        ((romBits (l.next fork b).romNo).drop (k + 1)) (l.next fork b).lastZero).map
          fun p => (b :: p.1, p.2) := by
  have htail : ((romBits l.romNo).drop k).tail = (romBits (l.next fork b).romNo).drop (k + 1) := by
    rw [(romBits_taken h hk fork b).2, List.tail_drop]
  have hhead : ((romBits l.romNo).drop k).headD false = romBit l.romNo k := by
    rw [List.headD_eq_head?_getD, List.head?_drop, romBits_getElem? _ _ hk]
    rfl
  have hzero : (l.next fork b).lastZero = if fork && !b then k + 1 else l.lastZero := by
    rw [← h.number]
    rfl
  rw [(hs.decided b).2, ← htail, hzero]
  cases fork with
  | true =>
    have hboth : below false bus.remaining ≠ [] ∧ below true bus.remaining ≠ [] := by
      have := decide_eq_decide.mp (beq_iff_eq.mp hfork.symm)
      tauto
    obtain ⟨hleft, hright⟩ := hboth
    rw [if_pos rfl] at hb
    rw [descend_fork hleft hright (by rw [hhead, ← hb])]
    cases b <;> rfl
  | false =>
    rw [if_neg Bool.false_ne_true] at hb
    by_cases hleft : below false bus.remaining = []
    · rw [decide_eq_true hleft] at hb
      subst hb
      rw [descend_right hleft fun hright => hany ⟨hleft, hright⟩]
      rfl
    · rw [decide_eq_false hleft] at hb
      subst hb
      have hright : below true bus.remaining = [] := by
        by_contra hright
        rw [decide_eq_false hleft, decide_eq_false hright] at hfork
        cases hfork
      rw [descend_left hleft hright]
      rfl

/-- One turn of the loop, with what the devices answer. -/
theorem searchLoop_succ (h : At k l) (hs : Searching (n + 1) bus) :
    searchLoop last (n + 1) l bus =
      if below false bus.remaining = [] ∧ below true bus.remaining = [] then
        (l, (onewireReadBit (onewireReadBit bus).2).2)
      else
        let fork :=
          decide (below false bus.remaining = []) == decide (below true bus.remaining = [])
        let b := if fork then choice last (k + 1) (romBit l.romNo k)
          else decide (below false bus.remaining = [])
        if (l.next fork b).romByteNumber < 8 then
          searchLoop last n (l.next fork b) (decided b bus)
        else (l.next fork b, decided b bus) := by
  rw [searchLoop]
  simp only [readBit_fst hs, readBit_readBit_fst hs, searchDirection_eq h, decide_eq_true_eq,
    decided]
  congr 1
  by_cases hleft : below false bus.remaining = [] <;>
    by_cases hright : below true bus.remaining = [] <;> simp [hleft, hright]

/-- Where no device answers, no way goes down. -/
theorem ends_none {previous : Word} {taken : Word} (hk : k < 64) (h : At k l)
    (hnone : below false bus.remaining = [] ∧ below true bus.remaining = []) :
    (onewireReadBit (onewireReadBit bus).2).2.roms = bus.roms ∧
      (onewireReadBit (onewireReadBit bus).2).2.low = bus.low ∧
      Ends taken l (descend last (n + 1) (k + 1) bus.remaining previous l.lastZero) := by
  rw [descend, if_pos hnone.1, if_pos hnone.2]
  refine ⟨?_, rfl, .stuck (by rw [h.number]; omega)⟩
  rw [onewireReadBit, slot_snd, roms_advance, onewireReadBit, slot_snd, roms_advance]

/-- The loop ends as one way down through the codes of the devices does. -/
theorem searchLoop_ends (hn : k + (n + 1) = 64) (h : At k l) (hs : Searching (n + 1) bus) :
    (searchLoop last (n + 1) l bus).2.roms = bus.roms ∧
      (searchLoop last (n + 1) l bus).2.low = bus.low ∧
      Ends ((romBits l.romNo).take k) (searchLoop last (n + 1) l bus).1
        (descend last (n + 1) (k + 1) bus.remaining ((romBits l.romNo).drop k) l.lastZero) := by
  induction n generalizing k l bus with
  | zero =>
    rw [searchLoop_succ h hs]
    by_cases hnone : below false bus.remaining = [] ∧ below true bus.remaining = []
    · rw [if_pos hnone]
      exact ends_none (by omega) h hnone
    · rw [if_neg hnone]
      extract_lets fork b
      have hnext := h.next fork b
      have hend : ¬(l.next fork b).romByteNumber < 8 := by
        rw [hnext.byte]
        omega
      rw [if_neg hend, descend_next h (by omega) hs b fork rfl rfl hnone]
      refine ⟨decided_roms b bus, rfl, Ends.cons ?_⟩
      rw [← (romBits_taken h (by omega) fork b).1]
      refine .found (by rw [hnext.number]; omega) ?_
      rw [List.append_nil, List.take_of_length_le (by rw [romBits_length]; omega)]
  | succ n ih =>
    rw [searchLoop_succ h hs]
    by_cases hnone : below false bus.remaining = [] ∧ below true bus.remaining = []
    · rw [if_pos hnone]
      exact ends_none (by omega) h hnone
    · rw [if_neg hnone]
      extract_lets fork b
      have hnext := h.next fork b
      have hmore : (l.next fork b).romByteNumber < 8 := by
        rw [hnext.byte]
        omega
      rw [if_pos hmore, descend_next h (by omega) hs b fork rfl rfl hnone]
      obtain ⟨hroms, hlow, hends⟩ := ih (by omega) hnext (hs.decided b).1
      refine ⟨hroms.trans (decided_roms b bus), hlow, Ends.cons ?_⟩
      rw [← (romBits_taken h (by omega) fork b).1]
      exact hends

end Loop

/-! ## Searches one after the other -/

/-- The codes of the devices as the words of a descent. -/
def words (bus : Bus) : List Word := bus.roms.map romBits

theorem words_sized (bus : Bus) : Sized 64 (words bus) := by
  intro w hw
  obtain ⟨r, -, rfl⟩ := List.mem_map.mp hw
  exact romBits_length r

theorem romBits_mem_words {bus : Bus} {r : Rom} : romBits r ∈ words bus ↔ r ∈ bus.roms := by
  rw [words, List.mem_map]
  exact ⟨fun ⟨t, ht, h⟩ => romBits_inj h ▸ ht, fun h => ⟨r, h, rfl⟩⟩

/-- The next search is like the first one. -/
structure Fresh (s : SearchState) : Prop where
  discrepancy : s.lastDiscrepancy = 0
  flag : s.lastDeviceFlag = false

theorem fresh_restart (s : SearchState) : Fresh s.restart := ⟨rfl, rfl⟩

/-- The state after a search that has found a code. -/
structure Standing (S : List Word) (s : SearchState) (r : Rom) : Prop where
  rom : s.romNo = r
  discrepancy : s.lastDiscrepancy = turn 1 S (romBits r)
  flag : s.lastDeviceFlag = (turn 1 S (romBits r) == 0)

/-- A wire that answers a reset, with devices whose family codes are not 0. -/
structure Answers (bus : Bus) : Prop where
  high : bus.low + 1 < retries
  family : ∀ r ∈ bus.roms, romByte r 0 ≠ 0

section Searches

variable {s : SearchState} {bus : Bus}

theorem search_empty (h : bus.roms = []) :
    (onewireSearch s bus).1 = none ∧ Fresh (onewireSearch s bus).2.1 ∧
      (onewireSearch s bus).2.2.roms = bus.roms ∧ (onewireSearch s bus).2.2.low = bus.low := by
  have hdevices : bus.devices = [] := List.map_eq_nil_iff.mp h
  have hreset : (onewireReset bus).1 = false ∧ (onewireReset bus).2.roms = bus.roms ∧
      (onewireReset bus).2.low = bus.low := by
    rw [onewireReset]
    split
    · exact ⟨by simp [hdevices], by simp [Bus.roms, hdevices], rfl⟩
    · exact ⟨rfl, rfl, rfl⟩
  rw [onewireSearch]
  split
  · exact ⟨rfl, fresh_restart s, rfl, rfl⟩
  · rw [if_pos (by rw [hreset.1]; exact Bool.false_ne_true)]
    exact ⟨rfl, fresh_restart s, hreset.2⟩

/-- After the last device a search finds nothing. -/
theorem search_last (h : s.lastDeviceFlag = true) :
    onewireSearch s bus = (none, s.restart, bus) := by
  rw [onewireSearch, if_pos h]

/-- A search finds the code to which the way down leads. -/
theorem search_found {r : Rom} (hbus : Answers bus) (hflag : s.lastDeviceFlag = false)
    (hr : r ∈ bus.roms)
    (hdown : descend s.lastDiscrepancy 64 1 (words bus) (romBits s.romNo) 0 =
      some (romBits r, turn 1 (words bus) (romBits r))) :
    (onewireSearch s bus).1 = some r ∧ Standing (words bus) (onewireSearch s bus).2.1 r ∧
      (onewireSearch s bus).2.2.roms = bus.roms ∧ (onewireSearch s bus).2.2.low = bus.low := by
  have hreset : (onewireReset bus).1 = true := by
    rw [onewireReset, if_pos hbus.high]
    have : bus.devices ≠ [] := fun hnil => by
      rw [Bus.roms, hnil] at hr
      cases hr
    simpa using this
  obtain ⟨hsearching, hremaining⟩ := reset_search hbus.high
  obtain ⟨hroms, hlow, hends⟩ :=
    @searchLoop_ends s.lastDiscrepancy _ _ _ _ rfl (At.start s) hsearching
  rw [onewireWrite_roms, onewireReset_snd hbus.high, roms_advance] at hroms
  rw [onewireWrite_low, onewireReset_snd hbus.high, low_advance] at hlow
  rw [hremaining, List.take_zero, List.drop_zero] at hends
  rw [← onewireReset_snd hbus.high] at hroms hlow
  simp only [onewireSearch, hflag, hreset, not_true_eq_false, Bool.false_eq_true, if_false]
  generalize hloop : searchLoop s.lastDiscrepancy 64 s.loop
    (onewireWrite searchRom (onewireReset bus).2) = out at *
  have hdown' : descend s.lastDiscrepancy (63 + 1) (0 + 1) (bus.roms.map romBits)
      (romBits s.loop.romNo) s.loop.lastZero =
        some (romBits r, turn 1 (words bus) (romBits r)) := hdown
  rw [hdown'] at hends
  obtain ⟨hnumber, hrom, hzero⟩ : out.1.idBitNumber = 65 ∧ out.1.romNo = r ∧
      out.1.lastZero = turn 1 (words bus) (romBits r) := by
    generalize hz : turn 1 (words bus) (romBits r) = z at hends
    cases hends with
    | found number rom => exact ⟨number, romBits_inj rom, rfl⟩
  rw [if_neg (by omega), hrom, if_neg (hbus.family r hr)]
  exact ⟨rfl, ⟨rfl, hzero, congrArg (· == 0) hzero⟩, hroms, hlow⟩

theorem searches_succ (n : Nat) (s : SearchState) (bus : Bus) : searches (n + 1) s bus =
    ((onewireSearch s bus).1 ::
      (searches n (onewireSearch s bus).2.1 (onewireSearch s bus).2.2).1,
      (searches n (onewireSearch s bus).2.1 (onewireSearch s bus).2.2).2) := rfl

/-- From a code on, the searches find those behind it, one each, and then nothing. -/
theorem searches_standing {before : List Rom} {r : Rom} {behind : List Rom} (hbus : Answers bus)
    (hlist : (before ++ r :: behind).map romBits = inOrder 64 (words bus))
    (hs : Standing (words bus) s r) :
    (searches (behind.length + 1) s bus).1 = behind.map some ++ [none] ∧
      Fresh (searches (behind.length + 1) s bus).2.1 := by
  induction behind generalizing before s r bus with
  | nil =>
    have hlast : (inOrder 64 (words bus)).getLast? = some (romBits r) := by
      rw [← hlist]
      simp
    have hflag : s.lastDeviceFlag = true := by
      rw [hs.flag, turn_last (words_sized bus) hlast]
      rfl
    rw [List.length_nil, searches_succ, search_last hflag]
    exact ⟨rfl, fresh_restart s⟩
  | cons t behind ih =>
    have hchain := inOrder_leads (words_sized bus) Nat.one_ne_zero
    rw [← hlist, List.map_append, List.map_cons, List.map_cons,
      List.isChain_append_cons_cons] at hchain
    obtain ⟨hturn, hdown⟩ := hchain.2.1
    have hmem : t ∈ bus.roms := by
      rw [← romBits_mem_words, ← mem_inOrder (words_sized bus), ← hlist]
      simp
    have hdown0 := hdown 0
    rw [← hs.discrepancy, lastOf_zero, ← hs.rom] at hdown0
    have hflag : s.lastDeviceFlag = false := by
      rw [hs.flag]
      exact beq_false_of_ne hturn
    obtain ⟨hfound, hstanding, hroms, hlow⟩ := search_found hbus hflag hmem hdown0
    have hwords : words (onewireSearch s bus).2.2 = words bus := congrArg (·.map romBits) hroms
    have hbus' : Answers (onewireSearch s bus).2.2 := ⟨hlow ▸ hbus.high, hroms ▸ hbus.family⟩
    rw [← hwords] at hstanding
    have hlist' : (before ++ [r] ++ t :: behind).map romBits =
        inOrder 64 (words (onewireSearch s bus).2.2) := by
      rw [hwords, ← hlist, List.append_assoc]
      rfl
    obtain ⟨hrest, hfresh⟩ := ih hbus' hlist' hstanding
    rw [List.length_cons, searches_succ]
    refine ⟨?_, hfresh⟩
    rw [hfound, hrest]
    rfl

/-- A first search finds the first code. -/
theorem search_first {r : Rom} {behind : List Rom} (hbus : Answers bus) (hs : Fresh s)
    (hlist : (r :: behind).map romBits = inOrder 64 (words bus)) :
    (onewireSearch s bus).1 = some r ∧ Standing (words bus) (onewireSearch s bus).2.1 r ∧
      (onewireSearch s bus).2.2.roms = bus.roms ∧ (onewireSearch s bus).2.2.low = bus.low := by
  refine search_found hbus hs.flag ?_ ?_
  · rw [← romBits_mem_words, ← mem_inOrder (words_sized bus), ← hlist]
    simp
  · rw [hs.discrepancy, descend_first (words_sized bus) Nat.zero_lt_one hlist.symm, lastOf_zero]

/-- The codes of the devices, in the order of their bits. -/
theorem exists_inOrder (bus : Bus) :
    ∃ codes : List Rom, codes.map romBits = inOrder 64 (words bus) := by
  have hrange : inOrder 64 (words bus) ∈ Set.range (List.map romBits) := by
    rw [Set.range_list_map]
    intro w hw
    rw [mem_inOrder (words_sized bus), words, List.mem_map] at hw
    obtain ⟨r, -, rfl⟩ := hw
    exact ⟨r, rfl⟩
  exact hrange

/-- Searches one after the other find every device of the wire, each of its codes once, then
nothing, and the next search is a first one again. -/
theorem searches_enumerate (hbus : Answers bus) (hs : Fresh s) :
    ∃ codes : List Rom, codes.Nodup ∧ (∀ r, r ∈ codes ↔ r ∈ bus.roms) ∧
      (searches (codes.length + 1) s bus).1 = codes.map some ++ [none] ∧
      Fresh (searches (codes.length + 1) s bus).2.1 := by
  obtain ⟨codes, hcodes⟩ := exists_inOrder bus
  refine ⟨codes, ?_, fun r => ?_, ?_⟩
  · refine List.Nodup.of_map romBits ?_
    rw [hcodes]
    exact inOrder_nodup 64 _
  · rw [← romBits_mem_words, ← mem_inOrder (words_sized bus), ← hcodes, List.mem_map]
    exact ⟨fun h => ⟨r, h, rfl⟩, fun ⟨t, ht, h⟩ => romBits_inj h ▸ ht⟩
  · cases codes with
    | nil =>
      have hroms : bus.roms = [] := by
        have := (inOrder_eq_nil (words_sized bus)).mp hcodes.symm
        exact List.map_eq_nil_iff.mp this
      obtain ⟨hnone, hfresh, -⟩ := search_empty (s := s) hroms
      rw [List.length_nil, searches_succ]
      exact ⟨by rw [hnone]; rfl, hfresh⟩
    | cons r behind =>
      obtain ⟨hfound, hstanding, hroms, hlow⟩ := search_first hbus hs hcodes
      have hwords : words (onewireSearch s bus).2.2 = words bus := congrArg (·.map romBits) hroms
      have hbus' : Answers (onewireSearch s bus).2.2 := ⟨hlow ▸ hbus.high, hroms ▸ hbus.family⟩
      rw [← hwords] at hstanding
      have hcodes' : ([] ++ r :: behind).map romBits =
          inOrder 64 (words (onewireSearch s bus).2.2) := by
        rw [hwords]
        exact hcodes
      obtain ⟨hrest, hfresh⟩ := searches_standing hbus' hcodes' hstanding
      rw [List.length_cons, searches_succ]
      refine ⟨?_, hfresh⟩
      rw [hfound, hrest]
      rfl

def twoSensors : Bus :=
  ⟨0, [⟨#v[0x28, 1, 0, 0, 0, 0, 0, 41], .idle⟩, ⟨#v[0x28, 2, 0, 0, 0, 0, 0, 112], .idle⟩]⟩

theorem answers_twoSensors : Answers twoSensors :=
  ⟨by decide, List.forall_mem_cons.mpr ⟨by decide, List.forall_mem_singleton.mpr (by decide)⟩⟩

theorem searches_twoSensors : Fresh onewireResetSearch ∧ Answers twoSensors ∧
    ∃ codes : List Rom, codes.Nodup ∧ (∀ r, r ∈ codes ↔ r ∈ twoSensors.roms) ∧
      (searches (codes.length + 1) onewireResetSearch twoSensors).1 = codes.map some ++ [none] ∧
      Fresh (searches (codes.length + 1) onewireResetSearch twoSensors).2.1 :=
  ⟨⟨rfl, rfl⟩, answers_twoSensors, searches_enumerate answers_twoSensors ⟨rfl, rfl⟩⟩

end Searches

end NodeMcu.OneWire.Search
