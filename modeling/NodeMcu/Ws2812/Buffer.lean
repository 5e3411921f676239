import NodeMcu.Lib.Block
import NodeMcu.Lib.Run
import Mathlib.Algebra.Group.Int.Defs
import Mathlib.Algebra.Group.Nat.Defs
import Mathlib.Tactic.SplitIfs

namespace NodeMcu.Ws2812.Buffer

open NodeMcu.Lib.Block NodeMcu.Lib.Run

/-! ## The buffer of a strip of LEDs -/

/-- The value of an `int` that is computed as `n`. -/
def wrapInt (n : Int) : Int := (n + 2 ^ 31) % 2 ^ 32 - 2 ^ 31

/-- An integer as a `size_t`. -/
def toSize (n : Int) : Nat := (n % 2 ^ 32).toNat

/-- The bytes of the record, and where in it the values begin. -/
def sizeofBuffer : Nat := 12
def offsetofValues : Nat := 9

structure LedBuffer where
  size : Int
  colorsPerLed : UInt8
  values : List UInt8
  deriving DecidableEq

inductive Err
  | argument (index : Nat) (msg : String)
  | raised (msg : String)
  deriving DecidableEq

abbrev Answer := Except Err (List UInt8)

/-- There is no buffer where the record does not fit what is allocated. -/
def newBuffer (leds colorsPerLed : Int32) (alloc : Bool) (junk : Nat → UInt8) :
    Except Err (Option LedBuffer) :=
  if ¬ 0 < leds.toInt then .error (.argument 1 "should be a positive integer")
  else if ¬ 0 < colorsPerLed.toInt then .error (.argument 2 "should be a positive integer")
  else
    let size := toSize (sizeofBuffer + wrapInt (colorsPerLed.toInt * leds.toInt))
    if !alloc then .error (.raised "not enough memory")
    else if size < offsetofValues then .ok none
    else .ok (some ⟨leds.toInt, UInt8.ofNat colorsPerLed.toInt.toNat,
      fresh junk (size - offsetofValues)⟩)

/-- The arguments from some index on, where one that is missing or no number counts as none. -/
abbrev Numbers := Nat → Option Int32

/-- A number in a byte. What is no number counts as 0 in a table. -/
def byteOf (x : Option Int32) : UInt8 := (x.getD 0).toUInt32.toUInt8

def firstMissing (args : Numbers) (n : Nat) : Option Nat :=
  (List.range n).find? fun i => (args i).isNone

/-- The LEDs from `p` on. -/
def fillLeds (colors : List UInt8) : Nat → Nat → List UInt8 → Option (List UInt8)
  | 0, _, values => some values
  | n + 1, p, values => (put values p colors).bind (fillLeds colors n (p + colors.length))

def bufferFill (b : LedBuffer) (args : Numbers) : Option (LedBuffer × Answer) :=
  match firstMissing args b.colorsPerLed.toNat with
  | some i => some (b, .error (.argument (2 + i) "number expected"))
  | none =>
    let colors := (List.range b.colorsPerLed.toNat).map fun i => byteOf (args i)
    (fillLeds colors b.size.toNat 0 b.values).map fun values =>
      ({ b with values := values }, .ok [])

def fadeByte (fade : Int32) (v : UInt8) : UInt8 := UInt8.ofNat (v.toNat / fade.toInt.toNat)

def bufferFade (b : LedBuffer) (fade : Int32) : Option (LedBuffer × Answer) :=
  if ¬ 0 < fade.toInt then
    some (b, .error (.argument 2 "fade value should be a strict positive number"))
  else
    let n := (wrapInt (b.size * b.colorsPerLed.toNat)).toNat
    (slice b.values 0 n).bind fun bytes =>
      (put b.values 0 (bytes.map (fadeByte fade))).map fun values =>
        ({ b with values := values }, .ok [])

/-- The LED of an argument. -/
def checkLed (b : LedBuffer) (arg : Int32) : Except Err Int :=
  let led := wrapInt (arg.toInt - 1)
  if 0 ≤ led ∧ led < b.size then .ok led else .error (.argument 2 "index out of range")

/-- The index of the first colour of an LED. -/
def firstColor (b : LedBuffer) (led : Int) : Int := wrapInt (b.colorsPerLed.toNat * led)

/-- The bytes at an index and those after it, as far as an `int` can tell. -/
def loadAt (values : List UInt8) (start : Int) (n : Nat) : Option (List UInt8) :=
  if n = 0 then some []
  else if start < 0 ∨ 2 ^ 31 < start + n then none
  else slice values start.toNat n

def bufferGet (b : LedBuffer) (arg : Int32) : Option (LedBuffer × Answer) :=
  match checkLed b arg with
  | .error e => some (b, .error e)
  | .ok led =>
    (loadAt b.values (firstColor b led) b.colorsPerLed.toNat).map fun colors => (b, .ok colors)

def storeAt (values : List UInt8) (start : Int) (bytes : List UInt8) : Option (List UInt8) :=
  if bytes = [] then some values
  else if start < 0 then none
  else put values start.toNat bytes

/-- The colours of an LED are stored one by one, up to the first that is none. -/
def storeLoop (start : Int) (arg : Nat → Option UInt8) :
    Nat → Nat → List UInt8 → Option (List UInt8 × Option Nat)
  | 0, _, values => some (values, none)
  | n + 1, i, values =>
    match arg i with
    | none => some (values, some i)
    | some v => (storeAt values (wrapInt (start + i)) [v]).bind (storeLoop start arg n (i + 1))

inductive SetValue
  | table (t : Numbers)
  | string (s : List UInt8)
  | numbers (args : Numbers)

def tableColor (t : Numbers) (i : Nat) : Option UInt8 := some (byteOf (t i))

def numberColor (args : Numbers) (i : Nat) : Option UInt8 := (args i).map fun x => byteOf (some x)

def bufferSet (b : LedBuffer) (arg : Int32) (v : SetValue) : Option (LedBuffer × Answer) :=
  match checkLed b arg with
  | .error e => some (b, .error e)
  | .ok led =>
    let start := firstColor b led
    match v with
    | .table t =>
      (storeLoop start (tableColor t) b.colorsPerLed.toNat 0 b.values).map
        fun result => ({ b with values := result.1 }, .ok [])
    | .string s =>
      if toSize (firstColor b b.size) < (toSize start + s.length) % 2 ^ 32 then
        some (b, .error (.raised "string size will exceed strip length"))
      else (storeAt b.values start s).map fun values => ({ b with values := values }, .ok [])
    | .numbers args =>
      (storeLoop start (numberColor args) b.colorsPerLed.toNat 0 b.values).map fun result =>
        ({ b with values := result.1 },
          match result.2 with
          | none => .ok []
          | some i => .error (.argument (3 + i) "number expected"))

/-- `ws2812_write` sends a byte before it compares its pointers. -/
def bufferWrite (b : LedBuffer) : Option (LedBuffer × Answer) :=
  (slice b.values 0 (max 1 (toSize (firstColor b b.size)))).map fun pixels => (b, .ok pixels)

inductive Call
  | fill (args : Numbers)
  | fade (fade : Int32)
  | get (led : Int32)
  | set (led : Int32) (v : SetValue)
  | write

def handle (b : LedBuffer) : Call → Option (LedBuffer × Answer)
  | .fill args => bufferFill b args
  | .fade fade => bufferFade b fade
  | .get led => bufferGet b led
  | .set led v => bufferSet b led v
  | .write => bufferWrite b

/-! ## What a strip is to show -/

/-- The colours of the LEDs. -/
abbrev Strip := Nat → Nat → UInt8

/-- The numbers that a buffer is made for. -/
structure Dims where
  leds : Int32
  colors : Int32
  junk : Nat → UInt8
  leds_pos : 0 < leds.toInt
  colors_pos : 0 < colors.toInt

namespace Dims

variable (d : Dims)

def n : Nat := d.leds.toInt.toNat

def c : Nat := d.colors.toInt.toNat

/-- Whether an argument is the number of an LED. -/
def HasLed (led : Int32) : Prop := 1 ≤ led.toInt ∧ led.toInt ≤ d.leds.toInt

/-- The index of the LED of a number. -/
def index (led : Int32) : Nat := (led.toInt - 1).toNat

/-- The calls that are not refused. -/
def Accepts : Call → Prop
  | .fill args => ∀ j, j < d.c → (args j).isSome
  | .fade fade => 0 < fade.toInt
  | .get led => d.HasLed led
  | .set led (.table _) => d.HasLed led
  | .set led (.string s) => d.HasLed led ∧ index led * d.c + s.length ≤ d.n * d.c
  | .set led (.numbers args) => d.HasLed led ∧ ∀ j, j < d.c → (args j).isSome
  | .write => True

instance (led : Int32) : Decidable (d.HasLed led) := inferInstanceAs (Decidable (_ ∧ _))

instance : ∀ call : Call, Decidable (d.Accepts call)
  | .fill args => inferInstanceAs (Decidable (∀ j, j < d.c → (args j).isSome))
  | .fade fade => inferInstanceAs (Decidable (0 < fade.toInt))
  | .get led => inferInstanceAs (Decidable (d.HasLed led))
  | .set led (.table _) => inferInstanceAs (Decidable (d.HasLed led))
  | .set _ (.string _) => inferInstanceAs (Decidable (_ ∧ _ ≤ _))
  | .set led (.numbers args) =>
    inferInstanceAs (Decidable (d.HasLed led ∧ ∀ j, j < d.c → (args j).isSome))
  | .write => inferInstanceAs (Decidable True)

/-- What a call does to the colours. -/
def stored (s : Strip) : Call → Strip
  | .fill args => fun _ j => byteOf (args j)
  | .fade fade => fun i j => fadeByte fade (s i j)
  | .set led (.table t) => fun i j => if i = index led then byteOf (t j) else s i j
  | .set led (.numbers args) => fun i j => if i = index led then byteOf (args j) else s i j
  | .set led (.string bytes) => fun i j =>
    if index led ≤ i then (bytes[(i - index led) * d.c + j]?).getD (s i j) else s i j
  | _ => s

def next (s : Strip) (call : Call) : Strip :=
  if d.Accepts call then d.stored s call else s

end Dims

/-- The buffer, and what the strip is to show. -/
structure Sys where
  buffer : Option LedBuffer
  strip : Strip

def step (d : Dims) (s : Sys) (call : Call) : Sys :=
  ⟨(s.buffer.bind (handle · call)).map Prod.fst, d.next s.strip call⟩

/-- The buffer as it is made, which shows whatever its memory held. -/
def start (d : Dims) : Sys where
  buffer :=
    match newBuffer d.leds d.colors true d.junk with
    | .error _ => none
    | .ok b => b
  strip := fun i j => d.junk (i * d.c + j)

/-- No byte outside the values is accessed, the colours that are got are those of the strip, and
a set that is refused changes nothing. -/
def Lawful (d : Dims) (s : Sys) (call : Call) : Prop :=
  match s.buffer.bind (handle · call) with
  | none => False
  | some (b, answer) =>
    (∀ led, call = .get led → d.HasLed led →
      answer = .ok ((List.range d.c).map (s.strip (Dims.index led)))) ∧
    ∀ led v e, call = .set led v → answer = .error e → s.buffer = some b

/-! ## When it is met -/

/-- A number of colours fits a byte, and an index of a colour an `int`. -/
def Fits (d : Dims) : Prop := d.c ≤ 255 ∧ d.n * d.c < 2 ^ 31

/-- The colours before an argument that is no number are those the LED has, and a string is not
so long that its end wraps to an index of a colour. -/
def Sound (d : Dims) (s : Sys) : Call → Prop
  | .set led (.string bytes) => d.HasLed led →
    Dims.index led * d.c + bytes.length < 2 ^ 32 ∨
      d.n * d.c < (Dims.index led * d.c + bytes.length) % 2 ^ 32
  | .set led (.numbers args) => d.HasLed led →
    ∀ k, firstMissing args d.c = some k →
      ∀ j, j < k → byteOf (args j) = s.strip (Dims.index led) j
  | _ => True

/-- The values begin with the colours of the strip. -/
structure Shows (d : Dims) (b : LedBuffer) (s : Strip) : Prop where
  size : b.size = d.n
  colors : b.colorsPerLed.toNat = d.c
  length : b.values.length = d.n * d.c + 3
  cell : ∀ i j, i < d.n → j < d.c → b.values[i * d.c + j]? = some (s i j)

/-! ## Indices -/

theorem wrapInt_of_lt {n : Int} (hlow : -2 ^ 31 ≤ n) (hhigh : n < 2 ^ 31) : wrapInt n = n := by
  rw [wrapInt]
  omega

theorem toSize_of_lt {n : Nat} (h : n < 2 ^ 32) : toSize n = n := by
  rw [toSize]
  omega

/-- The colours of an LED lie before those of the later ones. -/
theorem row_le {n i : Nat} (c : Nat) (hi : i < n) : i * c + c ≤ n * c := by
  rw [← Nat.succ_mul]
  exact Nat.mul_le_mul_right c hi

theorem cell_lt {n c i j : Nat} (hi : i < n) (hj : j < c) : i * c + j < n * c :=
  Nat.lt_of_lt_of_le (Nat.add_lt_add_left hj _) (row_le c hi)

/-- Where a colour lies among the first `m` of an LED. -/
theorem cell_mem_iff {c i j l m : Nat} (hj : j < c) (hm : m ≤ c) :
    l * c ≤ i * c + j ∧ i * c + j < l * c + m ↔ i = l ∧ j < m := by
  obtain hlt | rfl | hgt := Nat.lt_trichotomy i l
  · have hrow := row_le c hlt
    omega
  · omega
  · have hrow := row_le c hgt
    omega

/-! ## The loops -/

theorem firstMissing_none_iff {args : Numbers} {n : Nat} :
    firstMissing args n = none ↔ ∀ j, j < n → (args j).isSome := by
  rw [firstMissing, List.find?_range_eq_none]
  simp only [Bool.not_eq_true', Option.isNone_eq_false_iff]

theorem firstMissing_some {args : Numbers} {n k : Nat} (h : firstMissing args n = some k) :
    k < n ∧ args k = none ∧ ∀ j, j < k → (args j).isSome := by
  obtain ⟨hk, hlt, hbefore⟩ := List.find?_range_eq_some.mp h
  simp only [Bool.not_eq_true', Option.isNone_eq_false_iff] at hbefore
  exact ⟨List.mem_range.mp hlt, Option.isNone_iff_eq_none.mp hk, hbefore⟩

theorem not_all_of_missing {args : Numbers} {n k : Nat} (h : firstMissing args n = some k) :
    ¬ ∀ j, j < n → (args j).isSome := by
  intro hall
  cases h.symm.trans (firstMissing_none_iff.mpr hall)

theorem fillLeds_spec {colors : List UInt8} (n p : Nat) (values : List UInt8)
    (h : p + n * colors.length ≤ values.length) :
    ∃ values', fillLeds colors n p values = some values' ∧ values'.length = values.length ∧
      ∀ k, values'[k]? = if p ≤ k ∧ k < p + n * colors.length then
        colors[(k - p) % colors.length]? else values[k]? := by
  induction n generalizing p values with
  | zero =>
    refine ⟨values, rfl, rfl, ?_⟩
    intro k
    rw [if_neg (by omega)]
  | succ n ih =>
    rw [Nat.succ_mul] at *
    have hput : put values p colors = some _ := put_of_le (by omega)
    obtain ⟨values', hfill, hlength, hcell⟩ := ih (p + colors.length) _
      (by rw [put_length hput]; omega)
    refine ⟨values', ?_, hlength.trans (put_length hput), ?_⟩
    · rw [fillLeds, hput]
      exact hfill
    · intro k
      rw [hcell, getElem?_put hput]
      obtain hlt | hge := Nat.lt_or_ge k (p + colors.length)
      · rw [if_neg (by omega)]
        split_ifs
        · rw [Nat.mod_eq_of_lt (by omega)]
        · omega
        · omega
        · rfl
      · rw [if_neg (by omega : ¬ (p ≤ k ∧ k < p + colors.length))]
        split_ifs
        · rw [Nat.mod_eq_sub_mod (by omega : k - p ≥ colors.length), Nat.sub_sub]
        · omega
        · omega
        · rfl

theorem storeAt_spec (start : Nat) (bytes values : List UInt8)
    (h : start + bytes.length ≤ values.length) :
    ∃ values', storeAt values start bytes = some values' ∧ values'.length = values.length ∧
      ∀ k, values'[k]? = if start ≤ k ∧ k < start + bytes.length then bytes[k - start]?
        else values[k]? := by
  rw [storeAt]
  split_ifs with hempty hneg
  · refine ⟨values, rfl, rfl, ?_⟩
    intro k
    rw [hempty, List.length_nil, if_neg (by omega)]
  · omega
  · have hput : put values start bytes = some _ := put_of_le h
    exact ⟨_, hput, put_length hput, getElem?_put hput⟩

/-- The values with the arguments from `first` to `stop` stored from an index on. -/
structure Stored (start : Nat) (arg : Nat → Option UInt8) (first stop : Nat)
    (values values' : List UInt8) : Prop where
  length : values'.length = values.length
  cell : ∀ k, values'[k]? =
    if start + first ≤ k ∧ k < start + stop then arg (k - start) else values[k]?

/-- A loop stores the arguments that are there. -/
theorem storeLoop_prefix (start : Nat) (arg : Nat → Option UInt8) (m n i : Nat)
    (values : List UInt8) (hall : ∀ j, i ≤ j → j < i + m → (arg j).isSome)
    (hlength : start + (i + m) ≤ values.length) (hint : start + (i + m) ≤ 2 ^ 31) :
    ∃ values', storeLoop start arg (m + n) i values = storeLoop start arg n (i + m) values' ∧
      Stored start arg i (i + m) values values' := by
  induction m generalizing i values with
  | zero =>
    refine ⟨values, by rw [Nat.zero_add]; rfl, rfl, ?_⟩
    intro k
    rw [if_neg (by omega)]
  | succ m ih =>
    obtain ⟨v, hv⟩ := Option.isSome_iff_exists.mp (hall i (Nat.le_refl i) (by omega))
    have hput : put values (start + i) [v] = some _ :=
      put_of_le (by rw [List.length_singleton]; omega)
    have hstore : storeAt values (wrapInt (start + i)) [v] = put values (start + i) [v] := by
      rw [wrapInt_of_lt (by omega) (by omega), storeAt, if_neg (List.cons_ne_nil _ _),
        if_neg (by omega)]
      rfl
    have hsum : i + 1 + m = i + (m + 1) := by omega
    obtain ⟨values', hloop, hrest⟩ := ih (i + 1) _ (fun j hi hj => hall j (by omega) (by omega))
      (by rw [put_length hput]; omega) (by omega)
    rw [hsum] at hloop hrest
    refine ⟨values', ?_, hrest.length.trans (put_length hput), ?_⟩
    · rw [Nat.add_right_comm, storeLoop, hv]
      dsimp only
      rw [hstore, hput]
      exact hloop
    · intro k
      rw [hrest.cell, getElem?_put hput, List.length_singleton]
      obtain rfl | hne := eq_or_ne k (start + i)
      · rw [if_neg (by omega), if_pos (by omega), if_pos (by omega), Nat.sub_self,
          Nat.add_sub_cancel_left, hv]
        rfl
      · rw [if_neg (by omega : ¬ (start + i ≤ k ∧ k < start + i + 1))]
        exact if_congr (by omega) rfl rfl

theorem storeLoop_all {start : Nat} {arg : Nat → Option UInt8} {n : Nat} {values : List UInt8}
    (hall : ∀ j, j < n → (arg j).isSome) (hlength : start + n ≤ values.length)
    (hint : start + n ≤ 2 ^ 31) :
    ∃ values', storeLoop start arg n 0 values = some (values', none) ∧
      Stored start arg 0 n values values' := by
  obtain ⟨values', hloop, hstored⟩ := storeLoop_prefix start arg n 0 0 values
    (fun j _ hj => hall j (by omega)) (by omega) (by omega)
  rw [Nat.zero_add] at hstored
  exact ⟨values', hloop, hstored⟩

theorem storeLoop_missing {start : Nat} {arg : Nat → Option UInt8} {n k : Nat}
    {values : List UInt8} (hk : k < n) (hnone : arg k = none)
    (hall : ∀ j, j < k → (arg j).isSome) (hlength : start + n ≤ values.length)
    (hint : start + n ≤ 2 ^ 31) :
    ∃ values', storeLoop start arg n 0 values = some (values', some k) ∧
      Stored start arg 0 k values values' := by
  obtain ⟨m, rfl⟩ := Nat.exists_eq_add_of_lt hk
  obtain ⟨values', hloop, hstored⟩ := storeLoop_prefix start arg k (m + 1) 0 values
    (fun j _ hj => hall j (by omega)) (by omega) (by omega)
  rw [Nat.zero_add] at hstored hloop
  refine ⟨values', ?_, hstored⟩
  rw [Nat.add_assoc, hloop, storeLoop, hnone]

/-! ## The calls -/

section Calls

variable {d : Dims} {b : LedBuffer} {s : Strip}

theorem Dims.n_eq (d : Dims) : (d.n : Int) = d.leds.toInt :=
  Int.toNat_of_nonneg (Int.le_of_lt d.leds_pos)

theorem Dims.n_pos (d : Dims) : 0 < d.n := by
  have hpos := d.leds_pos
  rw [← d.n_eq] at hpos
  omega

theorem Dims.c_pos (d : Dims) : 0 < d.c := by
  have hpos := d.colors_pos
  rw [Dims.c]
  omega

theorem next_of_accepts {call : Call} (h : d.Accepts call) : d.next s call = d.stored s call :=
  if_pos h

theorem next_of_refused {call : Call} (h : ¬ d.Accepts call) : d.next s call = s := if_neg h

theorem checkLed_of_hasLed (h : Shows d b s) {led : Int32} (hled : d.HasLed led) :
    checkLed b led = .ok (Dims.index led) ∧ Dims.index led < d.n := by
  have hhigh := led.toInt_lt
  have hn := d.n_eq
  obtain ⟨hone, hle⟩ := hled
  rw [checkLed, h.size, wrapInt_of_lt (by omega) (by omega), if_pos (by omega), Dims.index]
  refine ⟨?_, by omega⟩
  congr 1
  omega

theorem checkLed_of_not_hasLed (h : Shows d b s) {led : Int32} (hled : ¬ d.HasLed led) :
    checkLed b led = .error (.argument 2 "index out of range") := by
  have hlow := led.le_toInt
  have hhigh := led.toInt_lt
  have hleds := d.leds.toInt_lt
  have hn := d.n_eq
  rw [Dims.HasLed] at hled
  rw [checkLed, h.size, wrapInt]
  exact if_neg (by omega)

theorem firstColor_eq (hfits : Fits d) (h : Shows d b s) {i : Nat} (hi : i ≤ d.n) :
    firstColor b i = (i * d.c : Nat) := by
  have hmul := Nat.mul_le_mul_right d.c hi
  have hlt := hfits.2
  rw [firstColor, h.colors, ← Int.natCast_mul, Nat.mul_comm]
  exact wrapInt_of_lt (by omega) (by omega)

theorem firstColor_end (hfits : Fits d) (h : Shows d b s) :
    firstColor b b.size = (d.n * d.c : Nat) := by
  rw [h.size]
  exact firstColor_eq hfits h (Nat.le_refl _)

/-- The colours of an LED lie among the values, and their indices are those of an `int`. -/
theorem led_room (hfits : Fits d) (h : Shows d b s) {i : Nat} (hi : i < d.n) :
    i * d.c + d.c ≤ b.values.length ∧ i * d.c + d.c ≤ 2 ^ 31 := by
  have hrow := row_le d.c hi
  have hlt := hfits.2
  rw [h.length]
  omega

/-- New values of the same length show the strip whose colours they begin with. -/
theorem Shows.update (h : Shows d b s) {values : List UInt8} {t : Strip}
    (hlength : values.length = b.values.length)
    (hcell : ∀ i j, i < d.n → j < d.c → values[i * d.c + j]? = some (t i j)) :
    Shows d { b with values := values } t :=
  ⟨h.size, h.colors, hlength.trans h.length, hcell⟩

theorem fill_shows (h : Shows d b s) (args : Numbers) :
    ∃ b' answer, handle b (.fill args) = some (b', answer) ∧
      Shows d b' (d.next s (.fill args)) := by
  rw [handle, bufferFill, h.colors]
  cases hmissing : firstMissing args d.c with
  | some k =>
    refine ⟨b, _, rfl, ?_⟩
    rw [next_of_refused]
    · exact h
    · exact not_all_of_missing hmissing
  | none =>
    have hsize : b.size.toNat = d.n := by
      rw [h.size]
      rfl
    have hcolors : ((List.range d.c).map fun i => byteOf (args i)).length = d.c := by
      rw [List.length_map, List.length_range]
    have haccepts : d.Accepts (.fill args) := firstMissing_none_iff.mp hmissing
    have hroom : 0 + d.n * ((List.range d.c).map fun i => byteOf (args i)).length ≤
        b.values.length := by
      rw [hcolors, h.length]
      omega
    obtain ⟨values, hfill, hlength, hcell⟩ := fillLeds_spec d.n 0 b.values hroom
    dsimp only
    rw [hsize, hfill, next_of_accepts haccepts]
    refine ⟨_, _, rfl, h.update hlength ?_⟩
    intro i j hi hj
    have hlt := cell_lt hi hj
    rw [hcell, hcolors, if_pos (by omega), Nat.sub_zero, Nat.mul_add_mod_of_lt hj,
      List.getElem?_map, List.getElem?_range hj]
    rfl

theorem fade_shows (hfits : Fits d) (h : Shows d b s) (fade : Int32) :
    ∃ b' answer, handle b (.fade fade) = some (b', answer) ∧
      Shows d b' (d.next s (.fade fade)) := by
  rw [handle, bufferFade]
  by_cases hfade : 0 < fade.toInt
  · have haccepts : d.Accepts (.fade fade) := hfade
    have hcount : (wrapInt (b.size * b.colorsPerLed.toNat)).toNat = d.n * d.c := by
      have hlt := hfits.2
      rw [h.size, h.colors, ← Int.natCast_mul, wrapInt_of_lt (by omega) (by omega)]
      rfl
    obtain ⟨bytes, hslice⟩ : ∃ bytes, slice b.values 0 (d.n * d.c) = some bytes :=
      ⟨_, slice_of_le (by rw [h.length]; omega)⟩
    have hlen := slice_length hslice
    have hput : put b.values 0 (bytes.map (fadeByte fade)) = some _ :=
      put_of_le (by rw [List.length_map, hlen, h.length]; omega)
    rw [if_neg (not_not_intro hfade), hcount, next_of_accepts haccepts]
    dsimp only
    rw [hslice]
    refine ⟨_, _, by rw [Option.bind_some, hput]; rfl, h.update (put_length hput) ?_⟩
    intro i j hi hj
    have hlt := cell_lt hi hj
    rw [getElem?_put hput, List.length_map, hlen, if_pos (by omega), Nat.sub_zero,
      List.getElem?_map, getElem?_slice hslice _ hlt, Nat.zero_add, h.cell i j hi hj]
    rfl
  · rw [if_pos hfade, next_of_refused (show ¬ d.Accepts (.fade fade) from hfade)]
    exact ⟨b, _, rfl, h⟩

theorem write_shows (hfits : Fits d) (h : Shows d b s) :
    ∃ answer, handle b .write = some (b, answer) := by
  have hlt := hfits.2
  have hpos := Nat.mul_le_mul d.n_pos d.c_pos
  have hcount : max 1 (toSize (firstColor b b.size)) = d.n * d.c := by
    rw [firstColor_end hfits h, toSize_of_lt (by omega)]
    omega
  rw [handle, bufferWrite, hcount, slice_of_le (by rw [h.length]; omega)]
  exact ⟨_, rfl⟩

/-- What is got are the colours of the strip. -/
theorem get_shows (hfits : Fits d) (h : Shows d b s) (led : Int32) :
    ∃ answer, handle b (.get led) = some (b, answer) ∧
      (d.HasLed led → answer = .ok ((List.range d.c).map (s (Dims.index led)))) := by
  rw [handle, bufferGet]
  by_cases hled : d.HasLed led
  · obtain ⟨hcheck, hindex⟩ := checkLed_of_hasLed h hled
    obtain ⟨hroom, hint⟩ := led_room hfits h hindex
    obtain ⟨colors, hslice⟩ : ∃ colors,
        slice b.values (Dims.index led * d.c) d.c = some colors := ⟨_, slice_of_le hroom⟩
    have hload : loadAt b.values (Dims.index led * d.c : Nat) d.c =
        slice b.values (Dims.index led * d.c) d.c := by
      rw [loadAt, if_neg (Nat.pos_iff_ne_zero.mp d.c_pos), if_neg (by omega)]
      rfl
    rw [hcheck]
    dsimp only
    rw [firstColor_eq hfits h (Nat.le_of_lt hindex), h.colors, hload, hslice]
    refine ⟨_, rfl, fun _ => congrArg Except.ok ?_⟩
    apply List.ext_getElem?
    intro j
    obtain hj | hj := Nat.lt_or_ge j d.c
    · rw [getElem?_slice hslice j hj, h.cell _ j hindex hj, List.getElem?_map,
        List.getElem?_range hj]
      rfl
    · rw [List.getElem?_eq_none (by rw [slice_length hslice]; exact hj),
        List.getElem?_eq_none (by rw [List.length_map, List.length_range]; exact hj)]
  · rw [checkLed_of_not_hasLed h hled]
    exact ⟨_, rfl, fun hcontra => absurd hcontra hled⟩

theorem set_refused (h : Shows d b s) {led : Int32} (v : SetValue) (hled : ¬ d.HasLed led) :
    ∃ e, handle b (.set led v) = some (b, .error e) ∧ d.next s (.set led v) = s := by
  refine ⟨_, by rw [handle, bufferSet, checkLed_of_not_hasLed h hled], next_of_refused ?_⟩
  cases v with
  | table t => exact hled
  | string bytes => exact fun haccepts => hled haccepts.1
  | numbers args => exact fun haccepts => hled haccepts.1

/-- Colours that are stored for an LED show there. -/
theorem stored_shows (h : Shows d b s) {l m : Nat} {arg : Nat → Option UInt8}
    {values : List UInt8} {t : Strip} (hstored : Stored (l * d.c) arg 0 m b.values values)
    (hm : m ≤ d.c)
    (ht : ∀ i j, j < d.c → (if i = l ∧ j < m then arg j else some (s i j)) = some (t i j)) :
    Shows d { b with values := values } t := by
  apply h.update hstored.length
  intro i j hi hj
  rw [hstored.cell, h.cell i j hi hj, ← ht i j hj, Nat.add_zero]
  by_cases hin : i = l ∧ j < m
  · rw [if_pos ((cell_mem_iff hj hm).mpr hin), if_pos hin, hin.1, Nat.add_sub_cancel_left]
  · rw [if_neg (mt (cell_mem_iff hj hm).mp hin), if_neg hin]

section Set

variable {led : Int32}

theorem table_shows (hfits : Fits d) (h : Shows d b s) (hled : d.HasLed led) (t : Numbers) :
    ∃ b', handle b (.set led (.table t)) = some (b', .ok []) ∧
      Shows d b' (d.next s (.set led (.table t))) := by
  obtain ⟨hcheck, hindex⟩ := checkLed_of_hasLed h hled
  obtain ⟨hroom, hint⟩ := led_room hfits h hindex
  have hcolor (j : Nat) (_ : j < d.c) : (tableColor t j).isSome := rfl
  obtain ⟨values, hloop, hstored⟩ := storeLoop_all hcolor hroom hint
  have haccepts : d.Accepts (.set led (.table t)) := hled
  rw [handle, bufferSet, hcheck, next_of_accepts haccepts]
  dsimp only
  rw [firstColor_eq hfits h (Nat.le_of_lt hindex), h.colors, hloop]
  refine ⟨_, rfl, stored_shows h hstored (Nat.le_refl _) ?_⟩
  intro i j hj
  rw [Dims.stored]
  simp only [hj, and_true, tableColor]
  exact (apply_ite some ..).symm

theorem numbers_shows (hfits : Fits d) (h : Shows d b s) (hled : d.HasLed led) {args : Numbers}
    (hall : ∀ j, j < d.c → (args j).isSome) :
    ∃ b', handle b (.set led (.numbers args)) = some (b', .ok []) ∧
      Shows d b' (d.next s (.set led (.numbers args))) := by
  obtain ⟨hcheck, hindex⟩ := checkLed_of_hasLed h hled
  obtain ⟨hroom, hint⟩ := led_room hfits h hindex
  have hcolor (j : Nat) (hj : j < d.c) : (numberColor args j).isSome := by
    rw [numberColor, Option.isSome_map]
    exact hall j hj
  obtain ⟨values, hloop, hstored⟩ := storeLoop_all hcolor hroom hint
  have haccepts : d.Accepts (.set led (.numbers args)) := ⟨hled, hall⟩
  rw [handle, bufferSet, hcheck, next_of_accepts haccepts]
  dsimp only
  rw [firstColor_eq hfits h (Nat.le_of_lt hindex), h.colors, hloop]
  refine ⟨_, rfl, stored_shows h hstored (Nat.le_refl _) ?_⟩
  intro i j hj
  obtain ⟨x, hx⟩ := Option.isSome_iff_exists.mp (hall j hj)
  rw [Dims.stored]
  simp only [hj, and_true, numberColor, hx]
  exact (apply_ite some ..).symm

/-- The colours before an argument that is no number are stored. -/
theorem numbers_missing (hfits : Fits d) (h : Shows d b s) (hled : d.HasLed led) {args : Numbers}
    {k : Nat} (hmissing : firstMissing args d.c = some k) :
    ∃ values, handle b (.set led (.numbers args)) =
        some ({ b with values := values }, .error (.argument (3 + k) "number expected")) ∧
      Stored (Dims.index led * d.c) (numberColor args) 0 k b.values values := by
  obtain ⟨hk, hnone, hbefore⟩ := firstMissing_some hmissing
  obtain ⟨hcheck, hindex⟩ := checkLed_of_hasLed h hled
  obtain ⟨hroom, hint⟩ := led_room hfits h hindex
  have hcolor (j : Nat) (hj : j < k) : (numberColor args j).isSome := by
    rw [numberColor, Option.isSome_map]
    exact hbefore j hj
  have hstop : numberColor args k = none := by
    rw [numberColor, hnone]
    rfl
  obtain ⟨values, hloop, hstored⟩ := storeLoop_missing hk hstop hcolor hroom hint
  rw [handle, bufferSet, hcheck]
  dsimp only
  rw [firstColor_eq hfits h (Nat.le_of_lt hindex), h.colors, hloop]
  exact ⟨values, rfl, hstored⟩

theorem string_cell {c i j l : Nat} {bytes : List UInt8} {v : UInt8} (hj : j < c) :
    (if l * c ≤ i * c + j ∧ i * c + j < l * c + bytes.length then bytes[i * c + j - l * c]?
        else some v) =
      some (if l ≤ i then (bytes[(i - l) * c + j]?).getD v else v) := by
  obtain hlt | hge := Nat.lt_or_ge i l
  · have hrow := row_le c hlt
    rw [if_neg (by omega), if_neg (by omega)]
  · obtain ⟨k, rfl⟩ := Nat.exists_eq_add_of_le hge
    have hindex : (l + k) * c + j - l * c = k * c + j := by
      rw [Nat.add_mul]
      omega
    rw [hindex, if_pos hge, Nat.add_sub_cancel_left]
    obtain hin | hout := Nat.lt_or_ge (k * c + j) bytes.length
    · rw [if_pos (by rw [Nat.add_mul]; omega), List.getElem?_eq_getElem hin]
      rfl
    · rw [if_neg (by rw [Nat.add_mul]; omega), List.getElem?_eq_none hout]
      rfl

theorem string_shows (hfits : Fits d) (h : Shows d b s) (hled : d.HasLed led) {bytes : List UInt8}
    (hlong : Dims.index led * d.c + bytes.length < 2 ^ 32 ∨
      d.n * d.c < (Dims.index led * d.c + bytes.length) % 2 ^ 32) :
    ∃ b' answer, handle b (.set led (.string bytes)) = some (b', answer) ∧
      Shows d b' (d.next s (.set led (.string bytes))) ∧
      ∀ e, answer = .error e → b' = b := by
  obtain ⟨hcheck, hindex⟩ := checkLed_of_hasLed h hled
  have hmul := Nat.mul_le_mul_right d.c (Nat.le_of_lt hindex)
  have hlt := hfits.2
  rw [handle, bufferSet, hcheck]
  dsimp only
  rw [firstColor_eq hfits h (Nat.le_of_lt hindex), firstColor_end hfits h, toSize_of_lt (by omega),
    toSize_of_lt (by omega)]
  split_ifs with hrefused
  · have hnot : ¬ d.Accepts (.set led (.string bytes)) := by
      rintro ⟨-, hle⟩
      rw [Nat.mod_eq_of_lt (by omega)] at hrefused
      omega
    rw [next_of_refused hnot]
    exact ⟨b, _, rfl, h, fun _ _ => rfl⟩
  · have hshort := hlong.resolve_right hrefused
    rw [Nat.mod_eq_of_lt hshort] at hrefused
    have haccepts : d.Accepts (.set led (.string bytes)) := ⟨hled, Nat.not_lt.mp hrefused⟩
    obtain ⟨values, hstore, hlength, hcell⟩ := storeAt_spec (Dims.index led * d.c) bytes b.values
      (by rw [h.length]; omega)
    rw [hstore, next_of_accepts haccepts]
    refine ⟨_, _, rfl, h.update hlength ?_, by rintro e ⟨⟩⟩
    intro i j hi hj
    rw [hcell, h.cell i j hi hj, Dims.stored]
    exact string_cell hj

end Set

end Calls

/-! ## Steps -/

/-- The buffer shows the strip. -/
def Inv (d : Dims) (s : Sys) : Prop := ∃ b, s.buffer = some b ∧ Shows d b s.strip

section Steps

variable {d : Dims} {s : Sys}

/-- A step whose call has a result. -/
theorem step_of_handle {b b' : LedBuffer} {call : Call} {answer : Answer}
    (hbuffer : s.buffer = some b) (hhandle : handle b call = some (b', answer))
    (hshows : Shows d b' (d.next s.strip call)) : Inv d (step d s call) := by
  refine ⟨b', ?_, hshows⟩
  rw [step, hbuffer, Option.bind_some, hhandle]
  rfl

theorem lawful_of_handle {b b' : LedBuffer} {call : Call} {answer : Answer}
    (hbuffer : s.buffer = some b) (hhandle : handle b call = some (b', answer))
    (hget : ∀ led, call = .get led → d.HasLed led →
      answer = .ok ((List.range d.c).map (s.strip (Dims.index led))))
    (hset : ∀ led v e, call = .set led v → answer = .error e → b' = b) : Lawful d s call := by
  rw [Lawful, hbuffer, Option.bind_some, hhandle]
  refine ⟨hget, ?_⟩
  intro led v e hcall he
  rw [hset led v e hcall he]

/-- Colours that an LED has change nothing when they are stored. -/
theorem stored_same {b : LedBuffer} (h : Shows d b s.strip) {l k : Nat} {args : Numbers}
    {values : List UInt8} (hl : l < d.n) (hk : k ≤ d.c)
    (hstored : Stored (l * d.c) (numberColor args) 0 k b.values values)
    (hall : ∀ j, j < k → (args j).isSome)
    (hsame : ∀ j, j < k → byteOf (args j) = s.strip l j) : values = b.values := by
  apply List.ext_getElem?
  intro p
  rw [hstored.cell]
  split_ifs with hp
  · obtain ⟨j, rfl⟩ := Nat.exists_eq_add_of_le (Nat.le_of_add_right_le hp.1)
    have hj : j < k := by omega
    obtain ⟨x, hx⟩ := Option.isSome_iff_exists.mp (hall j hj)
    rw [Nat.add_sub_cancel_left, h.cell l j hl (by omega), ← hsame j hj, numberColor, hx]
    rfl
  · rfl

theorem set_shows {b : LedBuffer} (hfits : Fits d) (h : Shows d b s.strip) {led : Int32}
    {v : SetValue} (hsound : Sound d s (.set led v)) :
    ∃ b' answer, handle b (.set led v) = some (b', answer) ∧
      Shows d b' (d.next s.strip (.set led v)) ∧ ∀ e, answer = .error e → b' = b := by
  by_cases hled : d.HasLed led
  · cases v with
    | table t =>
      obtain ⟨b', hhandle, hshows⟩ := table_shows hfits h hled t
      exact ⟨b', _, hhandle, hshows, by rintro e ⟨⟩⟩
    | string bytes => exact string_shows hfits h hled (hsound hled)
    | numbers args =>
      cases hmissing : firstMissing args d.c with
      | none =>
        obtain ⟨b', hhandle, hshows⟩ :=
          numbers_shows hfits h hled (firstMissing_none_iff.mp hmissing)
        exact ⟨b', _, hhandle, hshows, by rintro e ⟨⟩⟩
      | some k =>
        obtain ⟨hk, -, hbefore⟩ := firstMissing_some hmissing
        obtain ⟨values, hhandle, hstored⟩ := numbers_missing hfits h hled hmissing
        have hsame := stored_same h (checkLed_of_hasLed h hled).2 (Nat.le_of_lt hk) hstored
          hbefore (hsound hled k hmissing)
        have hrefused : ¬ d.Accepts (.set led (.numbers args)) := fun haccepts =>
          not_all_of_missing hmissing haccepts.2
        rw [hsame] at hhandle
        exact ⟨b, _, hhandle, by rw [next_of_refused hrefused]; exact h, fun _ _ => rfl⟩
  · obtain ⟨e, hhandle, hnext⟩ := set_refused h v hled
    exact ⟨b, _, hhandle, by rw [hnext]; exact h, fun _ _ => rfl⟩

theorem lawful_of_sound (hfits : Fits d) (hinv : Inv d s) {call : Call}
    (hsound : Sound d s call) : Lawful d s call ∧ Inv d (step d s call) := by
  obtain ⟨b, hbuffer, h⟩ := hinv
  cases call with
  | fill args =>
    obtain ⟨b', answer, hhandle, hshows⟩ := fill_shows h args
    exact ⟨lawful_of_handle hbuffer hhandle (by rintro led ⟨⟩) (by rintro led v e ⟨⟩),
      step_of_handle hbuffer hhandle hshows⟩
  | fade fade =>
    obtain ⟨b', answer, hhandle, hshows⟩ := fade_shows hfits h fade
    exact ⟨lawful_of_handle hbuffer hhandle (by rintro led ⟨⟩) (by rintro led v e ⟨⟩),
      step_of_handle hbuffer hhandle hshows⟩
  | write =>
    obtain ⟨answer, hhandle⟩ := write_shows hfits h
    refine ⟨lawful_of_handle hbuffer hhandle (by rintro led ⟨⟩) (by rintro led v e ⟨⟩),
      step_of_handle hbuffer hhandle ?_⟩
    rw [next_of_accepts (show d.Accepts .write from trivial)]
    exact h
  | get led =>
    obtain ⟨answer, hhandle, hanswer⟩ := get_shows hfits h led
    refine ⟨lawful_of_handle hbuffer hhandle ?_ (by rintro led v e ⟨⟩),
      step_of_handle hbuffer hhandle ?_⟩
    · rintro led' ⟨⟩ hled
      exact hanswer hled
    · rw [Dims.next]
      split_ifs
      · exact h
      · exact h
  | set led v =>
    obtain ⟨b', answer, hhandle, hshows, hsame⟩ := set_shows hfits h hsound
    refine ⟨lawful_of_handle hbuffer hhandle (by rintro led ⟨⟩) ?_,
      step_of_handle hbuffer hhandle hshows⟩
    intro _ _ e _ he
    exact hsame e he

/-- A string whose end wraps is copied past the values. -/
theorem string_wrapped {b : LedBuffer} (hfits : Fits d) (h : Shows d b s.strip) {led : Int32}
    (hled : d.HasLed led) {bytes : List UInt8}
    (hlong : 2 ^ 32 ≤ Dims.index led * d.c + bytes.length)
    (hwrap : (Dims.index led * d.c + bytes.length) % 2 ^ 32 ≤ d.n * d.c) :
    handle b (.set led (.string bytes)) = none := by
  obtain ⟨hcheck, hindex⟩ := checkLed_of_hasLed h hled
  have hmul := Nat.mul_le_mul_right d.c (Nat.le_of_lt hindex)
  have hlt := hfits.2
  have hbytes : bytes ≠ [] := by
    rintro rfl
    rw [List.length_nil] at hlong
    omega
  have hstore : storeAt b.values (Dims.index led * d.c : Nat) bytes = none := by
    rw [storeAt, if_neg hbytes, if_neg (by omega)]
    apply put_of_gt
    rw [h.length, Int.toNat_natCast]
    omega
  rw [handle, bufferSet, hcheck]
  dsimp only
  rw [firstColor_eq hfits h (Nat.le_of_lt hindex), firstColor_end hfits h, toSize_of_lt (by omega),
    toSize_of_lt (by omega), if_neg (Nat.not_lt.mpr hwrap), hstore]
  rfl

theorem sound_of_lawful (hfits : Fits d) (hinv : Inv d s) {call : Call}
    (hlawful : Lawful d s call) : Sound d s call := by
  obtain ⟨b, hbuffer, h⟩ := hinv
  cases call with
  | fill args => trivial
  | fade fade => trivial
  | get led => trivial
  | write => trivial
  | set led v =>
    cases v with
    | table t => trivial
    | string bytes =>
      intro hled
      by_contra hlong
      rw [not_or, Nat.not_lt, Nat.not_lt] at hlong
      rw [Lawful, hbuffer, Option.bind_some, string_wrapped hfits h hled hlong.1 hlong.2] at hlawful
      exact hlawful
    | numbers args =>
      intro hled k hmissing j hj
      obtain ⟨hk, -, hbefore⟩ := firstMissing_some hmissing
      obtain ⟨values, hhandle, hstored⟩ := numbers_missing hfits h hled hmissing
      have hindex := (checkLed_of_hasLed h hled).2
      rw [Lawful, hbuffer, Option.bind_some, hhandle] at hlawful
      have hvalues : b.values = values :=
        congrArg LedBuffer.values (Option.some.inj (hlawful.2 led _ _ rfl rfl))
      have hcell := hstored.cell (Dims.index led * d.c + j)
      obtain ⟨x, hx⟩ := Option.isSome_iff_exists.mp (hbefore j hj)
      rw [← hvalues, h.cell _ j hindex (Nat.lt_trans hj hk), if_pos (by omega),
        Nat.add_sub_cancel_left, numberColor, hx] at hcell
      rw [hx]
      exact (Option.some.inj hcell).symm

/-- The bytes that are allocated. -/
def allocated (d : Dims) : Nat := toSize (sizeofBuffer + wrapInt (d.colors.toInt * d.leds.toInt))

theorem start_eq (d : Dims) :
    (start d).buffer =
      if allocated d < offsetofValues then none
      else some ⟨d.n, UInt8.ofNat d.c, fresh d.junk (allocated d - offsetofValues)⟩ := by
  have hnew : newBuffer d.leds d.colors true d.junk =
      if allocated d < offsetofValues then .ok none
      else .ok (some ⟨d.leds.toInt, UInt8.ofNat d.c,
        fresh d.junk (allocated d - offsetofValues)⟩) := by
    rw [newBuffer, if_neg (not_not_intro d.leds_pos), if_neg (not_not_intro d.colors_pos)]
    rfl
  rw [start, hnew, d.n_eq]
  split_ifs <;> rfl

theorem allocated_lt (d : Dims) : allocated d < 2 ^ 32 := by
  rw [allocated, toSize]
  omega

theorem start_inv (hfits : Fits d) : Inv d (start d) := by
  have hlt := hfits.2
  have hbyte := hfits.1
  have hproduct : d.colors.toInt * d.leds.toInt = (d.n * d.c : Nat) := by
    rw [Int.natCast_mul, d.n_eq, Int.mul_comm, Dims.c,
      Int.toNat_of_nonneg (Int.le_of_lt d.colors_pos)]
  have hallocated : allocated d = 12 + d.n * d.c := by
    rw [allocated, hproduct, wrapInt_of_lt (by omega) (by omega), ← Int.natCast_add,
      toSize_of_lt (by rw [sizeofBuffer]; omega)]
    rfl
  have hroom : allocated d - offsetofValues = d.n * d.c + 3 := by
    rw [hallocated, offsetofValues]
    omega
  refine ⟨_, by rw [start_eq, if_neg (by rw [hallocated, offsetofValues]; omega)], rfl, ?_, ?_, ?_⟩
  · exact UInt8.toNat_ofNat_of_lt' (Nat.lt_succ_of_le hbyte)
  · rw [length_fresh, hroom]
  · intro i j hi hj
    have hcell := cell_lt hi hj
    rw [hroom, fresh, List.getElem?_map, List.getElem?_range (by omega)]
    rfl

end Steps

/-! ## Numbers that do not fit -/

section Misfit

variable {d : Dims}

theorem Dims.hasLed_one (d : Dims) : d.HasLed 1 := ⟨Int.le_refl 1, d.leds_pos⟩

theorem lawful_some {s : Sys} {call : Call} (h : Lawful d s call) :
    ∃ b b' answer, s.buffer = some b ∧ handle b call = some (b', answer) := by
  rw [Lawful] at h
  cases hbuffer : s.buffer with
  | none => simp [hbuffer] at h
  | some b =>
    cases hhandle : handle b call with
    | none => simp [hbuffer, hhandle] at h
    | some result => exact ⟨b, result.1, result.2, rfl, hhandle⟩

theorem step_buffer {s : Sys} {b b' : LedBuffer} {call : Call} {answer : Answer}
    (hbuffer : s.buffer = some b) (hhandle : handle b call = some (b', answer)) :
    (step d s call).buffer = some b' := by
  rw [step, hbuffer, Option.bind_some, hhandle]
  rfl

theorem start_some {b : LedBuffer} (h : (start d).buffer = some b) :
    b.size = d.n ∧ b.colorsPerLed = UInt8.ofNat d.c ∧ b.values.length < 2 ^ 32 := by
  have hlt := allocated_lt d
  rw [start_eq] at h
  split_ifs at h
  cases h
  exact ⟨rfl, rfl, by rw [length_fresh]; omega⟩

theorem bufferGet_length {b b' : LedBuffer} {led : Int32} {colors : List UInt8}
    (h : handle b (.get led) = some (b', .ok colors)) : colors.length = b.colorsPerLed.toNat := by
  rw [handle, bufferGet] at h
  cases hcheck : checkLed b led with
  | error e => simp [hcheck] at h
  | ok i =>
    rw [hcheck] at h
    obtain ⟨colors', hload, heq⟩ := Option.map_eq_some_iff.mp h
    cases heq
    rw [loadAt] at hload
    split_ifs at hload with hzero
    · cases hload
      exact hzero.symm
    · exact slice_length hload

/-- A number of colours that does not fit a byte is cut. -/
theorem not_lawful_wide (h : 255 < d.c) : ¬ Lawful d (start d) (.get 1) := by
  intro hlawful
  obtain ⟨b, b', answer, hbuffer, hhandle⟩ := lawful_some hlawful
  rw [Lawful, hbuffer, Option.bind_some, hhandle] at hlawful
  rw [hlawful.1 1 rfl d.hasLed_one] at hhandle
  have hlength := bufferGet_length hhandle
  have hlt := b.colorsPerLed.toNat_lt
  rw [List.length_map, List.length_range] at hlength
  omega

theorem fillLeds_room {colors values values' : List UInt8} {n p : Nat}
    (h : fillLeds colors n p values = some values') (hn : 0 < n) :
    p + n * colors.length ≤ values.length := by
  induction n generalizing p values with
  | zero => exact absurd hn (Nat.lt_irrefl 0)
  | succ n ih =>
    rw [fillLeds] at h
    obtain ⟨values1, hput, hrest⟩ := Option.bind_eq_some_iff.mp h
    have hfits : p + colors.length ≤ values.length := by
      by_contra hgt
      rw [put_of_gt (Nat.lt_of_not_le hgt)] at hput
      cases hput
    rw [Nat.succ_mul]
    obtain rfl | hpos := Nat.eq_zero_or_pos n
    · omega
    · have hroom := ih hrest hpos
      rw [put_length hput] at hroom
      omega

/-- The number of colours counts as a negative one. -/
theorem fade_overflow {b : LedBuffer} (hsize : b.size = d.n) (hcolors : b.colorsPerLed.toNat = d.c)
    (hlong : 2 ^ 31 ≤ d.n * d.c) (hlt : d.n * d.c < 2 ^ 32) :
    ∃ answer, handle b (.fade 2) = some (b, answer) := by
  have hcount : (wrapInt (b.size * b.colorsPerLed.toNat)).toNat = 0 := by
    rw [hsize, hcolors, ← Int.natCast_mul, wrapInt]
    omega
  have hput : put b.values 0 [] = some b.values := by
    rw [put_of_le (Nat.zero_le _)]
    rfl
  rw [handle, bufferFade, if_neg (by decide), hcount]
  dsimp only
  rw [slice_of_le (Nat.zero_le _)]
  exact ⟨_, by rw [Option.bind_some, List.take_zero, List.map_nil, hput]; rfl⟩

/-- Calls that show whether the colours fit. -/
def probe : List Call := [.fill fun _ => some 255, .fade 2, .get 1]

/-- A fill that has a result has room for all colours. -/
theorem fill_result {b b' : LedBuffer} {answer : Answer} (hsize : b.size = d.n)
    (hcolors : b.colorsPerLed.toNat = d.c)
    (h : handle b (.fill fun _ => some 255) = some (b', answer)) :
    ∃ values, b' = { b with values := values } ∧ d.n * d.c ≤ b.values.length ∧
      ∀ k, k < d.n * d.c → values[k]? = some 255 := by
  have hnone : firstMissing (fun _ => some 255) d.c = none :=
    firstMissing_none_iff.mpr fun _ _ => rfl
  have hall : ((List.range d.c).map fun _ => byteOf (some 255)) = List.replicate d.c 255 := by
    rw [List.map_const', List.length_range]
    rfl
  have hcount : b.size.toNat = d.n := by
    rw [hsize]
    rfl
  rw [handle, bufferFill, hcolors, hnone, hall, hcount] at h
  obtain ⟨values, hfill, heq⟩ := Option.map_eq_some_iff.mp h
  cases heq
  have hroom := fillLeds_room hfill d.n_pos
  obtain ⟨values', hfill', -, hcell⟩ := fillLeds_spec d.n 0 b.values hroom
  cases hfill.symm.trans hfill'
  rw [List.length_replicate, Nat.zero_add] at hroom hcell
  refine ⟨values, rfl, hroom, ?_⟩
  intro k hk
  rw [hcell, if_pos ⟨Nat.zero_le k, hk⟩]
  exact List.getElem?_replicate_of_lt (Nat.mod_lt _ d.c_pos)

/-- The first colour that is got for the first LED. -/
theorem bufferGet_first {b b' : LedBuffer} {colors : List UInt8} (hsize : 0 < b.size)
    (hpos : 0 < b.colorsPerLed.toNat) (h : handle b (.get 1) = some (b', .ok colors)) :
    colors[0]? = b.values[0]? := by
  have hzero : wrapInt ((1 : Int32).toInt - 1) = 0 := by decide
  have hcheck : checkLed b 1 = .ok 0 := by
    rw [checkLed, hzero]
    exact if_pos ⟨Int.le_refl 0, hsize⟩
  have hfirst : firstColor b 0 = 0 := by
    rw [firstColor, Int.mul_zero]
    rfl
  rw [handle, bufferGet, hcheck] at h
  obtain ⟨colors', hload, heq⟩ := Option.map_eq_some_iff.mp h
  cases heq
  rw [loadAt, hfirst, if_neg (Nat.pos_iff_ne_zero.mp hpos)] at hload
  split_ifs at hload
  exact getElem?_slice hload 0 hpos

theorem not_lawful_long (hbyte : d.c ≤ 255) (hlong : 2 ^ 31 ≤ d.n * d.c) :
    ¬ Along (step d) (Lawful d) (start d) probe := by
  rintro ⟨hfill, hfade, hget, -⟩
  obtain ⟨b, b1, answer1, hbuffer, hhandle1⟩ := lawful_some hfill
  obtain ⟨hsize, hcut, hlength⟩ := start_some hbuffer
  have hcolors : b.colorsPerLed.toNat = d.c := by
    rw [hcut]
    exact UInt8.toNat_ofNat_of_lt' (Nat.lt_succ_of_le hbyte)
  obtain ⟨values, rfl, hroom, hcell⟩ := fill_result hsize hcolors hhandle1
  have hbuffer1 := step_buffer (d := d) hbuffer hhandle1
  obtain ⟨answer2, hhandle2⟩ := fade_overflow (b := { b with values := values }) hsize hcolors hlong
    (Nat.lt_of_le_of_lt hroom hlength)
  have hbuffer2 := step_buffer (d := d) hbuffer1 hhandle2
  obtain ⟨b3, b4, answer3, hbuffer3, hhandle3⟩ := lawful_some hget
  cases hbuffer2.symm.trans hbuffer3
  rw [Lawful, hbuffer2, Option.bind_some, hhandle3] at hget
  rw [hget.1 1 rfl d.hasLed_one] at hhandle3
  have hpos : 0 < b.colorsPerLed.toNat := by
    rw [hcolors]
    exact d.c_pos
  have hleds : 0 < b.size := by
    rw [hsize]
    exact Int.natCast_pos.mpr d.n_pos
  have hfirst := bufferGet_first (b := { b with values := values }) hleds hpos hhandle3
  -- The strip has faded, and the values have not.
  have hstrip : (step d (step d (start d) (.fill fun _ => some 255)) (.fade 2)).strip =
      fun _ _ => 127 := by
    have hfilled : d.Accepts (.fill fun _ => some 255) := fun _ _ => rfl
    have htwo : 0 < (2 : Int32).toInt := by decide
    have hfaded : d.Accepts (.fade 2) := htwo
    have hvalue : fadeByte 2 (byteOf (some 255)) = 127 := by decide
    rw [step, step, next_of_accepts hfaded, next_of_accepts hfilled]
    funext i j
    exact hvalue
  rw [hstrip, hcell 0 (Nat.mul_pos d.n_pos d.c_pos), List.getElem?_map,
    List.getElem?_range d.c_pos] at hfirst
  exact absurd hfirst (by decide)

end Misfit

/-- Every byte that is accessed lies among the values, the colours that are got are those that
were stored last, and a set that is refused changes nothing, in exactly the runs whose sets are
sound, if the numbers fit. If they do not, there is a run without a set in which this fails. -/
theorem buffer_kept_iff (d : Dims) :
    (Fits d → ∀ calls,
      Along (step d) (Lawful d) (start d) calls ↔ Along (step d) (Sound d) (start d) calls) ∧
    (¬ Fits d → ∃ calls, Along (step d) (Sound d) (start d) calls ∧
      ¬ Along (step d) (Lawful d) (start d) calls) := by
  constructor
  · intro hfits calls
    apply along_congr (step d) (Lawful d) (Sound d) (Inv d)
    · intro s call hinv
      exact ⟨sound_of_lawful hfits hinv, fun h => (lawful_of_sound hfits hinv h).1⟩
    · intro s call hinv hlawful
      exact (lawful_of_sound hfits hinv (sound_of_lawful hfits hinv hlawful)).2
    · exact start_inv hfits
  · intro hfits
    obtain hwide | hbyte := Nat.lt_or_ge 255 d.c
    · exact ⟨[.get 1], ⟨trivial, trivial⟩, fun h => not_lawful_wide hwide h.1⟩
    · have hlong := Nat.not_lt.mp fun hlt => hfits ⟨hbyte, hlt⟩
      exact ⟨probe, ⟨trivial, trivial, trivial, trivial⟩, not_lawful_long hbyte hlong⟩

/-- Numbers whose product is 254 in a word. -/
def wrapped : Dims where
  leds := 16843010
  colors := 255
  junk := fun _ => 0
  leds_pos := by decide
  colors_pos := by decide

theorem values_overrun : ¬ Along (step wrapped) (Lawful wrapped) (start wrapped) probe :=
  not_lawful_long (by decide) (by decide)

end NodeMcu.Ws2812.Buffer
