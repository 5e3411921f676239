import NodeMcu.CompMsg.Codes
import NodeMcu.Lib.Memory

namespace NodeMcu.CompMsg.View

open NodeMcu.Lib.Memory NodeMcu.CompMsg.Codes

/-- `dataView_t`: a pointer and the length it is said to have. -/
structure DataView where
  data : Mem
  lgth : Nat

/-- The conversion of an `int` to a `size_t`. -/
def toSize (i : Int) : Nat := (i % 4294967296).toNat

/-- The conversion of a `size_t` to an `int`. -/
def toInt (n : Nat) : Int := if n < 2147483648 then n else n - 4294967296

/-- The difference of two `size_t` values. -/
def sizeSub (a b : Nat) : Nat := (a + (4294967296 - b % 4294967296)) % 4294967296

theorem sizeSub_of_le (a b : Nat) (hb : b ≤ a) (ha : a < 4294967296) : sizeSub a b = a - b := by
  unfold sizeSub
  omega

theorem toSize_natCast (n : Nat) (h : n < 4294967296) : toSize n = n := by
  unfold toSize
  omega

theorem toInt_of_lt (n : Nat) (h : n < 2147483648) : toInt n = n := by
  simp only [toInt, h, if_true]

/-- The common body of the setters. The range check compares the last index, not the end,
with the length, so that it lets one byte behind the view through. -/
def put (self : DataView) (offset : Int) (bytes : List UInt8) : Result × DataView :=
  if self.lgth < toSize (offset + (bytes.length - 1 : Nat)) then
    (.error .outOfRange, self)
  else
    (.ok (), { self with data := write self.data offset bytes })

def setUint8 (self : DataView) (offset : Int) (value : Nat) : Result × DataView :=
  put self offset (bigEndian 1 value)

def setInt8 (self : DataView) (offset value : Int) : Result × DataView :=
  put self offset (bigEndian 1 (toSize value))

def setUint16 (self : DataView) (offset : Int) (value : Nat) : Result × DataView :=
  put self offset (bigEndian 2 value)

def setInt16 (self : DataView) (offset value : Int) : Result × DataView :=
  put self offset (bigEndian 2 (toSize value))

def setUint32 (self : DataView) (offset : Int) (value : Nat) : Result × DataView :=
  put self offset (bigEndian 4 value)

def setInt32 (self : DataView) (offset value : Int) : Result × DataView :=
  put self offset (bigEndian 4 (toSize value))

/-- The common body of the getters, with the range check of the setters. -/
def getBytes (self : DataView) (offset : Int) (n : Nat) : Except CompMsgErr Nat :=
  if self.lgth < toSize (offset + (n - 1 : Nat)) then .error .outOfRange
  else .ok (ofBigEndian (read self.data offset n))

def getUint8 (self : DataView) (offset : Int) : Except CompMsgErr Nat := getBytes self offset 1

def getUint16 (self : DataView) (offset : Int) : Except CompMsgErr Nat := getBytes self offset 2

def getUint32 (self : DataView) (offset : Int) : Except CompMsgErr Nat := getBytes self offset 4

/-- The signed getters read the word of the unsigned ones as two's complement. -/
def getInt8 (self : DataView) (offset : Int) : Except CompMsgErr Int :=
  (getBytes self offset 1).map fun n : Nat => Int.bmod n 256

def getInt16 (self : DataView) (offset : Int) : Except CompMsgErr Int :=
  (getBytes self offset 2).map fun n : Nat => Int.bmod n 65536

def getInt32 (self : DataView) (offset : Int) : Except CompMsgErr Int :=
  (getBytes self offset 4).map fun n : Nat => Int.bmod n 4294967296

theorem put_of_le (self : DataView) (offset : Int) (bytes : List UInt8)
    (h : toSize (offset + (bytes.length - 1 : Nat)) ≤ self.lgth) :
    put self offset bytes = (.ok (), { self with data := write self.data offset bytes }) :=
  if_neg (Nat.not_lt.mpr h)

theorem put_of_gt (self : DataView) (offset : Int) (bytes : List UInt8)
    (h : self.lgth < toSize (offset + (bytes.length - 1 : Nat))) :
    put self offset bytes = (.error .outOfRange, self) :=
  if_pos h

theorem getBytes_of_gt (self : DataView) (offset : Int) (n : Nat)
    (h : self.lgth < toSize (offset + (n - 1 : Nat))) :
    getBytes self offset n = .error .outOfRange :=
  if_pos h

theorem getBytes_of_le (self : DataView) (offset : Int) (n : Nat)
    (h : toSize (offset + (n - 1 : Nat)) ≤ self.lgth) :
    getBytes self offset n = .ok (ofBigEndian (read self.data offset n)) :=
  if_neg (Nat.not_lt.mpr h)

@[simp] theorem put_lgth (self : DataView) (offset : Int) (bytes : List UInt8) :
    (put self offset bytes).2.lgth = self.lgth := by
  rw [put]
  split <;> rfl

/-- A setter leaves the bytes in front of its offset alone, also when it fails. -/
theorem put_of_lt (self : DataView) (offset j : Int) (bytes : List UInt8) (h : j < offset) :
    (put self offset bytes).2.data j = self.data j := by
  rw [put]
  split
  · rfl
  · exact write_of_lt self.data offset j bytes h

theorem getBytes_put (self : DataView) (offset : Int) (bytes : List UInt8)
    (h : toSize (offset + (bytes.length - 1 : Nat)) ≤ self.lgth) :
    getBytes (put self offset bytes).2 offset bytes.length = .ok (ofBigEndian bytes) := by
  rw [getBytes_of_le _ _ _ (by rwa [put_lgth]), put_of_le self offset bytes h, read_write]

/-- A value read back is the value written, cut to the width of the field. -/
theorem getBytes_put_bigEndian (self : DataView) (offset : Int) (n value : Nat)
    (h : toSize (offset + (n - 1 : Nat)) ≤ self.lgth) :
    getBytes (put self offset (bigEndian n value)).2 offset n = .ok (value % 256 ^ n) := by
  have hl := bigEndian_length n value
  have hg := getBytes_put self offset (bigEndian n value) (by rwa [hl])
  rwa [hl, ofBigEndian_bigEndian] at hg

end NodeMcu.CompMsg.View
