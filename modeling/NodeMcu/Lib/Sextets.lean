import Mathlib.Data.Nat.Bitwise

namespace NodeMcu.Lib.Sextets

/-- Three bytes in four digits of six bits. -/
def first (a : Nat) : Nat := a / 4
def second (a b : Nat) : Nat := a % 4 * 16 + b / 16
def third (b c : Nat) : Nat := b % 16 * 4 + c / 64
def fourth (c : Nat) : Nat := c % 64

/-- The bytes of four digits. -/
def byte1 (p q : Nat) : Nat := p * 4 + q / 16
def byte2 (q r : Nat) : Nat := q % 16 * 16 + r / 4
def byte3 (r t : Nat) : Nat := r % 4 * 64 + t

variable {a b c p q r t : Nat}

theorem first_lt (ha : a < 256) : first a < 64 := by unfold first; omega

theorem second_lt (hb : b < 256) : second a b < 64 := by unfold second; omega

theorem third_lt (hc : c < 256) : third b c < 64 := by unfold third; omega

theorem fourth_lt : fourth c < 64 := Nat.mod_lt _ (by decide)

theorem byte1_lt (hp : p < 64) (hq : q < 64) : byte1 p q < 256 := by unfold byte1; omega

theorem byte2_lt (hr : r < 64) : byte2 q r < 256 := by unfold byte2; omega

theorem byte3_lt (ht : t < 64) : byte3 r t < 256 := by unfold byte3; omega

theorem byte1_digits (hb : b < 256) : byte1 (first a) (second a b) = a := by
  unfold byte1 first second
  omega

theorem byte2_digits (hb : b < 256) (hc : c < 256) : byte2 (second a b) (third b c) = b := by
  unfold byte2 second third
  omega

theorem byte3_digits (hc : c < 256) : byte3 (third b c) (fourth c) = c := by
  unfold byte3 third fourth
  omega

theorem first_bytes (hq : q < 64) : first (byte1 p q) = p := by
  unfold first byte1
  omega

theorem second_bytes (hq : q < 64) (hr : r < 64) : second (byte1 p q) (byte2 q r) = q := by
  unfold second byte1 byte2
  omega

theorem third_bytes (hr : r < 64) (ht : t < 64) : third (byte2 q r) (byte3 r t) = r := by
  unfold third byte2 byte3
  omega

theorem fourth_bytes (ht : t < 64) : fourth (byte3 r t) = t := by
  unfold fourth byte3
  omega

/-- Without a third byte the last bits of the third digit are lost. -/
theorem third_alone (hr : r < 64) : third (byte2 q r) 0 = r ↔ r % 4 = 0 := by
  unfold third byte2
  omega

theorem second_alone (hq : q < 64) : second (byte1 p q) 0 = q ↔ q % 16 = 0 := by
  unfold second byte1
  omega

end NodeMcu.Lib.Sextets
