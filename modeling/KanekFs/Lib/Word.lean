import Mathlib.Data.Int.Basic
import Mathlib.Tactic.Linarith

/-!
# Fixed-width machine integers

Unsigned words are naturals with the wrap written out: `u64 n` is the value a 64-bit
variable holds after `n` is assigned to it, `sub64` is the wrapping subtraction, and
`toInt32` and `toInt64` are the conversions of an unsigned value to a signed one. The lemmas
say when the wrap is invisible.
-/

namespace Word

/-- Truncation to 16 bits. -/
def u16 (n : ℕ) : ℕ := n % 2 ^ 16

/-- Truncation to 32 bits. -/
def u32 (n : ℕ) : ℕ := n % 2 ^ 32

/-- Truncation to 64 bits. -/
def u64 (n : ℕ) : ℕ := n % 2 ^ 64

/-- 64-bit unsigned subtraction. -/
def sub64 (a b : ℕ) : ℕ := (a + (2 ^ 64 - b % 2 ^ 64)) % 2 ^ 64

/-- Conversion of an unsigned value to a two's complement 32-bit `int`. -/
def toInt32 (n : ℕ) : ℤ :=
  if n % 2 ^ 32 < 2 ^ 31 then (n % 2 ^ 32 : ℕ) else (n % 2 ^ 32 : ℕ) - 2 ^ 32

/-- Conversion of an unsigned value to a two's complement 64-bit integer. -/
def toInt64 (n : ℕ) : ℤ :=
  if n % 2 ^ 64 < 2 ^ 63 then (n % 2 ^ 64 : ℕ) else (n % 2 ^ 64 : ℕ) - 2 ^ 64

/-- Conversion of a signed value to 64 unsigned bits. -/
def ofInt64 (z : ℤ) : ℕ := (z % 2 ^ 64).toNat

theorem u16_of_lt {n : ℕ} (h : n < 2 ^ 16) : u16 n = n := Nat.mod_eq_of_lt h

theorem u32_of_lt {n : ℕ} (h : n < 2 ^ 32) : u32 n = n := Nat.mod_eq_of_lt h

theorem u64_of_lt {n : ℕ} (h : n < 2 ^ 64) : u64 n = n := Nat.mod_eq_of_lt h

theorem u64_lt (n : ℕ) : u64 n < 2 ^ 64 := Nat.mod_lt _ (by decide)

/-- A counter that is raised changes, also where it wraps. -/
theorem u64_succ_ne (n : ℕ) : u64 (n + 1) ≠ n := by
  unfold u64
  omega

/-- A 16-bit field keeps a value exactly when the value fits. -/
theorem u16_eq_self_iff {n : ℕ} : u16 n = n ↔ n < 2 ^ 16 := by
  constructor
  · intro h
    rw [← h]
    exact Nat.mod_lt _ (by decide)
  · exact u16_of_lt

theorem sub64_lt (a b : ℕ) : sub64 a b < 2 ^ 64 := Nat.mod_lt _ (by decide)

/-- A subtraction that does not wrap is the subtraction of naturals. -/
theorem sub64_of_le {a b : ℕ} (h : b ≤ a) (ha : a < 2 ^ 64) : sub64 a b = a - b := by
  unfold sub64
  omega

/-- A counter that is lowered changes, also where it wraps. -/
theorem sub64_one_ne (n : ℕ) : sub64 n 1 ≠ n := by
  unfold sub64
  omega

theorem toInt32_of_lt {n : ℕ} (h : n < 2 ^ 31) : toInt32 n = n := by
  have hmod : n % 2 ^ 32 = n := Nat.mod_eq_of_lt (by omega)
  rw [toInt32, hmod, if_pos h]

/-- The conversion to an `int` never makes a value larger. -/
theorem toInt32_le (n : ℕ) : toInt32 n ≤ n := by
  unfold toInt32
  split <;> omega

theorem toInt64_of_lt {n : ℕ} (h : n < 2 ^ 63) : toInt64 n = n := by
  have hmod : n % 2 ^ 64 = n := Nat.mod_eq_of_lt (by omega)
  rw [toInt64, hmod, if_pos h]

theorem ofInt64_natCast {n : ℕ} (h : n < 2 ^ 64) : ofInt64 n = n := by
  unfold ofInt64
  omega

end Word
