/-
  Zcoin.Elysium.Uint256 — the wide arithmetic of the token layer
  (`arith_uint256.h`, `elysium/uint256_extensions.h`).

  Amounts are `int64_t`; products of them are formed in `arith_uint256`.  A 256-bit
  operation that leaves its range ends in `Abort.overflow` here, where the code would
  go on with the value modulo `2^256`: a program that returns has not wrapped around.
-/
import Zcoin.Basic
import Zcoin.Lib.Except

namespace Zcoin.Elysium

open Lib.Except

/-! ## §1. `arith_uint256`. -/

/-- A value of `arith_uint256`, or the overflow of the operation that forms it. -/
def fit256 (n : Nat) : Except Abort Nat :=
  if n < 2 ^ 256 then .ok n else .error .overflow

/-- `a + b`. -/
def add256 (a b : Nat) : Except Abort Nat := fit256 (a + b)

/-- `a * b`. -/
def mul256 (a b : Nat) : Except Abort Nat := fit256 (a * b)

/-- `a - b`. -/
def sub256 (a b : Nat) : Except Abort Nat :=
  if b ≤ a then .ok (a - b) else .error .overflow

/-- `a / b`; `operator/=` throws `uint_error` on a zero divisor. -/
def div256 (a b : Nat) : Except Abort Nat :=
  if b = 0 then .error (.threw (.runtimeError "Division by zero")) else .ok (a / b)

theorem fit256_of_lt {n : Nat} (h : n < 2 ^ 256) : fit256 n = .ok n := if_pos h

theorem add256_of_lt {a b : Nat} (h : a + b < 2 ^ 256) : add256 a b = .ok (a + b) :=
  fit256_of_lt h

theorem mul256_of_lt {a b : Nat} (h : a * b < 2 ^ 256) : mul256 a b = .ok (a * b) :=
  fit256_of_lt h

theorem sub256_of_le {a b : Nat} (h : b ≤ a) : sub256 a b = .ok (a - b) := if_pos h

theorem div256_of_ne_zero {a b : Nat} (h : b ≠ 0) : div256 a b = .ok (a / b) := if_neg h

theorem div256_zero (a : Nat) :
    div256 a 0 = .error (.threw (.runtimeError "Division by zero")) := rfl

/-! ## §2. `uint256_extensions.h`. -/

/-- `std::numeric_limits<int64_t>::max()`, also `MAX_INT_8_BYTES`. -/
def maxInt64 : Nat := 9223372036854775807

/-- `Modulo256`. -/
def modulo256 (a n : Nat) : Except Abort Nat := do
  let quotient ← div256 a n
  let multiple ← mul256 n quotient
  sub256 a multiple

/-- `ConvertTo256`. -/
def convertTo256 (number : Int) : Except Abort Nat := do
  assertThat (decide (0 ≤ number))
  return number.toNat

/-- `ConvertTo64`. -/
def convertTo64 (number : Nat) : Except Abort Int := do
  assertThat (decide (number ≤ maxInt64))
  return number

/-- `DivideAndRoundUp`. -/
def divideAndRoundUp (numerator denominator : Nat) : Except Abort Nat :=
  if numerator = 0 then .ok 0
  else do
    let quotient ← div256 (numerator - 1) denominator
    add256 1 quotient

theorem mul_lt_of_le {a b : Nat} (ha : a ≤ maxInt64) (hb : b ≤ maxInt64) : a * b < 2 ^ 255 :=
  calc a * b ≤ maxInt64 * maxInt64 := Nat.mul_le_mul ha hb
    _ < 2 ^ 255 := by decide

theorem modulo256_eq {a n : Nat} (ha : a < 2 ^ 256) (hn : n ≠ 0) : modulo256 a n = .ok (a % n) := by
  have hle : n * (a / n) ≤ a := Nat.mul_div_le a n
  unfold modulo256
  rw [div256_of_ne_zero hn, ok_bind, mul256_of_lt (by omega), ok_bind, sub256_of_le hle,
    Nat.mod_eq_sub]

theorem convertTo256_of_nonneg {number : Int} (h : 0 ≤ number) :
    convertTo256 number = .ok number.toNat := by
  unfold convertTo256
  rw [decide_eq_true h]
  rfl

theorem convertTo256_ofNat (n : Nat) : convertTo256 (n : Int) = .ok n :=
  convertTo256_of_nonneg (Int.natCast_nonneg n)

theorem convertTo64_of_le {number : Nat} (h : number ≤ maxInt64) :
    convertTo64 number = .ok (number : Int) := by
  unfold convertTo64
  rw [decide_eq_true h]
  rfl

end Zcoin.Elysium
