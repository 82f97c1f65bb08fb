import Mathlib.Algebra.Order.Ring.Int

/-!
# 64-bit machine arithmetic on natural numbers

Machine words are natural numbers below `2 ^ 64`.  The operations reduce their
result the way the hardware does; the lemmas state when no reduction happens.
-/

namespace Micro.Lib

variable {value : Int} {word left right : Nat}

/-- Unsigned 64-bit addition. -/
def addWord (left right : Nat) : Nat := (left + right) % 2 ^ 64

/-- Unsigned 64-bit subtraction. -/
def subWord (left right : Nat) : Nat :=
  (left + (2 ^ 64 - right % 2 ^ 64)) % 2 ^ 64

def toSigned (word : Nat) : Int := if word < 2 ^ 63 then word else word - 2 ^ 64

def ofSigned (value : Int) : Nat := (value % 2 ^ 64).toNat

def wrapSigned (value : Int) : Int := toSigned (ofSigned value)

/-- A number in a signed 32-bit word. -/
def wrapInt (value : Int) : Int :=
  if value % 2 ^ 32 < 2 ^ 31 then value % 2 ^ 32 else value % 2 ^ 32 - 2 ^ 32

theorem wrapInt_of_range (low : -2 ^ 31 ≤ value) (high : value < 2 ^ 31) :
    wrapInt value = value := by
  unfold wrapInt
  split <;> omega

theorem wrapInt_low (value : Int) : -2 ^ 31 ≤ wrapInt value := by
  unfold wrapInt
  split <;> omega

theorem wrapSigned_of_range (low : -2 ^ 63 ≤ value) (high : value < 2 ^ 63) :
    wrapSigned value = value := by
  unfold wrapSigned toSigned ofSigned
  split <;> omega

theorem toSigned_of_lt (bound : word < 2 ^ 63) : toSigned word = word := if_pos bound

theorem ofSigned_natCast (bound : word < 2 ^ 64) : ofSigned word = word := by
  unfold ofSigned
  omega

theorem addWord_of_lt (noCarry : left + right < 2 ^ 64) : addWord left right = left + right :=
  Nat.mod_eq_of_lt noCarry

theorem subWord_of_le (noBorrow : right ≤ left) (bound : left < 2 ^ 64) :
    subWord left right = left - right := by
  unfold subWord
  omega

end Micro.Lib
