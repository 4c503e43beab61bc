import Mathlib.Algebra.Group.Int.Defs
import Mathlib.Algebra.GroupWithZero.Nat

/-! # The `int` of C

An `int` has 32 bits. A result that does not fit is left modulo 2^32, as
two's complement leaves it. -/
namespace SmartPrince.Lib.CInt

def int (x : Int) : Int := x.bmod (2 ^ 32)

theorem int_eq {x : Int} (hlo : -2 ^ 31 ≤ x) (hhi : x < 2 ^ 31) : int x = x :=
  Int.bmod_eq_of_le (by omega) (by omega)

theorem int_natCast {n : Nat} (h : n < 2 ^ 31) : int n = n := int_eq (by omega) (by omega)

/-- Only the last of several sums is cut. -/
theorem int_int_add (x y : Int) : int (int x + y) = int (x + y) := Int.bmod_add_bmod

theorem int_int_mul (x y : Int) : int (int x * y) = int (x * y) := Int.bmod_mul_bmod

/-- What an `int` leaves of a number. -/
theorem int_spec (x : Int) : -2 ^ 31 ≤ int x ∧ int x < 2 ^ 31 ∧ ∃ q, x = int x + 2 ^ 32 * q := by
  refine ⟨Int.le_bmod (by decide), Int.bmod_lt (by decide), ?_⟩
  obtain ⟨q, hq⟩ : ((2 ^ 32 : Nat) : Int) ∣ x - int x := Int.dvd_self_sub_bmod
  exact ⟨q, by omega⟩

theorem int_lt (x : Int) : int x < 2 ^ 31 := (int_spec x).2.1

/-- One that is not negative is the remainder. -/
theorem int_of_nonneg {n : Nat} (h : 0 ≤ int n) : int n = (n % 2 ^ 32 : Nat) := by
  obtain ⟨-, hlt, q, hq⟩ := int_spec n
  generalize int (n : Int) = x at *
  omega

/-- A result that is too large loses 2^32 at least. -/
theorem int_le_of_overflow {x : Int} (h : 2 ^ 31 ≤ x) : int x ≤ x - 2 ^ 32 := by
  obtain ⟨-, hlt, q, hq⟩ := int_spec x
  omega

/-- A result that is too large by less than 2^31 is negative. -/
theorem int_overflow {x : Int} (hlo : 2 ^ 31 ≤ x) (hhi : x < 2 ^ 32) : int x = x - 2 ^ 32 := by
  have hneg : int (x - 2 ^ 32) = x - 2 ^ 32 := int_eq (by omega) (by omega)
  rw [← hneg]
  exact (Int.sub_bmod_right x (2 ^ 32)).symm

end SmartPrince.Lib.CInt
