import Mathlib.Algebra.Group.Nat.Defs
import Mathlib.Algebra.Ring.Int.Defs
import Mathlib.Data.Int.Order.Basic

/-!
Arithmetic of a machine integer `i64` on its exact values.
-/

set_option autoImplicit false

namespace CvdBench.Foundation

def i64Max : Int := 2^63 - 1

def i64Min : Int := -2^63

def saturatingI64 (n : Int) : Int := max i64Min (min i64Max n)

def wrapI64 (n : Int) : Int := Int.bmod n (2^64)

theorem wrapI64_of_fits {n : Int} (hlo : i64Min ≤ n) (hhi : n ≤ i64Max) : wrapI64 n = n := by
  unfold i64Min at hlo
  unfold i64Max at hhi
  exact Int.bmod_eq_of_le_mul_two (by omega) (by omega)

theorem wrapI64_add (n k : Int) : wrapI64 (wrapI64 n + k) = wrapI64 (n + k) := by
  unfold wrapI64
  exact Int.bmod_add_bmod

theorem wrapI64_fits (n : Int) : i64Min ≤ wrapI64 n ∧ wrapI64 n ≤ i64Max := by
  have hlo := @Int.le_bmod n (2^64) (by omega)
  have hhi := @Int.bmod_lt n (2^64) (by omega)
  unfold wrapI64 i64Min i64Max
  omega

end CvdBench.Foundation
