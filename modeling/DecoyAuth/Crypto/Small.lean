import DecoyAuth.Crypto.Ec
import Mathlib.Tactic.NormNum.Prime

/-!
# Small curves

The curve parameters are satisfiable: a curve over 23 elements whose 29 points form a group of prime order, without a
point of abscissa `-b / a`, a curve over 11 elements with a point of order two, and a curve over 23 elements with points
of the abscissae `-b / a` and `3 * b / a` and a point of order two.
-/

namespace DecoyAuth.Small

/-- `y² = x³ + x + 4` over the field of 23 elements. -/
def params : EcParams where
  prime := 23
  a := 1
  b := 4
  prime_prime := by norm_num
  prime_mod_four := by norm_num
  a_pos := by norm_num
  a_lt := by norm_num
  b_pos := by norm_num
  b_lt := by norm_num
  disc_ne_zero := by norm_num [CurveParams.Nonsingular]

theorem order_smul_affine : ∀ x y : Fin 23, params.OnCurve (x.val : ℤ) (y.val : ℤ) →
    29 • params.toPoint (.affine x.val y.val) = 0 := by
  decide +kernel

def group : EcGroup where
  toEcParams := params
  order := 29
  order_prime := by norm_num
  numBytes_prime_le := by decide
  hasOrder := by
    intro P
    rw [← EcParams.toPoint_ofPoint P]
    cases P with
    | zero => exact nsmul_zero _
    | some x y h =>
      exact order_smul_affine ⟨x.val, x.val_lt⟩ ⟨y.val, y.val_lt⟩ (by simpa using EcParams.nonsingular_iff.1 h)

theorem ne_neg_b_div_a : ∀ x y : ZMod params.prime, params.OnCurve x y →
    x ≠ -(params.b : ZMod params.prime) * (params.a : ZMod params.prime)⁻¹ := by
  have h : ∀ x y : ZMod 23, y ^ 2 = x ^ 3 + (1 : ℕ) * x + (4 : ℕ) → x ≠ -((4 : ℕ) : ZMod 23) * ((1 : ℕ) : ZMod 23)⁻¹ := by
    decide +kernel
  exact h

/-- `y² = x³ + x + 2` over the field of 11 elements, where `(7, 0)` has order two. -/
def torsion : EcParams where
  prime := 11
  a := 1
  b := 2
  prime_prime := by norm_num
  prime_mod_four := by norm_num
  a_pos := by norm_num
  a_lt := by norm_num
  b_pos := by norm_num
  b_lt := by norm_num
  disc_ne_zero := by norm_num [CurveParams.Nonsingular]

/-- `y² = x³ + 2x + 11` over the field of 23 elements, with the points `(6, 3)`, where `x = -b / a`, `(5, 10)`, where
`x = 3 * b / a`, and `(2, 0)`. -/
def exceptional : EcParams where
  prime := 23
  a := 2
  b := 11
  prime_prime := by norm_num
  prime_mod_four := by norm_num
  a_pos := by norm_num
  a_lt := by norm_num
  b_pos := by norm_num
  b_lt := by norm_num
  disc_ne_zero := by norm_num [CurveParams.Nonsingular]

end DecoyAuth.Small
