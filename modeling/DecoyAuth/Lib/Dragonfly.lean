import Mathlib.Algebra.Module.Defs

/-!
# The Dragonfly exchange

The algebra of the exchange over any commutative group. A party draws `rand` and `mask`, sends the scalar `rand + mask`
reduced modulo the order and the element `-(mask • P)` for the password element `P`, and computes the secret from what it
receives. Both secrets are `rand • rand' • P`.
-/

namespace DecoyAuth.Dragonfly

variable {A : Type*} [AddCommGroup A]

/-- The element that a party sends. -/
def element (P : A) (mask : ℤ) : A := -(mask • P)

/-- The secret of a party with the number `rand`, from the scalar and the element that it received. -/
def secret (P : A) (rand scalar : ℤ) (E : A) : A := rand • (scalar • P + E)

variable {P : A} {r : ℤ}

theorem emod_zsmul (hr : r • P = 0) (k : ℤ) : (k % r) • P = k • P := by
  conv_rhs => rw [← Int.emod_add_mul_ediv k r, add_zsmul, Int.mul_comm, mul_zsmul, hr, zsmul_zero, add_zero]

/-- **The mask cancels**: both parties have the secret `(rand * rand') • P`. -/
theorem secret_element (hr : r • P = 0) (rand rand' mask' : ℤ) :
    secret P rand ((rand' + mask') % r) (element P mask') = (rand * rand') • P := by
  rw [secret, element, emod_zsmul hr, add_zsmul, add_neg_cancel_right, mul_zsmul]

end DecoyAuth.Dragonfly
