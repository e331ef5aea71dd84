import Mathlib.LinearAlgebra.Lagrange

/-!
# Coefficients of nodal polynomials

`Lagrange.nodal s v` is the product of the `X - v i` for `i` in `s`. One more root changes the coefficients by one
multiplication and one subtraction each (`coeff_nodal_range_succ`, and `absorb_coeff` for coefficients stored the highest
first), dividing out a root gives them back by the synthetic division (`coeff_nodal_erase`), and the coefficients of the
interpolating polynomial are the sums of the values against the coefficients of the Lagrange basis (`coeff_interpolate`).
`Horner.down` is the evaluation of a polynomial given by its coefficients, the highest first.
-/

namespace DecoyAuth.Nodal

open Polynomial Lagrange Finset

section Ring

variable {R : Type*} [CommRing R] (v : ℕ → R)

theorem nodal_range_succ (k : ℕ) : nodal (range (k + 1)) v = nodal (range k) v * (X - C (v k)) := by
  rw [nodal_eq, nodal_eq, prod_range_succ]

theorem coeff_nodal_range_self [Nontrivial R] (k : ℕ) : (nodal (range k) v).coeff k = 1 := by
  have h := (nodal_monic (s := range k) (v := v)).coeff_natDegree
  rwa [natDegree_nodal, card_range] at h

theorem coeff_nodal_range_succ (k m : ℕ) : (nodal (range (k + 1)) v).coeff (m + 1) =
    (nodal (range k) v).coeff m - v k * (nodal (range k) v).coeff (m + 1) := by
  rw [nodal_range_succ, coeff_mul_X_sub_C, mul_comm]

theorem coeff_nodal_range_succ_zero (k : ℕ) :
    (nodal (range (k + 1)) v).coeff 0 = -v k * (nodal (range k) v).coeff 0 := by
  rw [nodal_range_succ, mul_coeff_zero]
  simp [mul_comm]

theorem coeff_nodal_range_two_zero : (nodal (range 2) v).coeff 0 = v 0 * v 1 := by
  simp [nodal_eq, prod_range_succ, mul_coeff_zero]

theorem coeff_nodal_range_two_one : (nodal (range 2) v).coeff 1 = -(v 0 + v 1) := by
  rw [show (1 : ℕ) = 0 + 1 from rfl, show (2 : ℕ) = 1 + 1 from rfl, coeff_nodal_range_succ]
  simp [nodal_eq, sub_eq_add_neg, coeff_C, add_comm]

/-- The update of coefficients for one more root `x`, the highest first and without the leading one, where `i` is the
number of roots before. -/
def absorb (c : ℕ → R) (x : R) (i m : ℕ) : R :=
  if m = 0 then c 0 - x else if m = i then -x * c (i - 1) else c m - x * c (m - 1)

theorem absorb_congr {c c' : ℕ → R} (x : R) {i m : ℕ} (h : ∀ j < i, c j = c' j) (hi : 0 < i) (hm : m ≤ i) :
    absorb c x i m = absorb c' x i m := by
  unfold absorb
  split_ifs with h0 hmi
  · rw [h 0 hi]
  · rw [h (i - 1) (by omega)]
  · rw [h m (by omega), h (m - 1) (by omega)]

theorem absorb_coeff [Nontrivial R] {k m : ℕ} (hm : m ≤ k + 1) :
    absorb (fun j => (nodal (range (k + 1)) v).coeff (k - j)) (v (k + 1)) (k + 1) m =
      (nodal (range (k + 2)) v).coeff (k + 1 - m) := by
  unfold absorb
  beta_reduce
  split_ifs with h0 hmi
  · subst h0
    rw [Nat.sub_zero, Nat.sub_zero, coeff_nodal_range_succ, coeff_nodal_range_self, mul_one]
  · rw [hmi, Nat.sub_self, Nat.add_sub_cancel, Nat.sub_self, coeff_nodal_range_succ_zero _ (k + 1)]
  · rw [show k + 1 - m = k - m + 1 by omega, coeff_nodal_range_succ, show k - (m - 1) = k - m + 1 by omega]

/-- Synthetic division: the quotient's next lower coefficient. -/
theorem coeff_nodal_erase {s : Finset ℕ} {i : ℕ} (hi : i ∈ s) (m : ℕ) : (nodal (s.erase i) v).coeff m =
    (nodal s v).coeff (m + 1) + v i * (nodal (s.erase i) v).coeff (m + 1) := by
  rw [nodal_eq_mul_nodal_erase hi, coeff_X_sub_C_mul]
  ring

theorem coeff_nodal_erase_top [Nontrivial R] {n i : ℕ} (hi : i < n) :
    (nodal ((range n).erase i) v).coeff (n - 1) = 1 := by
  have h := (nodal_monic (s := (range n).erase i) (v := v)).coeff_natDegree
  rwa [natDegree_nodal, card_erase_of_mem (mem_range.2 hi), card_range] at h

end Ring

section Field

variable {F : Type*} [Field F] (v : ℕ → F) (n : ℕ)

/-- The Lagrange basis polynomial is the quotient by its root, scaled by the quotient's value there. -/
theorem basis_eq {i : ℕ} (hi : i < n) : Lagrange.basis (range n) v i =
    C (∏ j ∈ (range n).erase i, (v i - v j))⁻¹ * nodal ((range n).erase i) v := by
  have hi' : i ∈ range n := mem_range.2 hi
  rw [basis_eq_prod_sub_inv_mul_nodal_div hi', nodal_erase_eq_nodal_div hi', nodalWeight, prod_inv_distrib]

theorem coeff_interpolate (r : ℕ → F) (k : ℕ) : (interpolate (range n) v r).coeff k =
    ∑ i ∈ range n, (nodal ((range n).erase i) v).coeff k * (∏ j ∈ (range n).erase i, (v i - v j))⁻¹ * r i := by
  rw [interpolate_apply, finsetSum_coeff]
  refine sum_congr rfl fun i hi => ?_
  rw [basis_eq v n (mem_range.1 hi), coeff_C_mul, coeff_C_mul]
  ring

variable {v n}

/-- A basis polynomial has no other roots than the other nodes. -/
theorem eval_basis_ne_zero (hv : Set.InjOn v (range n)) {i : ℕ} (hi : i < n) {x : F} (hx : ∀ j < n, x ≠ v j) :
    (Lagrange.basis (range n) v i).eval x ≠ 0 := by
  have hmem := mem_range.2 hi
  rw [eval_basis_not_at_node hmem (hx i hi)]
  refine mul_ne_zero (eval_nodal_not_at_node fun j hj => hx j (mem_range.1 hj)) ?_
  exact mul_ne_zero (nodalWeight_ne_zero hv hmem) (inv_ne_zero (sub_ne_zero.2 (hx i hi)))

/-- The value of the interpolating polynomial depends on one ordinate by the basis polynomial. -/
theorem eval_interpolate_sub (r r' : ℕ → F) {i : ℕ} (hi : i < n) (h : ∀ j < n, j ≠ i → r j = r' j) (x : F) :
    (interpolate (range n) v r).eval x - (interpolate (range n) v r').eval x =
      (r i - r' i) * (Lagrange.basis (range n) v i).eval x := by
  rw [← eval_sub, ← map_sub, interpolate_apply, eval_finsetSum, sum_eq_single i]
  · simp
  · intro j hj hji
    simp [h j (mem_range.1 hj) hji]
  · intro hi'
    exact absurd (mem_range.2 hi) hi'

end Field

end DecoyAuth.Nodal

namespace DecoyAuth.Horner

open Polynomial Finset

variable {R : Type*} [CommRing R]

/-- The steps of Horner's rule from coefficient `k - 1` down to coefficient `0`. -/
def down (c : ℕ → R) (x : R) : ℕ → R → R
  | 0, acc => acc
  | k + 1, acc => down c x k (c k + x * acc)

theorem down_eq (c : ℕ → R) (x : R) : ∀ (k : ℕ) (acc : R),
    down c x k acc = ∑ i ∈ range k, c i * x ^ i + acc * x ^ k
  | 0, acc => by simp [down]
  | k + 1, acc => by
    rw [down, down_eq c x k, sum_range_succ, pow_succ]
    ring

/-- Horner's rule evaluates a polynomial of degree below `k + 1`. -/
theorem down_eval {f : R[X]} {k : ℕ} (hf : f.natDegree < k + 1) (x : R) :
    down f.coeff x k (f.coeff k) = f.eval x := by
  rw [down_eq, eval_eq_sum_range' hf, sum_range_succ]

end DecoyAuth.Horner
