import DecoyAuth.Weaver.RoundTrip

/-!
# The polynomials in the arrays of `precompute`

The first loops of `precompute` leave the product of all `X - x[i]` in `a[]`, and the loop of column `i` leaves the product
without the `i`-th factor in `b[]`, each as coefficients of an integer polynomial mod `p`
(`precompute_holds_polynomials`). Both arrays are written in place. Their entries are residues in the C prototype; in
hostap they are residues and integers of either sign, of which only the class counts. Equal abscissae change nothing here:
the factors are counted by their index.
-/

namespace DecoyAuth.Weaver

open Polynomial Lagrange Finset

/-! ## The array of a column -/

section Quotients

variable {p : ℕ} (R : Reduction p) (n : ℕ) (x : ℤ) (a : List ℤ)

/-- `b[]` after the passes `j = 0 .. k - 1`; the entries above `k` are fresh bignums. -/
def quotients : ℕ → List ℤ
  | 0 => (List.replicate n 0).set 0 1
  | k + 1 => (quotients k).set (k + 1) (R.sum (a.getD k 0 + R.mul (x * (quotients k).getD k 0)))

theorem length_quotients : ∀ k, (quotients R n x a k).length = n
  | 0 => by simp [quotients]
  | k + 1 => by rw [quotients, List.length_set, length_quotients k]

variable {n}

/-- A pass writes the next entry and keeps the ones before it, so `b[]` holds the synthetic division. -/
theorem quotients_getD : ∀ {k : ℕ}, k < n → ∀ {j : ℕ}, j ≤ k → (quotients R n x a k).getD j 0 = quotientCoeff R x a j
  | 0, hk, j, hj => by
    obtain rfl : j = 0 := by omega
    rw [quotients, getD_set (by simp; omega), if_pos rfl, quotientCoeff]
  | k + 1, hk, j, hj => by
    rw [quotients, getD_set (by rw [length_quotients]; omega), quotients_getD (by omega) le_rfl]
    by_cases h : j = k + 1
    · rw [if_pos h, h, quotientCoeff]
    · rw [if_neg h, quotients_getD (by omega) (by omega)]

end Quotients

/-- The entries of the matrix are read from the `b[]` of their column. -/
theorem matrixEntry_eq_getD {p : ℕ} (R : Reduction p) (xs a : List ℤ) {n j : ℕ} (hj : j < n) (i : ℕ) :
    matrixEntry R xs n a j i = bnModMul ((quotients R n (xs.getD i 0) a (n - 1)).getD (n - 1 - j) 0)
      ((bnModInverse (rootProduct R xs n i) p).getD 0) p := by
  rw [matrixEntry, quotients_getD R (xs.getD i 0) a (by omega) (by omega)]

/-! ## The arrays of the two implementations -/

namespace Prototype

/-- `a[]` after the first nested loop. -/
def masterCoeffs (xs : List ℤ) (n p : ℕ) : List ℤ := Weaver.masterCoeffs (Reduction.eager p) xs n (n - 2)

/-- `b[]` of column `i`. -/
def quotients (xs : List ℤ) (n p i : ℕ) : List ℤ :=
  Weaver.quotients (Reduction.eager p) n (xs.getD i 0) (masterCoeffs xs n p) (n - 1)

end Prototype

namespace Hostap

/-- `a[]` after the first nested loop. -/
def masterCoeffs (xs : List ℤ) (n p : ℕ) : List ℤ := Weaver.masterCoeffs (Reduction.lazy p) xs n (n - 2)

/-- `b[]` of column `i`. -/
def quotients (xs : List ℤ) (n p i : ℕ) : List ℤ :=
  Weaver.quotients (Reduction.lazy p) n (xs.getD i 0) (masterCoeffs xs n p) (n - 1)

end Hostap

/-! ## The integer polynomials -/

/-- The product of the `X - x[m]` for `m` in `s`, over the integers. -/
noncomputable def factors (xs : List ℤ) (s : Finset ℕ) : ℤ[X] := ∏ m ∈ s, (X - C (xs.getD m 0))

theorem cast_coeff_factors (p : ℕ) (xs : List ℤ) (s : Finset ℕ) (k : ℕ) :
    (((factors xs s).coeff k : ℤ) : ZMod p) = (nodal s (node p xs)).coeff k := by
  have hmap : (factors xs s).map (Int.castRingHom (ZMod p)) = nodal s (node p xs) := by
    rw [factors, nodal_eq, Polynomial.map_prod]
    refine prod_congr rfl fun m _ => ?_
    simp [node]
  rw [← hmap, coeff_map]
  rfl

/-- `a[]` and the `b[]` of each column have `n` entries and hold the two products mod `p`, the highest coefficient first:
`a[]` without the leading one. -/
structure HoldsPolynomials (p n : ℕ) (xs a : List ℤ) (b : ℕ → List ℤ) : Prop where
  length_master : a.length = n
  master : ∀ k < n, a.getD k 0 ≡ (factors xs (range n)).coeff (n - 1 - k) [ZMOD p]
  length_quotient : ∀ i < n, (b i).length = n
  quotient : ∀ i < n, ∀ k < n, (b i).getD k 0 ≡ (factors xs ((range n).erase i)).coeff (n - 1 - k) [ZMOD p]

/-- Whatever the loops reduce, the arrays hold the polynomials. -/
theorem holdsPolynomials {p : ℕ} [Fact p.Prime] (R : Reduction p) {xs : List ℤ} (hxs : ∀ x ∈ xs, 0 ≤ x) {n : ℕ} (hn : 2 ≤ n) :
    HoldsPolynomials p n xs (masterCoeffs R xs n (n - 2))
      fun i => quotients R n (xs.getD i 0) (masterCoeffs R xs n (n - 2)) (n - 1) := by
  have hmaster := isMaster_masterCoeffs R hxs hn
  refine ⟨length_masterCoeffs R xs n (n - 2), fun k hk => ?_, fun i _ => length_quotients R n _ _ _, fun i hi k hk => ?_⟩
  · rw [← ZMod.intCast_eq_intCast_iff, cast_coeff_factors]
    exact hmaster k hk
  · rw [← ZMod.intCast_eq_intCast_iff, cast_coeff_factors, quotients_getD R _ _ (by omega) (by omega)]
    exact quotientCoeff_coeff R hmaster hi hk

/-- **The loops of `precompute` compute the polynomials**, in hostap and in the C prototype. -/
theorem precompute_holds_polynomials {p : ℕ} (hp : p.Prime) {xs : List ℤ} (hn : 2 ≤ xs.length) (hxs : ∀ x ∈ xs, 0 ≤ x) :
    HoldsPolynomials p xs.length xs (Hostap.masterCoeffs xs xs.length p) (Hostap.quotients xs xs.length p) ∧
      HoldsPolynomials p xs.length xs (Prototype.masterCoeffs xs xs.length p) (Prototype.quotients xs xs.length p) := by
  have := Fact.mk hp
  exact ⟨holdsPolynomials (Reduction.lazy p) hxs hn, holdsPolynomials (Reduction.eager p) hxs hn⟩

/-- Two of the three abscissae are in one class mod 7; hostap's arrays hold integers of both signs. -/
theorem precompute_holds_polynomials_seven :
    HoldsPolynomials 7 3 [1, 8, 3] [2, 7, -3] (Hostap.quotients [1, 8, 3] 3 7) ∧
      HoldsPolynomials 7 3 [1, 8, 3] (Prototype.masterCoeffs [1, 8, 3] 3 7) (Prototype.quotients [1, 8, 3] 3 7) := by
  have h := @precompute_holds_polynomials 7 (by decide) [1, 8, 3] (by decide) (by decide)
  have ha : Hostap.masterCoeffs [1, 8, 3] 3 7 = [2, 7, -3] := by decide
  exact ⟨ha ▸ h.1, h.2⟩

end DecoyAuth.Weaver
