import DecoyAuth.Lib.Nodal
import DecoyAuth.Weaver.Defs

/-!
# The weaver interpolates

Modulo `p`, for every `Reduction`: `a[]` holds the coefficients of the product of all `X - x[i]`
(`isMaster_masterCoeffs`), the `b[]` of column `i` those of the product without the `i`-th factor
(`quotientCoeff_coeff`), so that `weave` of a precomputed matrix gives the coefficients of the interpolating
polynomial (`weaveCoeff_precompute`) and `evaluate` its values (`evaluateLoop_weave`).
-/

namespace DecoyAuth.Weaver

open Polynomial Lagrange Finset

variable {p : ℕ} (R : Reduction p) (xs : List ℤ)

/-- The abscissae as residues. -/
def node (p : ℕ) (xs : List ℤ) (i : ℕ) : ZMod p := (xs.getD i 0 : ℤ)

/-! ## The in-place update -/

theorem length_lowerCoeffs (x : ℤ) : ∀ (m : ℕ) (a : List ℤ), (lowerCoeffs R x m a).length = a.length
  | 0, _ => rfl
  | m + 1, a => by rw [lowerCoeffs, length_lowerCoeffs x m, List.length_set]

theorem length_masterCoeffs (n : ℕ) : ∀ k, (masterCoeffs R xs n k).length = n
  | 0 => by simp [masterCoeffs, initialCoeffs]
  | k + 1 => by simp [masterCoeffs, absorbRoot, length_lowerCoeffs, length_masterCoeffs n k]

theorem getD_set {a : List ℤ} {i j : ℕ} (hi : i < a.length) (z : ℤ) :
    (a.set i z).getD j 0 = if j = i then z else a.getD j 0 := by
  by_cases h : j = i
  · subst h; simp [hi]
  · simp [h, List.getElem?_set_ne (Ne.symm h)]

/-- Running downwards, the loop reads `a[m - 1]` before it is overwritten, so the update is simultaneous. -/
theorem lowerCoeffs_getD (x : ℤ) : ∀ (m : ℕ) (a : List ℤ) (j : ℕ), m < a.length →
    (((lowerCoeffs R x m a).getD j 0 : ℤ) : ZMod p) =
      if 1 ≤ j ∧ j ≤ m then (a.getD j 0 : ZMod p) - x * (a.getD (j - 1) 0 : ℤ) else (a.getD j 0 : ℤ)
  | 0, a, j, _ => by
    rw [if_neg (by omega)]; rfl
  | m + 1, a, j, hm => by
    rw [lowerCoeffs, lowerCoeffs_getD x m _ j (by rw [List.length_set]; omega), getD_set hm]
    by_cases hj : j = m + 1
    · subst hj
      rw [if_neg (by omega), if_pos rfl, if_pos (by omega)]
      simp
    · by_cases h : 1 ≤ j ∧ j ≤ m
      · rw [if_pos h, if_neg hj, if_pos (by omega), getD_set hm, if_neg (by omega)]
      · rw [if_neg h, if_neg hj, if_neg (by omega)]

theorem getD_nonneg {xs : List ℤ} (hxs : ∀ x ∈ xs, 0 ≤ x) (i : ℕ) : 0 ≤ xs.getD i 0 := by
  rw [List.getD_eq_getElem?_getD]
  cases h : xs[i]? with
  | none => simp
  | some x => exact hxs x (List.mem_of_getElem? h)

/-- A pass over `a[]` absorbs one root, whatever it does to `a[i]` and `a[0]` apart from their residues. -/
theorem getD_pass {x top : ℤ} {bottom : ℤ → ℤ} {i : ℕ} {a : List ℤ} (hi : 0 < i) (hlen : i < a.length)
    (htop : (top : ZMod p) = -x * (a.getD (i - 1) 0 : ℤ)) (hbottom : ∀ z, ((bottom z : ℤ) : ZMod p) = z - x) {m : ℕ}
    (hm : m ≤ i) :
    ((((lowerCoeffs R x (i - 1) (a.set i top)).set 0 (bottom ((lowerCoeffs R x (i - 1) (a.set i top)).getD 0 0))).getD m 0
      : ℤ) : ZMod p) = Nodal.absorb (fun j => ((a.getD j 0 : ℤ) : ZMod p)) (x : ZMod p) i m := by
  have hlow := fun j => lowerCoeffs_getD R x (i - 1) (a.set i top) j (by rw [List.length_set]; omega)
  unfold Nodal.absorb
  rw [getD_set (by rw [length_lowerCoeffs, List.length_set]; omega)]
  -- the three places of a pass: `a[0]`, `a[i]`, and the inner loop
  split_ifs with h0 hmi
  · rw [hbottom, hlow, if_neg (by omega), getD_set hlen, if_neg (by omega)]
  · rw [hmi, hlow, if_neg (by omega), getD_set hlen, if_pos rfl, htop]
  · rw [hlow, if_pos (by omega), getD_set hlen, if_neg hmi, getD_set hlen, if_neg (by omega)]

/-- One pass absorbs one root. -/
theorem absorbRoot_getD {x : ℤ} (hx : 0 ≤ x) {i : ℕ} (hi : 0 < i) {a : List ℤ} (hlen : i < a.length) {m : ℕ} (hm : m ≤ i) :
    (((absorbRoot R x i a).getD m 0 : ℤ) : ZMod p) =
      Nodal.absorb (fun j => ((a.getD j 0 : ℤ) : ZMod p)) (x : ZMod p) i m := by
  refine getD_pass R hi hlen ?_ (fun z => cast_bnModSub z x) hm
  rw [bnSetNegative_of_nonneg hx, Reduction.cast_mul, Int.cast_mul, Int.cast_neg]

section Prime

variable [Fact p.Prime] {xs} {n : ℕ}

/-- Before the loop `a[]` belongs to the first two roots. -/
theorem initialCoeffs_coeff (hn : 2 ≤ n) {m : ℕ} (hm : m < 2) :
    (((initialCoeffs (p := p) xs n).getD m 0 : ℤ) : ZMod p) = (nodal (range 2) (node p xs)).coeff (1 - m) := by
  unfold initialCoeffs
  rw [getD_set (by simp; omega), getD_set (by simp; omega), bnSetNegative_of_nonneg (bnModAdd_nonneg cast_pos _ _)]
  obtain rfl | rfl : m = 0 ∨ m = 1 := by omega
  · rw [Nodal.coeff_nodal_range_two_one]; simp [node]
  · rw [Nodal.coeff_nodal_range_two_zero]; simp [node]

/-- After the passes up to `k + 1`, `a[m]` is the coefficient of `X ^ (k + 1 - m)` in the product of the first `k + 2`
factors. -/
theorem masterCoeffs_coeff (hxs : ∀ x ∈ xs, 0 ≤ x) : ∀ {k : ℕ}, k + 2 ≤ n → ∀ {m : ℕ}, m < k + 2 →
    (((masterCoeffs R xs n k).getD m 0 : ℤ) : ZMod p) = (nodal (range (k + 2)) (node p xs)).coeff (k + 1 - m)
  | 0, hk, m, hm => initialCoeffs_coeff hk hm
  | k + 1, hk, m, hm => by
    have hlen := length_masterCoeffs R xs n k
    have ih : ∀ j < k + 2, _ := fun j => masterCoeffs_coeff hxs (show k + 2 ≤ n by omega) (m := j)
    rw [masterCoeffs, absorbRoot_getD R (getD_nonneg hxs _) (by omega) (by omega) (by omega),
      Nodal.absorb_congr _ ih (by omega) (by omega)]
    exact Nodal.absorb_coeff _ (by omega)

/-- **The master polynomial**: `a[]` holds the coefficients of the product of all factors, the highest first and without
the leading one. -/
def IsMaster (p n : ℕ) (xs a : List ℤ) : Prop :=
  ∀ m < n, ((a.getD m 0 : ℤ) : ZMod p) = (nodal (range n) (node p xs)).coeff (n - 1 - m)

theorem isMaster_masterCoeffs (hxs : ∀ x ∈ xs, 0 ≤ x) (hn : 2 ≤ n) : IsMaster p n xs (masterCoeffs R xs n (n - 2)) := by
  intro m hm
  have h := masterCoeffs_coeff R hxs (show n - 2 + 2 ≤ n by omega) (show m < n - 2 + 2 by omega)
  rwa [show n - 2 + 2 = n by omega, show n - 2 + 1 = n - 1 by omega] at h

/-- **The quotients.** `b[j]` of column `i` is the coefficient of `X ^ (n - 1 - j)` in the product without the
`i`-th factor. -/
theorem quotientCoeff_coeff {a : List ℤ} (ha : IsMaster p n xs a) {i : ℕ} (hi : i < n) : ∀ {j : ℕ}, j < n →
    ((quotientCoeff R (xs.getD i 0) a j : ℤ) : ZMod p) = (nodal ((range n).erase i) (node p xs)).coeff (n - 1 - j)
  | 0, _ => by rw [Nat.sub_zero, Nodal.coeff_nodal_erase_top _ hi]; simp [quotientCoeff]
  | j + 1, hj => by
    rw [quotientCoeff, Reduction.cast_sum, Int.cast_add, Reduction.cast_mul, Int.cast_mul,
      quotientCoeff_coeff ha hi (by omega), ha j (by omega), Nodal.coeff_nodal_erase _ (mem_range.2 hi) (n - 1 - (j + 1)),
      show n - 1 - j = n - 1 - (j + 1) + 1 by omega]
    rfl

end Prime

/-! ## The matrix -/

theorem foldl_rootProduct (i : ℕ) : ∀ (n : ℕ), ((rootProduct R xs n i : ℤ) : ZMod p) =
    ∏ j ∈ (range n).erase i, (node p xs i - node p xs j)
  | 0 => by simp [rootProduct]
  | n + 1 => by
    have ih := foldl_rootProduct i n
    unfold rootProduct at ih ⊢
    rw [List.range_succ, List.foldl_append, List.foldl_cons, List.foldl_nil]
    by_cases h : n = i
    · subst h
      rw [if_neg (by simp), ih, range_add_one, erase_insert (by simp), erase_eq_of_notMem (by simp)]
    · rw [if_pos h, cast_bnModMul, ih, Reduction.cast_diff, range_add_one, erase_insert_of_ne h,
        prod_insert (by simp), mul_comm]
      simp [node]

/-- An entry of the matrix is a coefficient of a polynomial of the Lagrange basis, whatever the loops reduce. -/
theorem cast_matrixEntry [Fact p.Prime] {xs a : List ℤ} {n : ℕ} (ha : IsMaster p n xs a) {j i : ℕ} (hj : j < n) (hi : i < n) :
    ((matrixEntry R xs n a j i : ℤ) : ZMod p) = (nodal ((range n).erase i) (node p xs)).coeff j *
      (∏ j ∈ (range n).erase i, (node p xs i - node p xs j))⁻¹ := by
  rw [matrixEntry, cast_bnModMul, cast_bnModInverse_getD, foldl_rootProduct, quotientCoeff_coeff R ha hi (by omega),
    show n - 1 - (n - 1 - j) = j by omega]

theorem getD_flat (f : ℕ → ℕ → ℤ) {n j i : ℕ} (hj : j < n) (hi : i < n) :
    ((List.range (n * n)).map fun k => f (k / n) (k % n)).getD (j * n + i) 0 = f j i := by
  have hlt : j * n + i < n * n := by
    calc j * n + i < j * n + n := by omega
      _ = (j + 1) * n := by ring
      _ ≤ n * n := Nat.mul_le_mul_right n hj
  have hd : (j * n + i) / n = j := by
    rw [mul_comm, Nat.mul_add_div (by omega), Nat.div_eq_of_lt hi, Nat.add_zero]
  have hr : (j * n + i) % n = i := by rw [mul_comm, Nat.mul_add_mod, Nat.mod_eq_of_lt hi]
  simp [List.getElem?_range hlt, hd, hr]

theorem getD_precompute {n j i : ℕ} (hj : j < n) (hi : i < n) : (precompute R xs n).getD (j * n + i) 0 =
    matrixEntry R xs n (masterCoeffs R xs n (n - 2)) j i :=
  getD_flat (matrixEntry R xs n (masterCoeffs R xs n (n - 2))) hj hi

/-- The sum loop of `weave`. -/
theorem cast_weaveCoeff (ys matrix : List ℤ) (n i : ℕ) : ((weaveCoeff p ys matrix n i : ℤ) : ZMod p) =
    ∑ j ∈ range n, (matrix.getD (i * n + j) 0 : ZMod p) * (ys.getD j 0 : ℤ) := by
  have h : ∀ m, (((List.range m).foldl
      (fun c j => bnModAdd c (bnModMul (matrix.getD (i * n + j) 0) (ys.getD j 0) p) p) 0 : ℤ) : ZMod p) =
        ∑ j ∈ range m, (matrix.getD (i * n + j) 0 : ZMod p) * (ys.getD j 0 : ℤ) := by
    intro m
    induction m with
    | zero => simp
    | succ m ih =>
      rw [List.range_succ, List.foldl_append, List.foldl_cons, List.foldl_nil, cast_bnModAdd, ih, sum_range_succ,
        cast_bnModMul]
  exact h n

section Prime

variable [Fact p.Prime] {xs} {n : ℕ} (hxs : ∀ x ∈ xs, 0 ≤ x) (hn : 2 ≤ n)
include hxs hn

/-- **Weaving is interpolation.** Coefficient `k` of the woven values is coefficient `k` of the polynomial of degree
below `n` through the points `(x[i], y[i])`. -/
theorem weaveCoeff_precompute (ys : List ℤ) {k : ℕ} (hk : k < n) :
    ((weaveCoeff p ys (precompute R xs n) n k : ℤ) : ZMod p) =
      (interpolate (range n) (node p xs) fun i => ((ys.getD i 0 : ℤ) : ZMod p)).coeff k := by
  rw [cast_weaveCoeff, Nodal.coeff_interpolate]
  refine sum_congr rfl fun i hi => ?_
  have hi' := mem_range.1 hi
  rw [getD_precompute R xs hk hi', cast_matrixEntry R (isMaster_masterCoeffs R hxs hn) hk hi']

end Prime

/-! ## Decoding -/

theorem cast_evaluateLoop (poly : List ℤ) (x : ℤ) : ∀ (k : ℕ) (result : ℤ),
    ((evaluateLoop R poly x k result : ℤ) : ZMod p) =
      Horner.down (fun i => ((poly.getD i 0 : ℤ) : ZMod p)) (x : ZMod p) k result
  | 0, _ => rfl
  | k + 1, result => by
    rw [evaluateLoop, cast_evaluateLoop poly x k, Horner.down]
    simp

theorem getD_weave (ys matrix : List ℤ) {n k : ℕ} (hk : k < n) :
    (weave p ys matrix n).getD k 0 = weaveCoeff p ys matrix n k := by
  simp [weave, List.getElem?_range hk]

/-- The abscissae are pairwise distinct mod `p`. -/
def DistinctMod (p : ℕ) (xs : List ℤ) : Prop := xs.Pairwise fun a b : ℤ => (a : ZMod p) ≠ (b : ZMod p)

theorem node_injOn {xs : List ℤ} (h : DistinctMod p xs) : Set.InjOn (node p xs) (range xs.length) := by
  intro i hi j hj hij
  rw [coe_range, Set.mem_Iio] at hi hj
  unfold DistinctMod at h
  rw [List.pairwise_iff_getElem] at h
  simp only [node, List.getD_eq_getElem?_getD, List.getElem?_eq_getElem hi, List.getElem?_eq_getElem hj,
    Option.getD_some] at hij
  rcases lt_trichotomy i j with hlt | heq | hgt
  · exact absurd hij (h i j hi hj hlt)
  · exact heq
  · exact absurd hij.symm (h j i hj hi hgt)

/-- What `precompute` is called with: `n` non-negative integers that are pairwise distinct mod `p`. -/
structure Abscissae (p n : ℕ) (xs : List ℤ) : Prop where
  length_eq : xs.length = n
  nonneg : ∀ x ∈ xs, 0 ≤ x
  distinct : DistinctMod p xs

theorem Abscissae.injOn {n : ℕ} {xs : List ℤ} (hxs : Abscissae p n xs) : Set.InjOn (node p xs) (range n) := by
  have h := node_injOn hxs.distinct
  rwa [hxs.length_eq] at h

section Prime

variable [Fact p.Prime] {xs : List ℤ} (hxs : ∀ x ∈ xs, 0 ≤ x) (hn : 2 ≤ xs.length) (hd : DistinctMod p xs)
include hxs hn hd

/-- Horner's loop on woven coefficients, whatever it reduces, gives the interpolating polynomial's value. -/
theorem evaluateLoop_weave (R' : Reduction p) (ys : List ℤ) (x : ℤ) :
    let c := weave p ys (precompute R xs xs.length) xs.length
    ((evaluateLoop R' c x (xs.length - 1) (c.getD (xs.length - 1) 0) : ℤ) : ZMod p) =
      (interpolate (range xs.length) (node p xs) fun i => ((ys.getD i 0 : ℤ) : ZMod p)).eval (x : ZMod p) := by
  intro c
  set f := interpolate (range xs.length) (node p xs) fun i => ((ys.getD i 0 : ℤ) : ZMod p) with hf
  have hc : ∀ k < xs.length, ((c.getD k 0 : ℤ) : ZMod p) = f.coeff k := fun k hk => by
    rw [getD_weave _ _ hk, weaveCoeff_precompute R hxs hn ys hk]
  have hdeg : f.natDegree < xs.length - 1 + 1 := by
    have h := natDegree_le_of_degree_le
      (degree_interpolate_le (fun i => ((ys.getD i 0 : ℤ) : ZMod p)) (node_injOn hd))
    rw [card_range] at h
    exact Nat.lt_succ_of_le h
  rw [cast_evaluateLoop, hc _ (by omega), ← Horner.down_eval hdeg, Horner.down_eq, Horner.down_eq]
  congr 1
  refine sum_congr rfl fun k hk => ?_
  rw [mem_range] at hk
  rw [hc k (by omega)]

/-- At a node the interpolating polynomial has the woven value. -/
theorem evaluateLoop_weave_node (R' : Reduction p) (ys : List ℤ) {i : ℕ} (hi : i < xs.length) :
    let c := weave p ys (precompute R xs xs.length) xs.length
    ((evaluateLoop R' c (xs.getD i 0) (xs.length - 1) (c.getD (xs.length - 1) 0) : ℤ) : ZMod p) =
      (ys.getD i 0 : ℤ) := by
  have h := evaluateLoop_weave R hxs hn hd R' ys (xs.getD i 0)
  exact h.trans (eval_interpolate_at_node _ (node_injOn hd) (mem_range.2 hi))

end Prime

/-! ## The two implementations -/

theorem evaluateLoop_eager_range (hp : (0 : ℤ) < p) (poly : List ℤ) (x : ℤ) : ∀ (k : ℕ) (result : ℤ),
    0 ≤ result ∧ result < p →
      0 ≤ evaluateLoop (Reduction.eager p) poly x k result ∧ evaluateLoop (Reduction.eager p) poly x k result < p
  | 0, _, h => h
  | k + 1, _, _ => evaluateLoop_eager_range hp poly x k _ ⟨Int.emod_nonneg _ hp.ne', Int.emod_lt_of_pos _ hp⟩

theorem evaluateLoop_lazy_nonneg {poly : List ℤ} (hpoly : ∀ c ∈ poly, 0 ≤ c) {x : ℤ} (hx : 0 ≤ x) :
    ∀ (k : ℕ) (result : ℤ), 0 ≤ result → 0 ≤ evaluateLoop (Reduction.lazy p) poly x k result
  | 0, _, h => h
  | k + 1, _, h => evaluateLoop_lazy_nonneg hpoly hx k _
      (add_nonneg (getD_nonneg hpoly k) (mul_nonneg hx h))

theorem weaveCoeff_range (hp : (0 : ℤ) < p) (ys matrix : List ℤ) (n i : ℕ) :
    0 ≤ weaveCoeff p ys matrix n i ∧ weaveCoeff p ys matrix n i < p := by
  unfold weaveCoeff
  cases n with
  | zero => exact ⟨le_rfl, hp⟩
  | succ n =>
    rw [List.range_succ, List.foldl_append, List.foldl_cons, List.foldl_nil]
    exact ⟨bnModAdd_nonneg hp _ _, bnModAdd_lt hp _ _⟩

theorem mem_weave_range (hp : (0 : ℤ) < p) {ys matrix : List ℤ} {n : ℕ} {c : ℤ} (hc : c ∈ weave p ys matrix n) :
    0 ≤ c ∧ c < p := by
  obtain ⟨i, -, rfl⟩ := List.mem_map.1 hc
  exact weaveCoeff_range hp ys matrix n i

theorem getD_range {ys : List ℤ} (hp : (0 : ℤ) < p) (hys : ∀ y ∈ ys, 0 ≤ y ∧ y < p) (i : ℕ) :
    0 ≤ ys.getD i 0 ∧ ys.getD i 0 < p := by
  rw [List.getD_eq_getElem?_getD]
  cases h : ys[i]? with
  | none => exact ⟨le_rfl, hp⟩
  | some y => exact hys y (List.mem_of_getElem? h)

/-- **Round trip, C prototype.** Each `x[i]` decodes its own `y[i]`. -/
theorem prototype_round_trip {p : ℕ} (hp : p.Prime) {xs ys : List ℤ} (hn : 2 ≤ xs.length)
    (hxs : ∀ x ∈ xs, 0 ≤ x) (hd : DistinctMod p xs) (hys : ∀ y ∈ ys, 0 ≤ y ∧ y < p) {i : ℕ} (hi : i < xs.length) :
    Prototype.evaluate (Prototype.weave ys (Prototype.precompute xs xs.length p) xs.length p) (xs.getD i 0)
      xs.length p = ys.getD i 0 := by
  have := Fact.mk hp
  have hp0 : (0 : ℤ) < p := by exact_mod_cast hp.pos
  have hy := getD_range hp0 hys i
  set cs := Prototype.weave ys (Prototype.precompute xs xs.length p) xs.length p
  have hc : ∀ c ∈ cs, 0 ≤ c ∧ c < p := fun c hc => mem_weave_range hp0 hc
  have hr := evaluateLoop_eager_range hp0 cs (xs.getD i 0) (xs.length - 1) _ (getD_range hp0 hc (xs.length - 1))
  exact eq_of_cast_eq hr.1 hr.2 hy.1 hy.2
    (evaluateLoop_weave_node (Reduction.eager p) hxs hn hd (Reduction.eager p) ys hi)

theorem prototype_round_trip_seven :
    Prototype.evaluate (Prototype.weave [2, 0, 5] (Prototype.precompute [1, 9, 3] 3 7) 3 7) 9 3 7 = 0 :=
  @prototype_round_trip 7 (by decide) [1, 9, 3] [2, 0, 5] (by decide) (by decide) (by unfold DistinctMod; decide)
    (by decide) 1 (by decide)

/-- Every intermediate of the unreduced evaluation is non-negative, so the sign-following remainder is the residue. -/
theorem hostap_evaluate_eq {poly : List ℤ} (hpoly : ∀ c ∈ poly, 0 ≤ c) {x : ℤ} (hx : 0 ≤ x) (n : ℕ) :
    Hostap.evaluate poly x n p =
      evaluateLoop (Reduction.lazy p) poly x (n - 1) (poly.getD (n - 1) 0) % (p : ℤ) :=
  Int.tmod_eq_emod_of_nonneg (evaluateLoop_lazy_nonneg hpoly hx (n - 1) _ (getD_nonneg hpoly (n - 1)))

theorem hostap_evaluate_range (hp : (0 : ℤ) < p) {poly : List ℤ} (hpoly : ∀ c ∈ poly, 0 ≤ c) {x : ℤ} (hx : 0 ≤ x)
    (n : ℕ) : 0 ≤ Hostap.evaluate poly x n p ∧ Hostap.evaluate poly x n p < p := by
  rw [hostap_evaluate_eq hpoly hx]
  exact ⟨Int.emod_nonneg _ hp.ne', Int.emod_lt_of_pos _ hp⟩

/-- **Round trip, hostap.** -/
theorem hostap_round_trip [Fact p.Prime] {xs ys : List ℤ} (hxs : ∀ x ∈ xs, 0 ≤ x) (hn : 2 ≤ xs.length)
    (hd : DistinctMod p xs) (hys : ∀ y ∈ ys, 0 ≤ y ∧ y < p) {i : ℕ} (hi : i < xs.length) :
    Hostap.evaluate (Hostap.weave ys (Hostap.precompute xs xs.length p) xs.length p) (xs.getD i 0)
      xs.length p = ys.getD i 0 := by
  have hp0 : (0 : ℤ) < p := by exact_mod_cast (Fact.out : p.Prime).pos
  have hy := getD_range hp0 hys i
  have hc : ∀ c ∈ Hostap.weave ys (Hostap.precompute xs xs.length p) xs.length p, 0 ≤ c :=
    fun c hc => (mem_weave_range hp0 hc).1
  have hr := hostap_evaluate_range hp0 hc (getD_nonneg hxs i) xs.length
  refine eq_of_cast_eq hr.1 hr.2 hy.1 hy.2 ?_
  rw [hostap_evaluate_eq hc (getD_nonneg hxs i), ZMod.intCast_mod]
  exact evaluateLoop_weave_node (Reduction.lazy p) hxs hn hd (Reduction.lazy p) ys hi

end DecoyAuth.Weaver
