import DecoyAuth.Scripts.Util
import DecoyAuth.Weaver.RoundTrip

/-!
# The three weavers agree

`scripts/weaver.py` is the third implementation of the weaver: Python's `%` gives the non-negative residue, the first
coefficients are negated before they are reduced, and an inversion that fails raises an exception. All three compute the
master polynomial (`IsMaster`), so their matrices have the same entries (`matrixEntry_eq`), and all three evaluate by
Horner's rule. `implementations_agree` says that they return the same matrix, the same coefficients and the same value.
-/

namespace DecoyAuth.Weaver

open Util Polynomial Lagrange Finset

namespace Python

/-- The script reduces the sums, after the products in them. -/
def reduction (p : ℕ) : Reduction p :=
  ⟨id, (· % p), id, Reduction.cast_id p, fun _ => ZMod.intCast_mod _ _, Reduction.cast_id p⟩

def initialCoeffs (p : ℕ) (xs : List ℤ) (n : ℕ) : List ℤ :=
  ((List.replicate n 0).set 0 (-(xs.getD 0 0 + xs.getD 1 0) % p)).set 1 (xs.getD 0 0 * xs.getD 1 0 % p)

def absorbRoot (p : ℕ) (x : ℤ) (i : ℕ) (a : List ℤ) : List ℤ :=
  let a := a.set i (-x * a.getD (i - 1) 0 % p)
  let a := lowerCoeffs (reduction p) x (i - 1) a
  a.set 0 ((a.getD 0 0 - x) % p)

def masterCoeffs (p : ℕ) (xs : List ℤ) (n : ℕ) : ℕ → List ℤ
  | 0 => initialCoeffs p xs n
  | k + 1 => absorbRoot p (xs.getD (k + 2) 0) (k + 2) (masterCoeffs p xs n k)

/-- The entries `matrix[j][i]` of column `i`. -/
def column (p : ℕ) (xs : List ℤ) (n : ℕ) (a : List ℤ) (i : ℕ) : Except PyError (List ℤ) :=
  (List.range n).mapM fun j => do
    let inv ← invertMod (rootProduct (reduction p) xs n i) p
    return quotientCoeff (reduction p) (xs.getD i 0) a (n - 1 - j) * inv % p

/-- The first two abscissae are read before anything else. -/
def precompute (xs : List ℤ) (p : ℕ) : Except PyError (List (List ℤ)) :=
  if xs.length < 2 then .error .indexError
  else do
    let n := xs.length
    let columns ← (List.range n).mapM (column p xs n (masterCoeffs p xs n (n - 2)))
    return (List.range n).map fun j => columns.map fun column => column.getD j 0

def weaver (ys : List ℤ) (matrix : List (List ℤ)) (p : ℕ) : Except PyError (List ℤ) :=
  (List.range ys.length).mapM fun i =>
    (List.range ys.length).foldlM (fun c j => do
      let row ← index matrix i
      let entry ← index row j
      let y ← index ys j
      return (c + entry * y) % p) 0

/-- The loop does not reduce, so its modulus does not matter. -/
def evalWeave (c : List ℤ) (x : ℤ) (prime : Option ℕ) : Except PyError ℤ := do
  let last ← index c (c.length - 1)
  let result := evaluateLoop (Reduction.lazy 0) c x (c.length - 1) last
  return match prime with
    | none => result
    | some p => result % p

/-! ## The master polynomial -/

section Master

variable {p n : ℕ} {xs : List ℤ}

theorem length_masterCoeffs : ∀ k, (masterCoeffs p xs n k).length = n
  | 0 => by simp [masterCoeffs, initialCoeffs]
  | k + 1 => by simp [masterCoeffs, absorbRoot, length_lowerCoeffs, length_masterCoeffs k]

theorem absorbRoot_getD (x : ℤ) {i : ℕ} (hi : 0 < i) {a : List ℤ} (hlen : i < a.length) {m : ℕ} (hm : m ≤ i) :
    (((absorbRoot p x i a).getD m 0 : ℤ) : ZMod p) =
      Nodal.absorb (fun j => ((a.getD j 0 : ℤ) : ZMod p)) (x : ZMod p) i m := by
  have htop : ((-x * a.getD (i - 1) 0 % p : ℤ) : ZMod p) = -x * (a.getD (i - 1) 0 : ℤ) := by
    rw [ZMod.intCast_mod, Int.cast_mul, Int.cast_neg]
  have hbottom : ∀ z : ℤ, (((z - x) % p : ℤ) : ZMod p) = z - x := by
    intro z
    rw [ZMod.intCast_mod, Int.cast_sub]
  exact getD_pass (reduction p) hi hlen htop hbottom hm

variable [Fact p.Prime]

theorem masterCoeffs_coeff : ∀ {k : ℕ}, k + 2 ≤ n → ∀ {m : ℕ}, m < k + 2 →
    (((masterCoeffs p xs n k).getD m 0 : ℤ) : ZMod p) = (nodal (range (k + 2)) (node p xs)).coeff (k + 1 - m)
  | 0, hk, m, hm => by
    rw [masterCoeffs, initialCoeffs, getD_set (by simp; omega), getD_set (by simp; omega)]
    obtain rfl | rfl : m = 0 ∨ m = 1 := by omega
    · rw [Nodal.coeff_nodal_range_two_one]; simp [node]
    · rw [Nodal.coeff_nodal_range_two_zero]; simp [node]
  | k + 1, hk, m, hm => by
    have hlen : (masterCoeffs p xs n k).length = n := length_masterCoeffs k
    have ih : ∀ j < k + 2, _ := fun j => masterCoeffs_coeff (show k + 2 ≤ n by omega) (m := j)
    rw [masterCoeffs, absorbRoot_getD _ (by omega) (by omega) (by omega), Nodal.absorb_congr _ ih (by omega) (by omega)]
    exact Nodal.absorb_coeff _ (by omega)

theorem isMaster_masterCoeffs (hn : 2 ≤ n) : IsMaster p n xs (masterCoeffs p xs n (n - 2)) := by
  intro m hm
  have h : (((masterCoeffs p xs n (n - 2)).getD m 0 : ℤ) : ZMod p) = _ :=
    masterCoeffs_coeff (by omega) (show m < n - 2 + 2 by omega)
  rwa [show n - 2 + 2 = n by omega, show n - 2 + 1 = n - 1 by omega] at h

end Master

end Python

/-! ## The matrices -/

section Matrix

variable {p n : ℕ} [Fact p.Prime] {xs : List ℤ}

theorem matrixEntry_range (R : Reduction p) (xs : List ℤ) (n : ℕ) (a : List ℤ) (j i : ℕ) :
    0 ≤ matrixEntry R xs n a j i ∧ matrixEntry R xs n a j i < p :=
  ⟨bnModMul_nonneg cast_pos _ _, bnModMul_lt cast_pos _ _⟩

/-- The entries do not depend on what the loops reduce. -/
theorem matrixEntry_eq (R R' : Reduction p) {a a' : List ℤ} (ha : IsMaster p n xs a) (ha' : IsMaster p n xs a') {j i : ℕ}
    (hj : j < n) (hi : i < n) : matrixEntry R xs n a j i = matrixEntry R' xs n a' j i := by
  have hr := matrixEntry_range R xs n a j i
  have hr' := matrixEntry_range R' xs n a' j i
  refine eq_of_cast_eq hr.1 hr.2 hr'.1 hr'.2 ?_
  rw [cast_matrixEntry R ha hj hi, cast_matrixEntry R' ha' hj hi]

theorem rootProduct_ne_zero (R : Reduction p) (hxs : Abscissae p n xs) {i : ℕ} (hi : i < n) :
    ((rootProduct R xs n i : ℤ) : ZMod p) ≠ 0 := by
  rw [foldl_rootProduct, prod_ne_zero_iff]
  intro j hj
  obtain ⟨hji, hj⟩ := mem_erase.1 hj
  refine sub_ne_zero.2 fun h => hji ?_
  exact (hxs.injOn (mem_coe.2 (mem_range.2 hi)) (mem_coe.2 hj) h).symm

/-- Rows one after the other are the rows of a matrix in one array. -/
theorem flatten_rows (f : ℕ → ℕ → ℤ) (n : ℕ) : ∀ m, ((List.range m).map fun j => (List.range n).map (f j)).flatten =
    (List.range (m * n)).map fun k => f (k / n) (k % n)
  | 0 => by simp
  | m + 1 => by
    rw [List.range_succ, List.map_append, List.flatten_append, flatten_rows f n m, Nat.succ_mul, List.range_add,
      List.map_append, List.map_map]
    congr 1
    simp only [List.map_cons, List.map_nil, List.flatten_cons, List.flatten_nil, List.append_nil]
    refine List.map_congr_left fun i hi => ?_
    have hi' := List.mem_range.1 hi
    rw [Function.comp_apply, mul_comm m n, Nat.mul_add_div (by omega), Nat.div_eq_of_lt hi', Nat.mul_add_mod,
      Nat.mod_eq_of_lt hi', Nat.add_zero]

namespace Python

theorem column_eq (hxs : Abscissae p n xs) (a : List ℤ) {i : ℕ} (hi : i < n) :
    column p xs n a i = .ok ((List.range n).map fun j => matrixEntry (reduction p) xs n a j i) := by
  refine Loop.mapM_eq_pure fun j _ => ?_
  have h := rootProduct_ne_zero (reduction p) hxs hi
  unfold invertMod matrixEntry
  cases hr : bnModInverse (rootProduct (reduction p) xs n i) p with
  | none => exact absurd (bnModInverse_eq_none.1 hr) h
  | some r => rfl

theorem precompute_eq (hxs : Abscissae p n xs) (hn : 2 ≤ n) : precompute xs p = .ok ((List.range n).map fun j =>
    (List.range n).map (matrixEntry (reduction p) xs n (masterCoeffs p xs n (n - 2)) j)) := by
  have hcolumns := Loop.mapM_eq_pure (l := List.range n) fun i hi =>
    column_eq hxs (masterCoeffs p xs n (n - 2)) (List.mem_range.1 hi)
  rw [precompute, if_neg (by have := hxs.length_eq; omega), hxs.length_eq]
  simp only [hcolumns]
  refine congrArg Except.ok (List.map_congr_left fun j hj => ?_)
  rw [List.map_map]
  refine List.map_congr_left fun i _ => ?_
  simp [List.getElem?_range (List.mem_range.1 hj)]

end Python

end Matrix

/-! ## The coefficients and the values -/

section Values

variable {p n : ℕ} {ys c : List ℤ}

/-- Over the rows of a matrix the script computes what `weave` computes over its flat array. -/
theorem Python.weaver_eq (hys : ys.length = n) (f : ℕ → ℕ → ℤ) :
    Python.weaver ys ((List.range n).map fun j => (List.range n).map (f j)) p =
      .ok (weave p ys ((List.range (n * n)).map fun k => f (k / n) (k % n)) n) := by
  subst hys
  refine Loop.mapM_eq_pure fun i hi => ?_
  refine Loop.foldlM_eq_pure (fun j hj c => ?_) 0
  have hi' := List.mem_range.1 hi
  have hj' := List.mem_range.1 hj
  have hrow : index ((List.range ys.length).map fun j => (List.range ys.length).map (f j)) i =
      .ok ((List.range ys.length).map (f i)) := by
    rw [index_of_lt (by simpa using hi')]
    simp
  have hentry : index ((List.range ys.length).map (f i)) j = .ok (f i j) := by
    rw [index_of_lt (by simpa using hj')]
    simp
  have hy : index ys j = .ok (ys.getD j 0) := by
    rw [index_of_lt hj']
    simp [hj']
  simp only [hrow, hentry, hy, ok_bind]
  refine congrArg Except.ok ?_
  rw [getD_flat f hi' hj', bnModAdd, bnModMul, Int.add_emod_emod]

theorem evaluateLoop_lazy (q : ℕ) (x : ℤ) : ∀ (k : ℕ) (result : ℤ),
    evaluateLoop (Reduction.lazy q) c x k result = evaluateLoop (Reduction.lazy p) c x k result
  | 0, _ => rfl
  | k + 1, _ => evaluateLoop_lazy q x k _

/-- The three evaluations of a list of field elements. -/
theorem evaluate_agree [Fact p.Prime] (hc : ∀ z ∈ c, 0 ≤ z ∧ z < p) (hn : 0 < c.length) {x : ℤ} (hx : 0 ≤ x) :
    Hostap.evaluate c x c.length p = Prototype.evaluate c x c.length p ∧
      Python.evalWeave c x (some p) = .ok (Prototype.evaluate c x c.length p) ∧
      0 ≤ Prototype.evaluate c x c.length p ∧ Prototype.evaluate c x c.length p < p := by
  have hc0 : ∀ z ∈ c, 0 ≤ z := fun z hz => (hc z hz).1
  have hp0 : (0 : ℤ) < p := cast_pos
  have hr := evaluateLoop_eager_range hp0 c x (c.length - 1) _ (getD_range hp0 hc (c.length - 1))
  have hr' := hostap_evaluate_range hp0 hc0 hx c.length
  have heval : Hostap.evaluate c x c.length p = Prototype.evaluate c x c.length p := by
    refine eq_of_cast_eq hr'.1 hr'.2 hr.1 hr.2 ?_
    rw [hostap_evaluate_eq hc0 hx, ZMod.intCast_mod, Prototype.evaluate, cast_evaluateLoop, cast_evaluateLoop]
  refine ⟨heval, ?_, hr⟩
  have hlast : index c (c.length - 1) = .ok (c.getD (c.length - 1) 0) := by
    rw [index_of_lt (by omega)]
    simp [show c.length - 1 < c.length by omega]
  rw [← heval, hostap_evaluate_eq hc0 hx, ← evaluateLoop_lazy 0]
  simp only [Python.evalWeave, hlast]
  rfl

/-- **The three implementations agree**: on the matrix, on the coefficients, which are field elements, and on the value,
which is a field element. -/
theorem implementations_agree {p n : ℕ} (hp : p.Prime) (hn : 2 ≤ n) {xs ys : List ℤ} (hxs : Abscissae p n xs)
    (hys : ys.length = n) {x : ℤ} (hx : 0 ≤ x) :
    ∃ matrix rows coeffs value,
      (Prototype.precompute xs n p = matrix ∧ Hostap.precompute xs n p = matrix ∧
        Python.precompute xs p = .ok rows ∧ rows.flatten = matrix ∧ ∀ row ∈ rows, row.length = n) ∧
      (Prototype.weave ys matrix n p = coeffs ∧ Hostap.weave ys matrix n p = coeffs ∧
        Python.weaver ys rows p = .ok coeffs ∧ ∀ z ∈ coeffs, 0 ≤ z ∧ z < p) ∧
      (Prototype.evaluate coeffs x n p = value ∧ Hostap.evaluate coeffs x n p = value ∧
        Python.evalWeave coeffs x (some p) = .ok value ∧ 0 ≤ value ∧ value < p) := by
  have := Fact.mk hp
  let entry := matrixEntry (Python.reduction p) xs n (Python.masterCoeffs p xs n (n - 2))
  -- the C implementations store the entries of the script's matrix
  have hflat : ∀ R : Reduction p, precompute R xs n = (List.range (n * n)).map fun k => entry (k / n) (k % n) := by
    intro R
    refine List.map_congr_left fun k hk => ?_
    have hk' := List.mem_range.1 hk
    exact matrixEntry_eq R _ (isMaster_masterCoeffs R hxs.nonneg hn) (Python.isMaster_masterCoeffs hn)
      (Nat.div_lt_of_lt_mul hk') (Nat.mod_lt _ (by omega))
  have hcoeffs : ∀ z ∈ weave p ys ((List.range (n * n)).map fun k => entry (k / n) (k % n)) n, 0 ≤ z ∧ z < p :=
    fun z hz => mem_weave_range cast_pos hz
  have hlen : (weave p ys ((List.range (n * n)).map fun k => entry (k / n) (k % n)) n).length = n := by simp [weave]
  obtain ⟨hhostap, hpython, hvalue⟩ := evaluate_agree hcoeffs (by omega) hx
  rw [hlen] at hhostap hpython hvalue
  refine ⟨_, _, _, _, ⟨hflat _, hflat _, Python.precompute_eq hxs hn, flatten_rows entry n n, ?_⟩,
    ⟨rfl, rfl, Python.weaver_eq hys entry, hcoeffs⟩, rfl, hhostap, hpython, hvalue⟩
  intro row hrow
  obtain ⟨j, -, rfl⟩ := List.mem_map.1 hrow
  simp

theorem implementations_agree_seven : ∃ value, Python.evalWeave [4, 5, 0] 4 (some 7) = .ok value ∧
    Hostap.evaluate [4, 5, 0] 4 3 7 = value ∧ Prototype.evaluate [4, 5, 0] 4 3 7 = value := by
  have hxs : Abscissae 7 3 [1, 9, 3] := ⟨rfl, by decide, by unfold DistinctMod; decide⟩
  have hys : ([2, 0, 5] : List ℤ).length = 3 := rfl
  obtain ⟨matrix, rows, coeffs, value, ⟨hm, -, -⟩, ⟨hc, -, -⟩, hv, hv', hv'', -⟩ :=
    implementations_agree (n := 3) (by decide : (7 : ℕ).Prime) (by decide) hxs hys (x := 4) (by decide)
  have hcoeffs : coeffs = [4, 5, 0] := by
    rw [← hc, ← hm]
    decide +kernel
  rw [hcoeffs] at hv hv' hv''
  exact ⟨value, hv'', hv', hv⟩

end Values

end DecoyAuth.Weaver
