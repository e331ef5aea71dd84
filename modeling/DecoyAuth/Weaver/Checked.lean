import DecoyAuth.Lib.Loop
import DecoyAuth.Weaver.Hiding
import DecoyAuth.Weaver.Polynomials

/-!
# The weaver of the C prototype with its array accesses

`precompute` of `c-prototype/src/weaver.c` once more, with every access to an array checked and with the one allocation
whose failure it handles. For two abscissae and more it stays inside its arrays and computes `Prototype.precompute`
(`precompute_eq`). For one abscissa it reads `x_values[1]`. It never looks at the results of the inversions, so a matrix
that it returns decodes the ordinates if and only if the abscissae are distinct (`precompute_usable_iff`).
-/

namespace DecoyAuth.Weaver

namespace Checked

/-- `xs[i]`; `none` is an access outside of the array. -/
def read (xs : List ℤ) (i : ℕ) : Option ℤ := xs[i]?

/-- `xs[i] = z` -/
def write (xs : List ℤ) (i : ℕ) (z : ℤ) : Option (List ℤ) := if i < xs.length then some (xs.set i z) else none

section Loops

variable (xs : List ℤ) (n p : ℕ)

def initialCoeffs : Option (List ℤ) := do
  let a := List.replicate n 0
  let x0 ← read xs 0
  let x1 ← read xs 1
  let a ← write a 0 (bnSetNegative (bnModAdd x0 x1 p))
  write a 1 (bnModMul x0 x1 p)

/-- The loop over `m`, downwards from `m` to `1`. -/
def lowerCoeffs (x : ℤ) : ℕ → List ℤ → Option (List ℤ)
  | 0, a => some a
  | m + 1, a => do
    let mul := bnModMul x (← read a m) p
    let a ← write a (m + 1) (bnModSub (← read a (m + 1)) mul p)
    lowerCoeffs x m a

/-- One pass of the outer loop. -/
def absorbRoot (i : ℕ) (a : List ℤ) : Option (List ℤ) := do
  let x ← read xs i
  let a ← write a i (bnModMul (bnSetNegative x) (← read a (i - 1)) p)
  let a ← lowerCoeffs p x (i - 1) a
  write a 0 (bnModSub (← read a 0) x p)

/-- `a[]` after the passes `i = 2 .. k + 1`. -/
def masterCoeffs : ℕ → Option (List ℤ)
  | 0 => initialCoeffs xs n p
  | k + 1 => do absorbRoot xs p (k + 2) (← masterCoeffs k)

/-- `p[i]` -/
def rootProduct (i : ℕ) : Option ℤ :=
  (List.range n).foldlM (fun acc j =>
    if j ≠ i then do
      let sub := bnModSub (← read xs i) (← read xs j) p
      return bnModMul acc sub p
    else return acc) 1

/-- `b[]` after the passes `j = 0 .. k - 1`. -/
def quotients (x : ℤ) (a : List ℤ) : ℕ → Option (List ℤ)
  | 0 => write (List.replicate n 0) 0 1
  | k + 1 => do
    let b ← quotients x a k
    let mul := bnModMul x (← read b k) p
    write b (k + 1) (bnModAdd (← read a k) mul p)

/-- The entries `matrix[j * n + i]` of column `i`. The result of the inversion is not looked at. -/
def column (a products : List ℤ) (i : ℕ) : Option (List ℤ) := do
  let b ← quotients n p (← read xs i) a (n - 1)
  (List.range n).mapM fun j => do
    let invert := (bnModInverse (← read products i) p).getD 0
    return bnModMul (← read b (n - 1 - j)) invert p

/-- `some none` is the result `NULL`, which is returned if the matrix cannot be allocated. -/
def precompute (allocated : Bool) : Option (Option (List ℤ)) := do
  let a ← masterCoeffs xs n p (n - 2)
  let products ← (List.range n).mapM (rootProduct xs n p)
  if allocated then
    let columns ← (List.range n).mapM (column xs n p a products)
    return some ((List.range (n * n)).map fun k => (columns.getD (k % n) []).getD (k / n) 0)
  else return none

end Loops

/-! ## The accesses are inside the arrays -/

theorem read_of_lt {xs : List ℤ} {i : ℕ} (hi : i < xs.length) : read xs i = some (xs.getD i 0) := by
  simp [read, hi]

theorem write_of_lt {xs : List ℤ} {i : ℕ} (hi : i < xs.length) (z : ℤ) : write xs i z = some (xs.set i z) := if_pos hi

section Refinement

variable {xs a : List ℤ} {n p : ℕ}

theorem lowerCoeffs_eq (x : ℤ) : ∀ {m : ℕ} {a : List ℤ}, m < a.length →
    lowerCoeffs p x m a = some (Weaver.lowerCoeffs (Reduction.eager p) x m a)
  | 0, _, _ => rfl
  | m + 1, a, h => by
    simp only [lowerCoeffs, read_of_lt h, read_of_lt (show m < a.length by omega), write_of_lt h, Option.bind_eq_bind,
      Option.bind_some]
    rw [lowerCoeffs_eq x (by rw [List.length_set]; omega)]
    rfl

theorem absorbRoot_eq {i : ℕ} (hi : i < xs.length) (ha : i < a.length) :
    absorbRoot xs p i a = some (Weaver.absorbRoot (Reduction.eager p) (xs.getD i 0) i a) := by
  have hset : ∀ z : ℤ, i - 1 < (a.set i z).length := fun z => by
    rw [List.length_set]
    omega
  simp only [absorbRoot, read_of_lt hi, read_of_lt (show i - 1 < a.length by omega), write_of_lt ha, lowerCoeffs_eq _ (hset _),
    Option.bind_eq_bind, Option.bind_some]
  rw [read_of_lt, Option.bind_some, write_of_lt]
  · rfl
  all_goals
    rw [length_lowerCoeffs, List.length_set]
    omega

variable (hlen : xs.length = n)
include hlen

theorem masterCoeffs_eq : ∀ {k : ℕ}, k + 2 ≤ n →
    masterCoeffs xs n p k = some (Weaver.masterCoeffs (Reduction.eager p) xs n k)
  | 0, hk => by
    rw [masterCoeffs, initialCoeffs, read_of_lt (by omega), read_of_lt (by omega)]
    simp only [Option.bind_eq_bind, Option.bind_some]
    rw [write_of_lt (by simp; omega), Option.bind_some, write_of_lt (by simp; omega)]
    rfl
  | k + 1, hk => by
    have h : masterCoeffs xs n p k = _ := masterCoeffs_eq (by omega)
    rw [masterCoeffs, h]
    exact absorbRoot_eq (by omega) (by rw [length_masterCoeffs]; omega)

theorem rootProduct_eq {i : ℕ} (hi : i < n) :
    rootProduct xs n p i = some (Weaver.rootProduct (Reduction.eager p) xs n i) := by
  refine Loop.foldlM_eq_pure (fun j hj acc => ?_) 1
  have hj' := List.mem_range.1 hj
  by_cases h : j ≠ i
  · rw [if_pos h, if_pos h, read_of_lt (by omega), read_of_lt (by omega)]
    rfl
  · rw [if_neg h, if_neg h]

omit hlen in
theorem quotients_eq (x : ℤ) (ha : a.length = n) : ∀ {k : ℕ}, k < n →
    quotients n p x a k = some (Weaver.quotients (Reduction.eager p) n x a k)
  | 0, hk => write_of_lt (by simp; omega) 1
  | k + 1, hk => by
    have hb := length_quotients (Reduction.eager p) n x a k
    rw [quotients, quotients_eq x ha (by omega)]
    simp only [Option.bind_eq_bind, Option.bind_some]
    rw [read_of_lt (by omega), read_of_lt (by omega), Option.bind_some, Option.bind_some, write_of_lt (by omega)]
    rfl

theorem column_eq (ha : a.length = n) {i : ℕ} (hi : i < n) :
    column xs n p a ((List.range n).map (Weaver.rootProduct (Reduction.eager p) xs n)) i =
      some ((List.range n).map fun j => matrixEntry (Reduction.eager p) xs n a j i) := by
  have hb := length_quotients (Reduction.eager p) n (xs.getD i 0) a (n - 1)
  rw [column, read_of_lt (by omega)]
  simp only [Option.bind_eq_bind, Option.bind_some, quotients_eq (xs.getD i 0) ha (show n - 1 < n by omega)]
  refine Loop.mapM_eq_pure fun j hj => ?_
  have hproduct : read ((List.range n).map (Weaver.rootProduct (Reduction.eager p) xs n)) i =
      some (Weaver.rootProduct (Reduction.eager p) xs n i) := by
    simp [read, List.getElem?_range hi]
  rw [hproduct, read_of_lt (by omega), matrixEntry_eq_getD _ _ _ (List.mem_range.1 hj)]
  rfl

/-- **The checked weaver computes the unchecked one**, from two abscissae on. -/
theorem precompute_eq (hn : 2 ≤ n) (allocated : Bool) :
    precompute xs n p allocated = some (if allocated then some (Prototype.precompute xs n p) else none) := by
  have hproducts : (List.range n).mapM (rootProduct xs n p) =
      some ((List.range n).map (Weaver.rootProduct (Reduction.eager p) xs n)) :=
    Loop.mapM_eq_pure fun i hi => rootProduct_eq hlen (List.mem_range.1 hi)
  have hcolumns := Loop.mapM_eq_pure (m := Option) (l := List.range n) fun i hi =>
    column_eq (p := p) hlen (length_masterCoeffs (Reduction.eager p) xs n (n - 2)) (List.mem_range.1 hi)
  rw [precompute, masterCoeffs_eq hlen (by omega), hproducts]
  simp only [Option.bind_eq_bind, Option.bind_some]
  cases allocated with
  | false => rfl
  | true =>
    simp only [if_true, hcolumns, Option.pure_def, Option.bind_some, Option.some.injEq]
    refine List.map_congr_left fun k hk => ?_
    have hk' := List.mem_range.1 hk
    simp [List.getElem?_range (Nat.mod_lt k (by omega : 0 < n)), List.getElem?_range (Nat.div_lt_of_lt_mul hk')]

omit hlen in
/-- With fewer abscissae `x_values[1]` is outside of the array. -/
theorem precompute_of_lt_two (hlt : xs.length < 2) (hn : n < 2) (allocated : Bool) : precompute xs n p allocated = none := by
  have hread : read xs 1 = none := List.getElem?_eq_none (by omega)
  rw [precompute, show n - 2 = 0 by omega, masterCoeffs, initialCoeffs]
  cases read xs 0 <;> simp [hread]

end Refinement

end Checked

/-! ## Matrices that decode -/

/-- Each abscissa decodes its own ordinate. -/
def Usable (p n : ℕ) (xs matrix : List ℤ) : Prop := ∀ ys, Ordinates p n ys → ∀ i < n,
  Prototype.evaluate (Prototype.weave ys matrix n p) (xs.getD i 0) n p = ys.getD i 0

section Usable

variable {p n : ℕ} [Fact p.Prime] {xs : List ℤ}

/-- The value depends on the residue of the abscissa only. -/
theorem evaluate_congr (ys matrix : List ℤ) {x x' : ℤ} (h : (x : ZMod p) = x') :
    Prototype.evaluate (Prototype.weave ys matrix n p) x n p = Prototype.evaluate (Prototype.weave ys matrix n p) x' n p := by
  have hr := @evaluate_range p n _ ys matrix x
  have hr' := @evaluate_range p n _ ys matrix x'
  refine eq_of_cast_eq hr.1 hr.2 hr'.1 hr'.2 ?_
  rw [Prototype.evaluate, Prototype.evaluate, cast_evaluateLoop, cast_evaluateLoop, h]

/-- Whatever the matrix, two abscissae in one class cannot decode a zero and a one. -/
theorem distinctMod_of_usable (hlen : xs.length = n) {matrix : List ℤ} (h : Usable p n xs matrix) : DistinctMod p xs := by
  have hp : (1 : ℤ) < p := by exact_mod_cast (Fact.out : p.Prime).one_lt
  unfold DistinctMod
  rw [List.pairwise_iff_getElem]
  intro i j hi hj hij hc
  let ys : List ℤ := (List.range n).map fun k => if k = j then 1 else 0
  have hys : Ordinates p n ys := by
    refine ⟨by simp [ys], fun y hy => ?_⟩
    obtain ⟨k, -, rfl⟩ := List.mem_map.1 hy
    split <;> omega
  have hget : ∀ k < n, ys.getD k 0 = if k = j then 1 else 0 := fun k hk => by
    simp [ys, List.getElem?_range hk]
  have hx : ∀ k, (hk : k < xs.length) → xs.getD k 0 = xs[k] := fun k hk => by simp [hk]
  have hvi := h ys hys i (by omega)
  have hvj := h ys hys j (by omega)
  rw [hget i (by omega), if_neg (by omega), hx i hi, evaluate_congr ys matrix hc] at hvi
  rw [hget j (by omega), if_pos rfl, hx j hj] at hvj
  omega

theorem usable_precompute (hn : 2 ≤ n) (hxs : Abscissae p n xs) : Usable p n xs (Prototype.precompute xs n p) := by
  intro ys hys i hi
  have hr := @evaluate_range p n _ ys (Prototype.precompute xs n p) (xs.getD i 0)
  have hy := getD_range (p := p) cast_pos hys.range i
  refine eq_of_cast_eq hr.1 hr.2 hy.1 hy.2 ?_
  rw [cast_evaluate hn hxs]
  exact eval_interpolant hxs hi

end Usable

/-- **When `precompute` stays inside its arrays and returns `NULL` or a matrix that decodes**: for at least two abscissae
that are pairwise distinct, or if there is no memory for the matrix. -/
theorem precompute_usable_iff {p n : ℕ} (hp : p.Prime) {xs : List ℤ} (hlen : xs.length = n) (hxs : ∀ x ∈ xs, 0 ≤ x)
    (allocated : Bool) :
    (∃ result, Checked.precompute xs n p allocated = some result ∧ ∀ matrix, result = some matrix → Usable p n xs matrix) ↔
      2 ≤ n ∧ (allocated = false ∨ DistinctMod p xs) := by
  have := Fact.mk hp
  by_cases hn : 2 ≤ n
  · rw [Checked.precompute_eq hlen hn, and_iff_right hn]
    cases allocated with
    | false => simp
    | true =>
      simp only [if_true, Option.some.injEq, Bool.true_eq_false, false_or]
      constructor
      · rintro ⟨result, rfl, h⟩
        exact distinctMod_of_usable hlen (h _ rfl)
      · intro hd
        refine ⟨_, rfl, ?_⟩
        rintro matrix ⟨⟩
        exact usable_precompute hn ⟨hlen, hxs, hd⟩
  · rw [Checked.precompute_of_lt_two (by omega) (by omega)]
    simp [hn]

theorem precompute_usable_seven :
    ∃ result, Checked.precompute [1, 9, 3] 3 7 true = some result ∧
      ∀ matrix, result = some matrix → Usable 7 3 [1, 9, 3] matrix :=
  (precompute_usable_iff (by decide) rfl (by decide) true).2 ⟨by decide, .inr (by unfold DistinctMod; decide)⟩

/-- One abscissa: the second one is read all the same. Three abscissae, two of them in one class: a matrix is returned,
and the first ordinate is lost. -/
theorem precompute_unusable : Checked.precompute [5] 1 7 true = none ∧
    Checked.precompute [1, 8, 3] 3 7 true = some (some (Prototype.precompute [1, 8, 3] 3 7)) ∧
    Prototype.evaluate (Prototype.weave [2, 0, 5] (Prototype.precompute [1, 8, 3] 3 7) 3 7) 1 3 7 ≠ 2 := by
  decide +kernel

end DecoyAuth.Weaver
