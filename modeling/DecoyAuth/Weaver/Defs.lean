import DecoyAuth.Crypto.Bignum

/-!
# The weaver

`precompute` turns the abscissae into an `n × n` matrix, `weave` multiplies the matrix with the ordinates, and
`evaluate` decodes one ordinate from the `n` coefficients. The C prototype (`c-prototype/src/weaver.c`) reduces after
every operation; hostap's copy (`crypto_openssl.c`) keeps the entries of `a[]` and `b[]` and Horner's accumulator as
unreduced, possibly negative integers. The loops are the same, so they are written once over a `Reduction` that says
what happens to an intermediate result, and each implementation is an instance.
-/

namespace DecoyAuth

/-- What an implementation does with an intermediate product, sum or difference: some map that keeps residues. -/
structure Reduction (p : ℕ) where
  mul : ℤ → ℤ
  sum : ℤ → ℤ
  diff : ℤ → ℤ
  cast_mul : ∀ z : ℤ, ((mul z : ℤ) : ZMod p) = z
  cast_sum : ∀ z : ℤ, ((sum z : ℤ) : ZMod p) = z
  cast_diff : ∀ z : ℤ, ((diff z : ℤ) : ZMod p) = z

attribute [simp] Reduction.cast_mul Reduction.cast_sum Reduction.cast_diff

/-- `BN_mod_mul`, `BN_mod_add` and `BN_mod_sub` throughout. -/
def Reduction.eager (p : ℕ) : Reduction p :=
  ⟨(· % p), (· % p), (· % p), fun _ => ZMod.intCast_mod _ _, fun _ => ZMod.intCast_mod _ _,
    fun _ => ZMod.intCast_mod _ _⟩

theorem Reduction.cast_id (p : ℕ) (z : ℤ) : ((id z : ℤ) : ZMod p) = z := rfl

/-- `BN_mul`, `BN_add` and `BN_sub`. -/
def Reduction.lazy (p : ℕ) : Reduction p := ⟨id, id, id, cast_id p, cast_id p, cast_id p⟩

namespace Weaver

section Loops

variable {p : ℕ} (R : Reduction p) (xs : List ℤ)

/-- `a[0]` and `a[1]` before the loop; the other entries are fresh bignums. -/
def initialCoeffs (n : ℕ) : List ℤ :=
  ((List.replicate n 0).set 0 (bnSetNegative (bnModAdd (xs.getD 0 0) (xs.getD 1 0) p))).set 1
    (bnModMul (xs.getD 0 0) (xs.getD 1 0) p)

/-- The loop over `m`, downwards from `m` to `1`: `a[m] -= x * a[m - 1]` in place. -/
def lowerCoeffs (x : ℤ) : ℕ → List ℤ → List ℤ
  | 0, a => a
  | m + 1, a => lowerCoeffs x m (a.set (m + 1) (R.sum (a.getD (m + 1) 0 - R.mul (x * a.getD m 0))))

/-- One pass of the outer loop: `a[i]`, then `a[i - 1] .. a[1]`, then `a[0]`. -/
def absorbRoot (x : ℤ) (i : ℕ) (a : List ℤ) : List ℤ :=
  let a := a.set i (R.mul (bnSetNegative x * a.getD (i - 1) 0))
  let a := lowerCoeffs R x (i - 1) a
  a.set 0 (bnModSub (a.getD 0 0) x p)

/-- `a[]` after the passes `i = 2 .. k + 1`. -/
def masterCoeffs (n : ℕ) : ℕ → List ℤ
  | 0 => initialCoeffs (p := p) xs n
  | k + 1 => absorbRoot R (xs.getD (k + 2) 0) (k + 2) (masterCoeffs n k)

/-- `p[i]`, the product of the `x[i] - x[j]` for `j ≠ i`. -/
def rootProduct (n i : ℕ) : ℤ :=
  (List.range n).foldl
    (fun acc j => if j ≠ i then bnModMul acc (R.diff (xs.getD i 0 - xs.getD j 0)) p else acc) 1

/-- `b[j]`: the synthetic division of `a[]` by the root `x`. -/
def quotientCoeff (x : ℤ) (a : List ℤ) : ℕ → ℤ
  | 0 => 1
  | j + 1 => R.sum (a.getD j 0 + R.mul (x * quotientCoeff x a j))

/-- `matrix[j * n + i]`; the output of a failed inversion is a fresh bignum, zero. -/
def matrixEntry (n : ℕ) (a : List ℤ) (j i : ℕ) : ℤ :=
  bnModMul (quotientCoeff R (xs.getD i 0) a (n - 1 - j)) ((bnModInverse (rootProduct R xs n i) p).getD 0) p

def precompute (n : ℕ) : List ℤ :=
  let a := masterCoeffs R xs n (n - 2)
  (List.range (n * n)).map fun k => matrixEntry R xs n a (k / n) (k % n)

/-- `c[i]`. -/
def weaveCoeff (p : ℕ) (ys matrix : List ℤ) (n i : ℕ) : ℤ :=
  (List.range n).foldl
    (fun c j => bnModAdd c (bnModMul (matrix.getD (i * n + j) 0) (ys.getD j 0) p) p) 0

/-- `weave` is the same text in both implementations. -/
def weave (p : ℕ) (ys matrix : List ℤ) (n : ℕ) : List ℤ := (List.range n).map (weaveCoeff p ys matrix n)

/-- The loop of `evaluate`, from `poly[k - 1]` down to `poly[0]`. -/
def evaluateLoop (poly : List ℤ) (x : ℤ) : ℕ → ℤ → ℤ
  | 0, result => result
  | k + 1, result => evaluateLoop poly x k (R.sum (poly.getD k 0 + R.mul (x * result)))

end Loops

/-! ## The C prototype -/

namespace Prototype

def precompute (xs : List ℤ) (n p : ℕ) : List ℤ := Weaver.precompute (Reduction.eager p) xs n

def weave (ys matrix : List ℤ) (n p : ℕ) : List ℤ := Weaver.weave p ys matrix n

def evaluate (vals : List ℤ) (x : ℤ) (n p : ℕ) : ℤ :=
  evaluateLoop (Reduction.eager p) vals x (n - 1) (vals.getD (n - 1) 0)

end Prototype

/-! ## hostap -/

namespace Hostap

def precompute (xs : List ℤ) (n p : ℕ) : List ℤ := Weaver.precompute (Reduction.lazy p) xs n

def weave (ys matrix : List ℤ) (n p : ℕ) : List ℤ := Weaver.weave p ys matrix n

/-- Reduced only at the end, and by `BN_mod`, which keeps the sign. -/
def evaluate (poly : List ℤ) (x : ℤ) (n p : ℕ) : ℤ :=
  bnMod (evaluateLoop (Reduction.lazy p) poly x (n - 1) (poly.getD (n - 1) 0)) p

end Hostap

end Weaver

end DecoyAuth
