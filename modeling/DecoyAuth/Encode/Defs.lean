import DecoyAuth.Crypto.Ec

/-!
# Points as pairs of field elements

`point_to_values` of `crypto_openssl.c` writes a point `P` as a pair `(u, v)` with `f u + f v = P`, where `f` is
`calc_f`, a simplified SWU map: it draws `u` and inverts `f` at `P - f u` (`calc_v`). `values_to_point` decodes. Outputs
of a failed `BN_mod_inverse` keep their fresh value zero; the status of `EC_POINT_set_affine_coordinates_GFp` is
ignored as in the source.
-/

namespace DecoyAuth.Encode

variable (C : CurveParams) (G : EcParams)

/-! ## Decoding -/

def x0 (u : ℤ) : ℤ :=
  let p : ℤ := C.prime
  let uSquare := bnModSqr u p
  let uSquareSquare := bnModSqr uSquare p
  let temp := bnModSub uSquareSquare uSquare p
  let tempSum := bnModAdd 1 ((bnModInverse temp p).getD 0) p
  let bAInv := bnModMul C.b ((bnModInverse C.a p).getD 0) p
  p - bnModMul bAInv tempSum p

def x1 (u : ℤ) : ℤ := C.prime - bnModMul (bnModSqr u C.prime) (x0 C u) C.prime

def calcG (x : ℤ) : ℤ :=
  bnModAdd (bnModAdd (bnModExp x 3 C.prime) (bnModMul C.a x C.prime) C.prime) C.b C.prime

/-- `NULL` when neither candidate is the abscissa of a point. -/
def calcF (u : ℤ) : Option EcPoint :=
  if u = 1 ∨ u = 0 ∨ u = C.prime - 1 then some .infinity
  else
    match bnModSqrt (calcG C (x0 C u)) C.prime with
    | some y => some ((C.pointSetAffine (x0 C u) y).getD .infinity)
    | none =>
      match bnModSqrt (calcG C (x1 C u)) C.prime with
      | some y => some ((C.pointSetAffine (x1 C u) (C.prime - y)).getD .infinity)
      | none => none

/-- `none` where `calc_f` returns `NULL`, which `EC_POINT_add` would dereference. -/
def valuesToPoint (u v : ℤ) : Option EcPoint := do
  let fU ← calcF G.toCurveParams u
  let fV ← calcF G.toCurveParams v
  return G.pointAdd fU fV

/-! ## Encoding -/

/-- What one round of `point_to_values` draws: `BN_rand_range` and one byte of `RAND_bytes`, either of which can fail. -/
structure Draw where
  u : Option ℕ
  j : Option UInt8

/-- `generate_random_bn`: a draw below the prime, with one in the place of zero. -/
def generateRandomBn (draw : Option ℕ) : Option ℤ :=
  draw.map fun n => if n % C.prime = 0 then 1 else ((n % C.prime : ℕ) : ℤ)

def generateJ (draw : Option UInt8) : Option ℕ := draw.map fun b => b.toNat % 4

def isValidU (u : ℤ) : Bool := !(u = 0 || u = 1 || u = C.prime - 1)

/-- `sqrt` is the root of the discriminant and `temp` the square of the result; `j` picks the sign of each. -/
def calcV (q : EcPoint) (j : ℕ) : Option ℤ := do
  let p : ℤ := C.prime
  let (x, y) := q.getAffine.getD (0, 0)
  let omega := bnModAdd (bnModMul (bnModMul C.a ((bnModInverse C.b p).getD 0) p) x p) 1 p
  let sqrt ← bnModSqrt (bnModSqr omega p - bnModMul 4 omega p) p
  let sqrt := if j ≠ 0 ∧ j ≠ 1 then p - sqrt else sqrt
  let multiply := match bnModSqrt y p with
    | some _ => (bnModInverse (bnModMul 2 omega p) p).getD 0
    | none => (bnModInverse 2 p).getD 0
  let temp ← bnModSqrt (bnModMul (bnModAdd omega sqrt p) multiply p) p
  return if j ≠ 0 ∧ j ≠ 2 then p - temp else temp

/-- One round of `point_to_values`: `none` is `continue`, `some none` is `return NULL` (or the call of
`EC_POINT_invert` on a `NULL` of `calc_f`). -/
def encodeRound (point : EcPoint) (draw : Draw) : Option (Option (ℤ × ℤ)) := do
  let u ← generateRandomBn G.toCurveParams draw.u
  guard (isValidU G.toCurveParams u)
  match calcF G.toCurveParams u with
  | none => return none
  | some fVal =>
    let diff := G.pointAdd point (G.pointInvert fVal)
    guard (!diff.isAtInfinity)
    match generateJ draw.j with
    | none => return none
    | some j =>
      let v ← calcV G.toCurveParams diff j
      return some (u, v)

/-- The rounds from `i` on. Running out of rounds leaves the function without a return value; no caller can use it,
so it is `none` like `NULL`. -/
def encodeRounds (point : EcPoint) (draws : ℕ → Draw) : ℕ → ℕ → Option (ℤ × ℤ)
  | 0, _ => none
  | left + 1, i =>
    match encodeRound G point (draws i) with
    | some result => result
    | none => encodeRounds point draws left (i + 1)

def pointToValues (point : EcPoint) (draws : ℕ → Draw) : Option (ℤ × ℤ) := encodeRounds G point draws 1000 0

end DecoyAuth.Encode
