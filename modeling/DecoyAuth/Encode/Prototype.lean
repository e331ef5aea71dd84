import DecoyAuth.Crypto.Small
import DecoyAuth.Encode.Correct

/-!
# The point codec of the C prototype

`c-prototype/src/encode.c` is the text that hostap copied, under other names: `f` is `calc_f`, `es_encode` is
`point_to_values` and `es_decode` is `values_to_point`. Its functions take any curve. `f_spec` says what `f` computes on
the whole field, also where the curve is singular, and `decode_attempt` that `es_decode` inverts every attempt of
`es_encode`.
-/

namespace DecoyAuth.Encode

variable {C : CurveParams} {G : EcParams}

namespace Prototype

def f (C : CurveParams) (u : ℤ) : Option EcPoint := calcF C u

def calcV (C : CurveParams) (q : EcPoint) (j : ℕ) : Option ℤ := Encode.calcV C q j

/-- One attempt of the loop of `es_encode`. -/
def esEncodeAttempt (G : EcParams) (point : EcPoint) (draw : Draw) : Option (Option (ℤ × ℤ)) := encodeRound G point draw

/-- `es_decode`, which returns `NULL` if one of the values is `NULL`. -/
def esDecode (G : EcParams) (u v : Option ℤ) : Option EcPoint := do valuesToPoint G (← u) (← v)

end Prototype

/-! ## The candidates as residues -/

section Candidates

/-- `p - z` for a residue `z` that is not zero is a residue. -/
theorem val_sub_eq {z : ℤ} {w : ZMod C.prime} (h0 : 0 ≤ z) (hp : z < C.prime) (hw : ((C.prime - z : ℤ) : ZMod C.prime) = w)
    (hne : w ≠ 0) : (w.val : ℤ) = C.prime - z := by
  have hz : z ≠ 0 := by
    rintro rfl
    exact hne (by rw [← hw]; simp)
  refine eq_of_cast_eq (Int.natCast_nonneg _) (by exact_mod_cast w.val_lt) (by omega) (by omega) ?_
  rw [hw]
  simp

variable {u : ℤ} (hu : ¬Degenerate (u : ZMod C.prime))
include hu

theorem val_cand0 : ((cand0 (u : ZMod C.prime)).val : ℤ) = x0 C u :=
  val_sub_eq (bnModMul_nonneg cast_pos _ _) (bnModMul_lt cast_pos _ _) (cast_x0 u) (cand0_ne_zero hu)

theorem val_cand1 : ((cand1 (u : ZMod C.prime)).val : ℤ) = x1 C u :=
  val_sub_eq (bnModMul_nonneg cast_pos _ _) (bnModMul_lt cast_pos _ _) (cast_x1 u) (cand1_ne_zero hu)

end Candidates

/-! ## The image of the map -/

/-- An affine point of the curve in reduced coordinates whose abscissa is not zero. -/
structure ReducedPoint (C : CurveParams) (x y : ℤ) : Prop where
  x_pos : 0 < x
  x_lt : x < C.prime
  y_nonneg : 0 ≤ y
  y_lt : y < C.prime
  equation : y ^ 2 ≡ x ^ 3 + C.a * x + C.b [ZMOD C.prime]

theorem reducedPoint_val {x y : ZMod C.prime} (hx : x ≠ 0) (hc : C.OnCurve x y) : ReducedPoint C x.val y.val := by
  refine ⟨?_, ?_, Int.natCast_nonneg _, by exact_mod_cast y.val_lt, ?_⟩
  · exact_mod_cast Nat.pos_of_ne_zero fun h => hx ((ZMod.val_eq_zero x).1 h)
  · exact_mod_cast x.val_lt
  · rw [← ZMod.intCast_eq_intCast_iff]
    push_cast
    rw [ZMod.natCast_zmod_val, ZMod.natCast_zmod_val]
    exact hc

/-- Which candidate a point of the image comes from: the first one with an ordinate that is a square, or the second one
with an ordinate whose negative is a square. -/
inductive FromCandidate (C : CurveParams) (u x y : ℤ) : Prop
  | first (h : (bnModSqrt (calcG C (x0 C u)) C.prime).isSome) (hx : x = x0 C u) (hy : IsSquare (y : ZMod C.prime))
  | second (h : bnModSqrt (calcG C (x0 C u)) C.prime = none) (hx : x = x1 C u) (hy : IsSquare (-(y : ZMod C.prime)))

theorem isSquare_root {z : ZMod C.prime} (h : IsSquare z) : IsSquare (root z) := Residue.isSquare_root h

/-- The affine points of the image. -/
theorem calcF_affine {u : ℤ} (h0 : 0 ≤ u) (hp : u < C.prime) (hu : ¬Degenerate (u : ZMod C.prime)) :
    ∃ x y, calcF C u = some (.affine x y) ∧ ReducedPoint C x y ∧ FromCandidate C u x y := by
  by_cases hs : IsSquare (rhs (cand0 (u : ZMod C.prime)))
  · refine ⟨_, _, calcF_of_isSquare h0 hp hu hs, reducedPoint_val (cand0_ne_zero hu) (onCurve_root hs),
      .first ?_ (val_cand0 hu) ?_⟩
    · obtain ⟨y, hy, -⟩ := bnModSqrt_eq_root (by rwa [cast_calcG_x0] : IsSquare (calcG C (x0 C u) : ZMod C.prime))
      rw [hy]
      rfl
    · rw [Int.cast_natCast, ZMod.natCast_zmod_val]
      exact isSquare_root hs
  · have hs1 := isSquare_g_x1 hu hs
    refine ⟨_, _, calcF_of_not_isSquare h0 hp hu hs, reducedPoint_val (cand1_ne_zero hu) (onCurve_neg_root hs1),
      .second ?_ (val_cand1 hu) ?_⟩
    · rwa [bnModSqrt_eq_none C.prime_mod_four, cast_calcG_x0]
    · rw [Int.cast_natCast, ZMod.natCast_zmod_val, neg_neg]
      exact isSquare_root hs1

/-- **What `f` computes.** It never returns `NULL`, it is infinity at 0, 1 and -1, and elsewhere a reduced point of the
curve from one of the candidates. So every pair of field elements decodes to a point of the group. -/
theorem f_spec (C : CurveParams) {u : ℤ} (h0 : 0 ≤ u) (hp : u < C.prime) :
    Prototype.f C u ≠ none ∧ (Prototype.f C u = some .infinity ↔ u = 0 ∨ u = 1 ∨ u = C.prime - 1) ∧
      (∀ x y, Prototype.f C u = some (.affine x y) → ReducedPoint C x y ∧ FromCandidate C u x y) ∧
      ∀ (hns : C.Nonsingular) (v : ℤ), 0 ≤ v → v < C.prime →
        ∃ P, Prototype.esDecode ⟨C, hns⟩ (some u) (some v) = some P ∧ (EcParams.mk C hns).Valid P := by
  have hdecode : ∀ (hns : C.Nonsingular) (v : ℤ), 0 ≤ v → v < C.prime →
      ∃ P, Prototype.esDecode ⟨C, hns⟩ (some u) (some v) = some P ∧ (EcParams.mk C hns).Valid P := by
    intro hns v hv0 hvp
    exact ⟨_, valuesToPoint_eq (G := ⟨C, hns⟩) ⟨h0, hp⟩ ⟨hv0, hvp⟩, EcParams.valid_ofPoint _⟩
  have hiff : Degenerate (u : ZMod C.prime) ↔ u = 0 ∨ u = 1 ∨ u = C.prime - 1 := by
    rw [degenerate_iff h0 hp]
    tauto
  unfold Prototype.f
  by_cases hu : Degenerate (u : ZMod C.prime)
  · rw [calcF_of_degenerate h0 hp hu]
    exact ⟨nofun, iff_of_true rfl (hiff.1 hu), nofun, hdecode⟩
  · obtain ⟨x, y, hf, hpoint, hfrom⟩ := calcF_affine h0 hp hu
    rw [hf]
    refine ⟨nofun, iff_of_false nofun (mt hiff.2 hu), fun x' y' h => ?_, hdecode⟩
    cases h
    exact ⟨hpoint, hfrom⟩

theorem f_spec_small : Prototype.f Small.params.toCurveParams 6 ≠ none ∧
    ∃ P, Prototype.esDecode Small.params (some 6) (some 9) = some P ∧ Small.params.Valid P := by
  obtain ⟨hf, -, -, hdecode⟩ := f_spec Small.params.toCurveParams (u := 6) (by decide) (by decide)
  exact ⟨hf, hdecode Small.params.disc_ne_zero 9 (by decide) (by decide)⟩

/-! ## The round trip -/

/-- The draws of an attempt. -/
def draw (u j : ℕ) : Draw := ⟨some u, some (UInt8.ofNat j)⟩

theorem generateRandomBn_draw {u : ℕ} (hu : u < C.prime) (h0 : u ≠ 0) : generateRandomBn C (some u) = some (u : ℤ) := by
  rw [generateRandomBn, Option.map_some, Nat.mod_eq_of_lt hu, if_neg h0]

theorem generateJ_draw {j : ℕ} (hj : j < 4) : generateJ (some (UInt8.ofNat j)) = some j := by
  simp only [generateJ, Option.map_some, UInt8.toNat_ofNat', Option.some.injEq]
  omega

theorem encodeRound_draw {P Q : EcPoint} {u j : ℕ} {v : ℤ} (hu : u < G.prime) (h0 : u ≠ 0) (h1 : u ≠ 1)
    (hm : u ≠ G.prime - 1) (hj : j < 4) (hf : calcF G.toCurveParams u = some Q)
    (hdiff : G.pointAdd P (G.pointInvert Q) ≠ .infinity)
    (hv : calcV G.toCurveParams (G.pointAdd P (G.pointInvert Q)) j = some v) :
    encodeRound G P (draw u j) = some (some ((u : ℤ), v)) := by
  have hvalid : isValidU G.toCurveParams (u : ℤ) = true := by
    have hpos := G.prime_prime.one_lt
    simp only [isValidU, Bool.not_eq_true', Bool.or_eq_false_iff, decide_eq_false_iff_not]
    omega
  simp [encodeRound, draw, generateRandomBn_draw hu h0, hvalid, hf, EcPoint.isAtInfinity, hdiff, generateJ_draw hj, hv]

/-- **Decoding inverts every attempt.** On an elliptic curve without a point at `-b / a`, an attempt that draws `u` and `j`
and finds a `v` returns the pair; `v` is a field element other than 0, 1 and -1, and the pair decodes to the point. -/
theorem decode_attempt (hroot : ∀ x y : ZMod G.prime, G.OnCurve x y → x ≠ -(G.b : ZMod G.prime) * (G.a : ZMod G.prime)⁻¹)
    {P Q : EcPoint} (hP : G.Valid P) {u j : ℕ} (hu : u < G.prime) (h0 : u ≠ 0) (h1 : u ≠ 1) (hm : u ≠ G.prime - 1)
    (hj : j < 4) (hf : Prototype.f G.toCurveParams u = some Q) (hdiff : G.pointAdd P (G.pointInvert Q) ≠ .infinity) {v : ℤ}
    (hv : calcV G.toCurveParams (G.pointAdd P (G.pointInvert Q)) j = some v) :
    Prototype.esEncodeAttempt G P (draw u j) = some (some ((u : ℤ), v)) ∧ (0 ≤ v ∧ v < G.prime) ∧
      (v ≠ 0 ∧ v ≠ 1 ∧ v ≠ G.prime - 1) ∧ Prototype.esDecode G (some u) (some v) = some P := by
  have hur : (0 : ℤ) ≤ u ∧ (u : ℤ) < G.prime := ⟨Int.natCast_nonneg u, by exact_mod_cast hu⟩
  have hreg : EveryPointRegular G := fun x y hc => regular_iff.2 (hroot x y hc)
  have hf' : calcF G.toCurveParams (u : ℤ) = some Q := hf
  obtain rfl : Q = G.ofPoint (swu G ((u : ℤ) : ZMod G.prime)) := by
    rw [calcF_eq hur.1 hur.2] at hf'
    exact (Option.some.inj hf').symm
  obtain ⟨hvr, hvd, hsum⟩ := calcV_diff hreg hdiff hv
  refine ⟨encodeRound_draw hu h0 h1 hm hj hf' hdiff hv, hvr, ?_, ?_⟩
  · rw [degenerate_iff hvr.1 hvr.2] at hvd
    tauto
  · have hdecode : Prototype.esDecode G (some (u : ℤ)) (some v) = valuesToPoint G u v := rfl
    rw [hdecode, valuesToPoint_eq hur hvr, hsum, hP]

theorem decode_attempt_small :
    Prototype.esEncodeAttempt Small.params (.affine 0 2) (draw 5 0) = some (some (5, 3)) ∧
      Prototype.esDecode Small.params (some 5) (some 3) = some (.affine 0 2) := by
  have hattempt : Prototype.f Small.params.toCurveParams (5 : ℕ) = some (.affine 17 9) ∧
      Small.params.pointAdd (.affine 0 2) (Small.params.pointInvert (.affine 17 9)) ≠ .infinity ∧
      calcV Small.params.toCurveParams (Small.params.pointAdd (.affine 0 2) (Small.params.pointInvert (.affine 17 9))) 0 =
        some 3 := by
    decide +kernel
  obtain ⟨hf, hdiff, hv⟩ := hattempt
  obtain ⟨hpair, -, -, hdecode⟩ := decode_attempt Small.ne_neg_b_div_a (P := .affine 0 2) (by decide +kernel)
    (u := 5) (j := 0) (by decide) (by decide) (by decide) (by decide) (by decide) hf hdiff hv
  exact ⟨hpair, hdecode⟩

end DecoyAuth.Encode
