import DecoyAuth.Encode.Prototype
import DecoyAuth.Scripts.Util

/-!
# The point decoder of the Python scripts

`scripts/encode.py` computes the same map over Python's integers, with the arithmetic of `scripts/util.py`. It differs
from `c-prototype/src/encode.c` in two places. The test for 0, 1 and -1 joins its three comparisons with `and`, so it
never holds and these arguments run into the inversion of zero. And `modular_sqrt` finds no root of zero, so an argument
whose first candidate is the abscissa of a point of order two fails the assertion. `valuesToPoint_agrees_iff` says that
the two decoders agree on all other arguments, and only on those.
-/

namespace DecoyAuth.Encode

open Util

namespace Python

/-! ## Decoding -/

section Decoding

variable (C : CurveParams) (G : EcParams)

def g (x : ℤ) : ℤ := (x ^ 3 + C.a * x + C.b) % C.prime

def x0 (u : ℤ) : Except PyError ℤ := do
  let uSquare := u * u % C.prime
  let aInv ← invertMod C.a C.prime
  let inv ← invertMod (uSquare * uSquare - uSquare) C.prime
  return (-(C.b * aInv) * (1 + inv)) % C.prime

def x1 (u : ℤ) : Except PyError ℤ := do
  let x ← x0 C u
  return (-(u * u % C.prime) * x) % C.prime

/-- The three comparisons of the first test are joined by `and`, as in the source. -/
def f (u : ℤ) : Except PyError (ℤ × ℤ) :=
  if u = C.prime - 1 ∧ u = 0 ∧ u = 1 then .ok (0, 0)
  else do
    let x ← x0 C u
    match modularSqrt (g C x) C.prime with
    | some y => return (x, y)
    | none =>
      let x ← x1 C u
      match modularSqrt (g C x) C.prime with
      | some y => return (x, C.prime - y)
      | none => throw .assertionError

/-- `ECC.EccPoint`: the pair `(0, 0)` is the point at infinity, and other pairs off the curve are refused. -/
def eccPoint (P : ℤ × ℤ) : Except PyError EcPoint :=
  if P = (0, 0) then .ok .infinity
  else
    match G.pointSetAffine P.1 P.2 with
    | some Q => .ok Q
    | none => .error .valueError

/-- The attributes `x` and `y` of an `EccPoint`. -/
def coordinates : EcPoint → ℤ × ℤ
  | .infinity => (0, 0)
  | .affine x y => (x, y)

def ecAdd (P Q : ℤ × ℤ) : Except PyError (ℤ × ℤ) := do
  let Pc ← eccPoint G P
  let Qc ← eccPoint G Q
  return coordinates (G.pointAdd Pc Qc)

def valuesToPoint (u v : ℤ) : Except PyError (ℤ × ℤ) := do
  let fU ← f G.toCurveParams u
  let fV ← f G.toCurveParams v
  ecAdd G fU fV

end Decoding

/-! ## The map -/

section Map

variable {C : CurveParams} {u : ℤ}

theorem g_eq (x : ℤ) : g C x = ((rhs (x : ZMod C.prime)).val : ℤ) := by
  rw [g, emod_eq_val]
  simp [Swu.g]

theorem cast_g (x : ℤ) : (g C x : ZMod C.prime) = rhs (x : ZMod C.prime) := by simp [g_eq]

theorem cast_aInv : ∃ r, invertMod C.a C.prime = .ok r ∧ (r : ZMod C.prime) = (C.a : ZMod C.prime)⁻¹ := by
  have h := invertMod_of_ne_zero (p := C.prime) (a := C.a) (by simpa using C.cast_a_ne_zero)
  simpa using h

theorem cast_uSquare (u : ℤ) : ((u * u % C.prime * (u * u % C.prime) - u * u % C.prime : ℤ) : ZMod C.prime) =
    (u : ZMod C.prime) ^ 4 - (u : ZMod C.prime) ^ 2 := by
  push_cast [ZMod.intCast_mod]
  ring

/-- At 0, 1 and -1 the first candidate inverts zero. -/
theorem x0_of_degenerate (hu : Degenerate (u : ZMod C.prime)) : x0 C u = .error .valueError := by
  have hzero : ((u * u % C.prime * (u * u % C.prime) - u * u % C.prime : ℤ) : ZMod C.prime) = 0 := by
    rw [cast_uSquare]
    rcases hu with h | h
    · simp [h]
    · linear_combination ((u : ZMod C.prime) ^ 2) * h
  obtain ⟨r, hr, -⟩ := cast_aInv (C := C)
  simp only [x0, hr, invertMod_of_eq_zero hzero]
  rfl

theorem f_of_degenerate (hu : Degenerate (u : ZMod C.prime)) : f C u = .error .valueError := by
  rw [f, if_neg (by omega), x0_of_degenerate hu]
  rfl

section Nondegenerate

variable (hu : ¬Degenerate (u : ZMod C.prime))
include hu

theorem x0_eq : x0 C u = .ok ((cand0 (u : ZMod C.prime)).val : ℤ) := by
  have hne : ((u * u % C.prime * (u * u % C.prime) - u * u % C.prime : ℤ) : ZMod C.prime) ≠ 0 := by
    rw [cast_uSquare]
    exact Swu.pow_four_sub_ne_zero (not_or.1 hu).1 (not_or.1 hu).2
  obtain ⟨r, hr, hra⟩ := cast_aInv (C := C)
  obtain ⟨s, hs, hsu⟩ := invertMod_of_ne_zero hne
  rw [cast_uSquare] at hsu
  have hcast : ((-(C.b * r) * (1 + s) : ℤ) : ZMod C.prime) = cand0 (u : ZMod C.prime) := by
    push_cast
    rw [hra, hsu]
    unfold cand0 Swu.x0
    ring
  simp only [x0, hr, hs]
  rw [← hcast, ← emod_eq_val]
  rfl

theorem x1_eq : x1 C u = .ok ((cand1 (u : ZMod C.prime)).val : ℤ) := by
  have hcast : ((-(u * u % C.prime) * ((cand0 (u : ZMod C.prime)).val : ℤ) : ℤ) : ZMod C.prime) =
      cand1 (u : ZMod C.prime) := by
    push_cast [ZMod.intCast_mod]
    rw [ZMod.natCast_zmod_val]
    unfold cand1 Swu.x1
    ring
  simp only [x1, x0_eq hu]
  rw [← hcast, ← emod_eq_val]
  rfl

theorem f_eq : f C u = match modularSqrt (g C (cand0 (u : ZMod C.prime)).val) C.prime with
    | some y => .ok (((cand0 (u : ZMod C.prime)).val : ℤ), y)
    | none => match modularSqrt (g C (cand1 (u : ZMod C.prime)).val) C.prime with
      | some y => .ok (((cand1 (u : ZMod C.prime)).val : ℤ), C.prime - y)
      | none => .error .assertionError := by
  rw [f, if_neg (by omega)]
  simp only [x0_eq hu, x1_eq hu]
  rfl

/-- If the first candidate is a root of the cubic, so is the second one, and both roots are missed. -/
theorem f_of_rhs_eq_zero (h : rhs (cand0 (u : ZMod C.prime)) = 0) : f C u = .error .assertionError := by
  have h0 : modularSqrt (g C (cand0 (u : ZMod C.prime)).val) C.prime = none :=
    modularSqrt_eq_none C.prime_mod_four (.inl (by simpa [cast_g] using h))
  have h1 : modularSqrt (g C (cand1 (u : ZMod C.prime)).val) C.prime = none := by
    refine modularSqrt_eq_none C.prime_mod_four (.inl ?_)
    simp only [cast_g, Int.cast_natCast, ZMod.natCast_zmod_val]
    rw [g_x1 hu, h, mul_zero]
  rw [f_eq hu, h0]
  simp only [h1]

/-- Elsewhere the script computes what `f` of the prototype computes. -/
theorem f_of_rhs_ne_zero (hr : 0 ≤ u ∧ u < C.prime) (h : rhs (cand0 (u : ZMod C.prime)) ≠ 0) :
    ∃ P, calcF C u = some P ∧ f C u = .ok (coordinates P) := by
  rw [f_eq hu]
  by_cases hs : IsSquare (rhs (cand0 (u : ZMod C.prime)))
  · refine ⟨_, calcF_of_isSquare hr.1 hr.2 hu hs, ?_⟩
    rw [modularSqrt_of_isSquare C.prime_mod_four (by simpa [cast_g] using h) (by simpa [cast_g] using hs)]
    simp [cast_g, coordinates, root]
  · have hs1 := isSquare_g_x1 hu hs
    have h1 : rhs (cand1 (u : ZMod C.prime)) ≠ 0 := by
      rw [g_x1 hu]
      exact mul_ne_zero (neg_ne_zero.2 (pow_ne_zero _ (pow_ne_zero _ (not_or.1 hu).1))) h
    refine ⟨_, calcF_of_not_isSquare hr.1 hr.2 hu hs, ?_⟩
    rw [modularSqrt_eq_none C.prime_mod_four (.inr (by simpa [cast_g] using hs))]
    have hroot : root (rhs (cand1 (u : ZMod C.prime))) ≠ 0 := fun h' => h1 (by rw [← root_sq hs1, h', zero_pow two_ne_zero])
    have hneg := val_sub_eq (C := C) (Int.natCast_nonneg _) (Int.ofNat_lt.2 (root (rhs (cand1 (u : ZMod C.prime)))).val_lt)
      (w := -root (rhs (cand1 (u : ZMod C.prime)))) (by simp) (neg_ne_zero.2 hroot)
    simp only [modularSqrt_of_isSquare C.prime_mod_four (a := g C (cand1 (u : ZMod C.prime)).val)
      (by simpa [cast_g] using h1) (by simpa [cast_g] using hs1), cast_g, Int.cast_natCast, ZMod.natCast_zmod_val,
      coordinates, hneg]
    rfl

end Nondegenerate

end Map

/-! ## Addition -/

section Addition

variable {G : EcParams} {P Q : EcPoint}

/-- The pair of a point is the pair of no other point: `(0, 0)` is not on the curve. -/
theorem eccPoint_coordinates (hP : G.Valid P) : eccPoint G (coordinates P) = .ok P := by
  cases P with
  | infinity => rfl
  | affine x y =>
    obtain ⟨hc, hx, hy⟩ := EcParams.valid_affine.1 hP
    have hne : coordinates (.affine x y) ≠ (0, 0) := by
      rintro h
      obtain ⟨rfl, rfl⟩ := Prod.mk.inj h
      refine G.cast_b_ne_zero ?_
      simpa [CurveParams.OnCurve] using hc.symm
    rw [eccPoint, if_neg hne]
    simp only [coordinates, CurveParams.pointSetAffine, if_pos hc, Int.emod_eq_of_lt hx.1 hx.2,
      Int.emod_eq_of_lt hy.1 hy.2]

theorem ecAdd_coordinates (hP : G.Valid P) (hQ : G.Valid Q) :
    ecAdd G (coordinates P) (coordinates Q) = .ok (coordinates (G.pointAdd P Q)) := by
  simp only [ecAdd, eccPoint_coordinates hP, eccPoint_coordinates hQ]
  rfl

end Addition

end Python

/-! ## Where the decoders agree -/

/-- `u` is none of 0, 1 and -1, and its first candidate is not the abscissa of a point of order two. -/
def Admissible (C : CurveParams) (u : ℤ) : Prop :=
  u ≠ 0 ∧ u ≠ 1 ∧ u ≠ C.prime - 1 ∧ ∀ x : ZMod C.prime, C.OnCurve x 0 →
    (C.a : ZMod C.prime) * x * ((u : ZMod C.prime) ^ 4 - (u : ZMod C.prime) ^ 2) ≠
      -(C.b : ZMod C.prime) * ((u : ZMod C.prime) ^ 4 - (u : ZMod C.prime) ^ 2 + 1)

section Agreement

variable {C : CurveParams} {G : EcParams} {u v : ℤ}

theorem admissible_iff (hu : 0 ≤ u ∧ u < C.prime) :
    Admissible C u ↔ ¬Degenerate (u : ZMod C.prime) ∧ rhs (cand0 (u : ZMod C.prime)) ≠ 0 := by
  have hdeg : ¬Degenerate (u : ZMod C.prime) ↔ u ≠ 0 ∧ u ≠ 1 ∧ u ≠ C.prime - 1 := by
    rw [degenerate_iff hu.1 hu.2]
    tauto
  have hroot : ∀ x : ZMod C.prime, C.OnCurve x 0 ↔ rhs x = 0 := fun x => by
    rw [onCurve_iff, zero_pow two_ne_zero, eq_comm]
  rw [hdeg, Admissible, ← and_assoc, ← and_assoc, and_assoc (a := u ≠ 0)]
  refine and_congr_right fun h => ?_
  obtain ⟨h0, h1⟩ := not_or.1 (hdeg.2 h)
  have hcand := fun x => Swu.x0_eq_iff_mul (b := (C.b : ZMod C.prime)) (x := x) C.cast_a_ne_zero h0 h1
  constructor
  · intro hx hr
    exact hx _ ((hroot _).2 hr) ((hcand _).1 rfl)
  · intro hr x hx he
    refine hr ?_
    rw [cand0, (hcand x).2 he]
    exact (hroot x).1 hx

theorem f_eq_ok (hr : 0 ≤ u ∧ u < G.prime) (hu : Admissible G.toCurveParams u) :
    Python.f G.toCurveParams u = .ok (Python.coordinates (G.ofPoint (swu G u))) := by
  obtain ⟨hd, hz⟩ := (admissible_iff hr).1 hu
  obtain ⟨P, hP, hf⟩ := Python.f_of_rhs_ne_zero hd hr hz
  rw [calcF_eq hr.1 hr.2] at hP
  rw [hf, Option.some.inj hP]

theorem f_ne_ok (hr : 0 ≤ u ∧ u < C.prime) (hu : ¬Admissible C u) (z : ℤ × ℤ) : Python.f C u ≠ .ok z := by
  by_cases hd : Degenerate (u : ZMod C.prime)
  · rw [Python.f_of_degenerate hd]
    nofun
  · have hz : rhs (cand0 (u : ZMod C.prime)) = 0 := by
      by_contra h
      exact hu ((admissible_iff hr).2 ⟨hd, h⟩)
    rw [Python.f_of_rhs_eq_zero hd hz]
    nofun

theorem python_valuesToPoint_eq (hu : 0 ≤ u ∧ u < G.prime) (hv : 0 ≤ v ∧ v < G.prime)
    (hau : Admissible G.toCurveParams u) (hav : Admissible G.toCurveParams v) :
    Python.valuesToPoint G u v = .ok (Python.coordinates (G.ofPoint (swu G u + swu G v))) := by
  simp only [Python.valuesToPoint, f_eq_ok hu hau, f_eq_ok hv hav]
  refine (Python.ecAdd_coordinates (EcParams.valid_ofPoint _) (EcParams.valid_ofPoint _)).trans ?_
  simp [EcParams.pointAdd]

/-- **Where the decoders agree.** The script returns the point that `es_decode` returns if and only if both values are
admissible; otherwise it raises an exception. -/
theorem valuesToPoint_agrees_iff (hu : 0 ≤ u ∧ u < G.prime) (hv : 0 ≤ v ∧ v < G.prime) :
    (∃ P, Prototype.esDecode G (some u) (some v) = some P ∧
      Python.valuesToPoint G u v = .ok (Python.coordinates P)) ↔
      Admissible G.toCurveParams u ∧ Admissible G.toCurveParams v := by
  constructor
  · rintro ⟨P, -, hP⟩
    simp only [Python.valuesToPoint] at hP
    cases hfu : Python.f G.toCurveParams u with
    | error e => rw [hfu] at hP; cases hP
    | ok fU =>
      cases hfv : Python.f G.toCurveParams v with
      | error e => rw [hfu, hfv] at hP; cases hP
      | ok fV => exact ⟨by_contra fun h => f_ne_ok hu h _ hfu, by_contra fun h => f_ne_ok hv h _ hfv⟩
  · rintro ⟨hau, hav⟩
    exact ⟨_, valuesToPoint_eq hu hv, python_valuesToPoint_eq hu hv hau hav⟩

theorem valuesToPoint_agrees_small : ∃ P, Prototype.esDecode Small.params (some 5) (some 3) = some P ∧
    Python.valuesToPoint Small.params 5 3 = .ok (Python.coordinates P) := by
  -- no point of the small curve has order two
  have hx : ∀ x : ZMod 23, (0 : ZMod 23) ^ 2 ≠ x ^ 3 + (1 : ℕ) * x + (4 : ℕ) := by decide +kernel
  have h5 : Admissible Small.params.toCurveParams 5 :=
    ⟨by decide, by decide, by decide, fun x hc => absurd hc (hx x)⟩
  have h3 : Admissible Small.params.toCurveParams 3 :=
    ⟨by decide, by decide, by decide, fun x hc => absurd hc (hx x)⟩
  exact (valuesToPoint_agrees_iff (by decide) (by decide)).2 ⟨h5, h3⟩

/-- The script raises an exception for 0 on the small curve, and for the abscissa of a point of order two on another one;
`es_decode` returns a point for both. -/
theorem valuesToPoint_raises :
    (Python.valuesToPoint Small.params 0 6 = .error .valueError ∧
      Prototype.esDecode Small.params (some 0) (some 6) = some (.affine 14 5)) ∧
    (Python.valuesToPoint Small.torsion 2 3 = .error .assertionError ∧
      ∃ P, Prototype.esDecode Small.torsion (some 2) (some 3) = some P) := by
  refine ⟨by decide +kernel, by decide +kernel, ?_⟩
  exact Option.isSome_iff_exists.1 (by decide +kernel)

/-- In a group of odd order no point has order two: an odd multiple of a point that is its own negative is the point
itself. -/
theorem not_onCurve_zero_of_odd {order : ℕ} (hord : G.HasOrder order) (hodd : Odd order) (x : ZMod G.prime) :
    ¬G.OnCurve x 0 := by
  intro hc
  let P : G.curve.Point := .some x 0 (EcParams.nonsingular_iff.2 hc)
  have htwo : 2 • P = 0 := by
    rw [two_nsmul]
    exact WeierstrassCurve.Affine.Point.add_self_of_Y_eq (by simp [CurveParams.curve, WeierstrassCurve.Affine.negY])
  obtain ⟨k, rfl⟩ := hodd
  have hP : P = 0 := by
    have h := hord P
    rwa [add_nsmul, one_nsmul, mul_nsmul, htwo, nsmul_zero, zero_add] at h
  exact WeierstrassCurve.Affine.Point.some_ne_zero _ hP

/-- In a group of odd order only 0, 1 and -1 are not admissible. -/
theorem admissible_iff_of_odd {order : ℕ} (hord : G.HasOrder order) (hodd : Odd order) :
    Admissible G.toCurveParams u ↔ u ≠ 0 ∧ u ≠ 1 ∧ u ≠ G.prime - 1 :=
  ⟨fun h => ⟨h.1, h.2.1, h.2.2.1⟩,
    fun h => ⟨h.1, h.2.1, h.2.2, fun x hc => absurd hc (not_onCurve_zero_of_odd hord hodd x)⟩⟩

end Agreement

end DecoyAuth.Encode
