import DecoyAuth.Encode.Candidates
import DecoyAuth.Encode.Defs

/-!
# The map behind the encoding

`swu` is the map that `calc_f` computes, on the field (`calcF_eq`). A point is the image of `v` through the first candidate
if its ordinate is a square, and through the second one otherwise (`calcF_eq_affine_iff`).
-/

namespace DecoyAuth.Encode

variable {C : CurveParams} {G : EcParams}

/-- The right hand side of the curve's equation. -/
abbrev rhs (x : ZMod C.prime) : ZMod C.prime := Swu.g (C.a : ZMod C.prime) C.b x

abbrev cand0 (u : ZMod C.prime) : ZMod C.prime := Swu.x0 (C.a : ZMod C.prime) C.b u

abbrev cand1 (u : ZMod C.prime) : ZMod C.prime := Swu.x1 (C.a : ZMod C.prime) C.b u

/-! ## The computations on residues -/

section Cast

theorem x0_eq_prototype (u : ℤ) : x0 C u = Prototype.x0 u C.a C.b C.prime := rfl

theorem x1_eq_prototype (u : ℤ) : x1 C u = Prototype.x1 u C.a C.b C.prime := rfl

theorem calcG_eq_prototype (x : ℤ) : calcG C x = Prototype.g x C.a C.b C.prime := rfl

@[simp] theorem cast_x0 (u : ℤ) : (x0 C u : ZMod C.prime) = cand0 u := by
  rw [x0_eq_prototype, Prototype.cast_x0, Int.cast_natCast, Int.cast_natCast]

@[simp] theorem cast_x1 (u : ℤ) : (x1 C u : ZMod C.prime) = cand1 u := by
  rw [x1_eq_prototype, Prototype.cast_x1, Int.cast_natCast, Int.cast_natCast]

@[simp] theorem cast_calcG (x : ℤ) : (calcG C x : ZMod C.prime) = rhs x := by
  rw [calcG_eq_prototype, Prototype.cast_g, Int.cast_natCast, Int.cast_natCast]

theorem cast_calcG_x0 (u : ℤ) : (calcG C (x0 C u) : ZMod C.prime) = rhs (cand0 u) := by rw [cast_calcG, cast_x0]

theorem cast_calcG_x1 (u : ℤ) : (calcG C (x1 C u) : ZMod C.prime) = rhs (cand1 u) := by rw [cast_calcG, cast_x1]

end Cast

/-! ## The map on the field -/

/-- The arguments that `calc_f` sends to infinity: 0, 1 and -1. -/
def Degenerate (u : ZMod C.prime) : Prop := u = 0 ∨ u ^ 2 = 1

theorem degenerate_iff {u : ℤ} (h0 : 0 ≤ u) (hp : u < C.prime) :
    Degenerate (u : ZMod C.prime) ↔ u = 1 ∨ u = 0 ∨ u = C.prime - 1 := zero_or_sq_eq_one_iff h0 hp

theorem onCurve_iff {x y : ZMod C.prime} : C.OnCurve x y ↔ y ^ 2 = rhs x := Iff.rfl

/-- The square root that `BN_mod_sqrt` finds. -/
def root (z : ZMod C.prime) : ZMod C.prime := z ^ ((C.prime + 1) / 4)

theorem root_sq {z : ZMod C.prime} (h : IsSquare z) : root z ^ 2 = z := Residue.root_sq C.prime_mod_four h

theorem onCurve_root {x : ZMod C.prime} (h : IsSquare (rhs x)) :
    C.OnCurve x (root (rhs x)) := root_sq h

theorem onCurve_neg_root {x : ZMod C.prime} (h : IsSquare (rhs x)) :
    C.OnCurve x (-root (rhs x)) := by
  rw [onCurve_iff, neg_sq]
  exact root_sq h

section Nondegenerate

variable {u : ZMod C.prime} (hu : ¬Degenerate u)
include hu

theorem g_x1 : rhs (cand1 u) = -(u ^ 3) ^ 2 * rhs (cand0 u) := by
  obtain ⟨h0, h1⟩ := not_or.1 hu
  exact (Swu.g_x1 C.cast_a_ne_zero h0 h1).trans (by ring)

/-- One of the two candidates is the abscissa of a point. -/
theorem isSquare_g_x1 (h : ¬IsSquare (rhs (cand0 u))) : IsSquare (rhs (cand1 u)) := by
  have hne : rhs (cand0 u) ≠ 0 := fun h' => h (h' ▸ IsSquare.zero)
  rwa [g_x1 hu, Residue.isSquare_neg_sq_mul_iff C.prime_mod_four (pow_ne_zero 3 (not_or.1 hu).1) hne]

theorem cand0_ne_zero : cand0 u ≠ 0 :=
  Swu.x0_ne_zero C.cast_a_ne_zero C.cast_b_ne_zero (not_or.1 hu).1 (not_or.1 hu).2
    (Residue.not_isSquare_neg_one C.prime_mod_four)

theorem cand1_ne_zero : cand1 u ≠ 0 :=
  Swu.x1_ne_zero C.cast_a_ne_zero C.cast_b_ne_zero (not_or.1 hu).1 (not_or.1 hu).2
    (Residue.not_isSquare_neg_one C.prime_mod_four)

end Nondegenerate

/-! ## `calc_f` computes the map -/

theorem bnModSqrt_eq_root {z : ℤ} (h : IsSquare (z : ZMod C.prime)) :
    ∃ y, bnModSqrt z C.prime = some y ∧ (y : ZMod C.prime) = root (z : ZMod C.prime) := by
  cases hs : bnModSqrt z C.prime with
  | none => exact absurd h ((bnModSqrt_eq_none C.prime_mod_four).1 hs)
  | some y =>
    obtain ⟨-, -, hsq, hsquare⟩ := bnModSqrt_some hs
    exact ⟨y, rfl, Residue.eq_root C.prime_mod_four hsquare hsq⟩

theorem pointSetAffine_eq {x y : ℤ} {x' y' : ZMod C.prime} (hx : (x : ZMod C.prime) = x')
    (hy : (y : ZMod C.prime) = y') (h : C.OnCurve x' y') : C.pointSetAffine x y = some (.affine x'.val y'.val) := by
  subst hx hy
  rw [CurveParams.pointSetAffine, if_pos h, ZMod.val_intCast, ZMod.val_intCast]

section CalcF

variable {u : ℤ} (h0 : 0 ≤ u) (hp : u < C.prime)
include h0 hp

theorem calcF_of_degenerate (hu : Degenerate (u : ZMod C.prime)) : calcF C u = some .infinity :=
  if_pos ((degenerate_iff h0 hp).1 hu)

variable (hu : ¬Degenerate (u : ZMod C.prime))
include hu

theorem calcF_of_isSquare (hs : IsSquare (rhs (cand0 (u : ZMod C.prime)))) :
    calcF C u = some (.affine (cand0 (u : ZMod C.prime)).val (root (rhs (cand0 (u : ZMod C.prime)))).val) := by
  obtain ⟨y, hy, hyr⟩ := bnModSqrt_eq_root (by rwa [cast_calcG_x0] : IsSquare (calcG C (x0 C u) : ZMod C.prime))
  rw [cast_calcG_x0] at hyr
  rw [calcF, if_neg (mt (degenerate_iff h0 hp).2 hu)]
  simp only [hy, pointSetAffine_eq (cast_x0 u) hyr (onCurve_root hs), Option.getD_some]

theorem calcF_of_not_isSquare (hs : ¬IsSquare (rhs (cand0 (u : ZMod C.prime)))) :
    calcF C u = some (.affine (cand1 (u : ZMod C.prime)).val (-root (rhs (cand1 (u : ZMod C.prime)))).val) := by
  have hs1 := isSquare_g_x1 hu hs
  have hn : bnModSqrt (calcG C (x0 C u)) C.prime = none := by
    rwa [bnModSqrt_eq_none C.prime_mod_four, cast_calcG_x0]
  obtain ⟨y, hy, hyr⟩ := bnModSqrt_eq_root (by rwa [cast_calcG_x1] : IsSquare (calcG C (x1 C u) : ZMod C.prime))
  have hneg : ((C.prime - y : ℤ) : ZMod C.prime) = -root (rhs (cand1 (u : ZMod C.prime))) := by
    rw [Int.cast_sub, hyr, cast_calcG_x1, Int.cast_natCast, CharP.cast_eq_zero, zero_sub]
  rw [calcF, if_neg (mt (degenerate_iff h0 hp).2 hu)]
  simp only [hn, hy, pointSetAffine_eq (cast_x1 u) hneg (onCurve_neg_root hs1), Option.getD_some]

end CalcF

/-! ## The map into the group -/

variable (G) in
open Classical in
/-- The simplified SWU map into the group of points: the root of `g (x0 u)` if there is one, and otherwise the negative
root of `g (x1 u)`. -/
noncomputable def swu (u : ZMod G.prime) : G.curve.Point :=
  if Degenerate u then 0
  else if h : IsSquare (rhs (cand0 u)) then
    .some _ _ (EcParams.nonsingular_iff.2 (onCurve_root h))
  else if h : IsSquare (rhs (cand1 u)) then
    .some _ _ (EcParams.nonsingular_iff.2 (onCurve_neg_root h))
  else 0

theorem swu_of_degenerate {u : ZMod G.prime} (h : Degenerate u) : swu G u = 0 := if_pos h

section Nondegenerate

variable {u : ZMod G.prime} (hu : ¬Degenerate u)
include hu

theorem swu_of_isSquare (h : IsSquare (rhs (cand0 u))) :
    swu G u = .some _ _ (EcParams.nonsingular_iff.2 (onCurve_root h)) := by
  rw [swu, if_neg hu, dif_pos h]

theorem swu_of_not_isSquare (h : ¬IsSquare (rhs (cand0 u))) :
    swu G u = .some _ _ (EcParams.nonsingular_iff.2 (onCurve_neg_root (isSquare_g_x1 hu h))) := by
  rw [swu, if_neg hu, dif_neg h, dif_pos (isSquare_g_x1 hu h)]

theorem swu_ne_zero : swu G u ≠ 0 := by
  by_cases h : IsSquare (rhs (cand0 u))
  · rw [swu_of_isSquare hu h]
    exact WeierstrassCurve.Affine.Point.some_ne_zero _
  · rw [swu_of_not_isSquare hu h]
    exact WeierstrassCurve.Affine.Point.some_ne_zero _

end Nondegenerate

theorem swu_eq_zero_iff {u : ZMod G.prime} : swu G u = 0 ↔ Degenerate u :=
  ⟨fun h => by_contra fun hu => swu_ne_zero hu h, swu_of_degenerate⟩

/-- **`calc_f` computes the map**; in particular it never returns `NULL`. -/
theorem calcF_eq {u : ℤ} (h0 : 0 ≤ u) (hp : u < G.prime) : calcF G.toCurveParams u = some (G.ofPoint (swu G u)) := by
  by_cases hu : Degenerate (u : ZMod G.prime)
  · rw [calcF_of_degenerate h0 hp hu, swu_of_degenerate hu, EcParams.ofPoint_zero]
  by_cases hs : IsSquare (rhs (cand0 (u : ZMod G.prime)))
  · rw [calcF_of_isSquare h0 hp hu hs, swu_of_isSquare hu hs, EcParams.ofPoint_some]
  · rw [calcF_of_not_isSquare h0 hp hu hs, swu_of_not_isSquare hu hs, EcParams.ofPoint_some]

theorem valuesToPoint_eq {u v : ℤ} (hu : 0 ≤ u ∧ u < G.prime) (hv : 0 ≤ v ∧ v < G.prime) :
    valuesToPoint G u v = some (G.ofPoint (swu G u + swu G v)) := by
  simp [valuesToPoint, calcF_eq hu.1 hu.2, calcF_eq hv.1 hv.2, EcParams.pointAdd]

/-! ## The points of the image -/

section Image

variable {x y v : ZMod C.prime} (hc : C.OnCurve x y)
include hc

theorem isSquare_rhs_cand0 (hx : cand0 v = x) : IsSquare (rhs (cand0 v)) :=
  ⟨y, by rw [hx, ← onCurve_iff.1 hc, pow_two]⟩

theorem root_rhs_cand0 (hx : cand0 v = x) (hy : IsSquare y) : root (rhs (cand0 v)) = y := by
  rw [hx]
  exact (Residue.eq_root C.prime_mod_four hy hc).symm

/-- A point whose ordinate is not a square is not reached through the first candidate of `v`. -/
theorem not_isSquare_rhs_cand0 (hv : ¬Degenerate v) (hx : cand1 v = x) (hy : ¬IsSquare y) : ¬IsSquare (rhs (cand0 v)) := by
  have hy0 : y ≠ 0 := fun h => hy (h ▸ IsSquare.zero)
  have hsq : y ^ 2 = -(v ^ 3) ^ 2 * rhs (cand0 v) := by rw [← g_x1 hv, hx, onCurve_iff.1 hc]
  have hne : rhs (cand0 v) ≠ 0 := by
    intro h
    rw [h, mul_zero] at hsq
    exact hy0 (pow_eq_zero_iff two_ne_zero |>.1 hsq)
  rw [← Residue.isSquare_neg_sq_mul_iff C.prime_mod_four (pow_ne_zero 3 (not_or.1 hv).1) hne, ← hsq]
  exact IsSquare.sq y

theorem neg_root_rhs_cand1 (hx : cand1 v = x) (hy : ¬IsSquare y) : -root (rhs (cand1 v)) = y := by
  have hy0 : y ≠ 0 := fun h => hy (h ▸ IsSquare.zero)
  have hroot := Residue.eq_root C.prime_mod_four ((Residue.isSquare_neg_iff C.prime_mod_four hy0).2 hy)
    ((neg_sq y).trans hc)
  rw [hx, neg_eq_iff_eq_neg]
  exact hroot.symm

end Image

/-- The ordinate of a point that is reached through the second candidate is not a square. -/
theorem not_isSquare_neg_root {v : ZMod C.prime} (hv : ¬Degenerate v) (hs : ¬IsSquare (rhs (cand0 v))) :
    ¬IsSquare (-root (rhs (cand1 v))) := by
  have hs1 := isSquare_g_x1 hv hs
  have hne0 : rhs (cand0 v) ≠ 0 := fun h => hs (h ▸ IsSquare.zero)
  have hne : root (rhs (cand1 v)) ≠ 0 := by
    intro h
    have hsq := root_sq hs1
    rw [h, zero_pow two_ne_zero, g_x1 hv] at hsq
    exact mul_ne_zero (neg_ne_zero.2 (pow_ne_zero _ (pow_ne_zero _ (not_or.1 hv).1))) hne0 hsq.symm
  rw [Residue.isSquare_neg_iff C.prime_mod_four hne, not_not]
  exact Residue.isSquare_root hs1

/-- **The points of the image**: which candidate of `v` the abscissa is depends on the ordinate. -/
theorem calcF_eq_affine_iff {v x y : ℤ} (hv : 0 ≤ v ∧ v < C.prime) (hx : 0 ≤ x ∧ x < C.prime)
    (hy : 0 ≤ y ∧ y < C.prime) (hc : C.OnCurve x y) :
    calcF C v = some (.affine x y) ↔ ¬Degenerate (v : ZMod C.prime) ∧
      (IsSquare (y : ZMod C.prime) ∧ cand0 (v : ZMod C.prime) = x ∨
        ¬IsSquare (y : ZMod C.prime) ∧ cand1 (v : ZMod C.prime) = x) := by
  have hval : ∀ {z : ℤ} {w : ZMod C.prime}, 0 ≤ z ∧ z < C.prime → (((w.val : ℤ) = z) ↔ w = z) := by
    intro z w hz
    constructor
    · rintro rfl
      rw [Int.cast_natCast, ZMod.natCast_zmod_val]
    · rintro rfl
      rw [ZMod.val_intCast, Int.emod_eq_of_lt hz.1 hz.2]
  by_cases hd : Degenerate (v : ZMod C.prime)
  · rw [calcF_of_degenerate hv.1 hv.2 hd]
    exact iff_of_false nofun fun h => h.1 hd
  rw [and_iff_right hd]
  by_cases hs : IsSquare (rhs (cand0 (v : ZMod C.prime)))
  · rw [calcF_of_isSquare hv.1 hv.2 hd hs, Option.some.injEq, EcPoint.affine.injEq, hval hx, hval hy]
    constructor
    · rintro ⟨hxv, hyv⟩
      exact .inl ⟨hyv ▸ Residue.isSquare_root hs, hxv⟩
    · rintro (⟨hysq, hxv⟩ | ⟨hysq, hxv⟩)
      · exact ⟨hxv, root_rhs_cand0 hc hxv hysq⟩
      · exact absurd hs (not_isSquare_rhs_cand0 hc hd hxv hysq)
  · rw [calcF_of_not_isSquare hv.1 hv.2 hd hs, Option.some.injEq, EcPoint.affine.injEq, hval hx, hval hy]
    constructor
    · rintro ⟨hxv, hyv⟩
      exact .inr ⟨hyv ▸ not_isSquare_neg_root hd hs, hxv⟩
    · rintro (⟨hysq, hxv⟩ | ⟨hysq, hxv⟩)
      · exact absurd (isSquare_rhs_cand0 hc hxv) hs
      · exact ⟨hxv, neg_root_rhs_cand1 hc hxv hysq⟩

end DecoyAuth.Encode
