import DecoyAuth.Encode.Prototype

/-!
# The preimages of a point

`calc_v` against the image of the map, for every curve. At a point whose abscissa is not `-b / a` its four values are the
preimages of the point, found equally often (`calcV_enumerates`). At the abscissa `-b / a` there is no preimage, but the
discriminant and both square roots are zero, and `calc_v` returns a value all the same; so it rejects the points without
a preimage exactly on the curves without a point there (`calcV_rejects_iff`, `rejects_all_iff`).
-/

namespace DecoyAuth.Encode

variable {C : CurveParams}

/-- **`calc_v` enumerates the preimages.** A field element is mapped to the point if and only if some `j` finds it; one `j`
does, or two where `omega` is 4. -/
theorem calcV_enumerates (C : CurveParams) {x y : ℤ} (hx : 0 ≤ x ∧ x < C.prime) (hy : 0 ≤ y ∧ y < C.prime)
    (hc : C.OnCurve x y) (homega : omega (x : ZMod C.prime) ≠ 0) {v : ℤ} (hv : 0 ≤ v ∧ v < C.prime) :
    (Prototype.f C v = some (.affine x y) ↔ ∃ j < 4, Prototype.calcV C (.affine x y) j = some v) ∧
      (Prototype.f C v = some (.affine x y) →
        ((Finset.range 4).filter fun j => Prototype.calcV C (.affine x y) j = some v).card =
          if omega (x : ZMod C.prime) = 4 then 2 else 1) :=
  ⟨(exists_calcV_iff hv hx hy hc homega).symm, card_calcV hv hx hy hc homega⟩

/-- The point `(14, 5)` of the small curve is the image of 6, and `(5, 10)` of the exceptional one, where `omega` is 4, that
of 18. -/
theorem calcV_enumerates_small :
    ((Finset.range 4).filter fun j => Prototype.calcV Small.params.toCurveParams (.affine 14 5) j = some 6).card = 1 ∧
      ((Finset.range 4).filter fun j =>
        Prototype.calcV Small.exceptional.toCurveParams (.affine 5 10) j = some 18).card = 2 := by
  refine ⟨?_, ?_⟩
  · have hne : omega ((14 : ℤ) : ZMod Small.params.prime) ≠ 4 := by decide +kernel
    have h := (calcV_enumerates Small.params.toCurveParams (x := 14) (y := 5) (v := 6) (by decide) (by decide)
      (by decide +kernel) (by decide +kernel) (by decide)).2 (by decide +kernel)
    rwa [if_neg hne] at h
  · have heq : omega ((5 : ℤ) : ZMod Small.exceptional.prime) = 4 := by decide +kernel
    have h := (calcV_enumerates Small.exceptional.toCurveParams (x := 5) (y := 10) (v := 18) (by decide) (by decide)
      (by decide +kernel) (by decide +kernel) (by decide)).2 (by decide +kernel)
    rwa [if_pos heq] at h

/-! ## Points without a preimage -/

theorem omega_eq_zero_iff {x : ℤ} : omega (x : ZMod C.prime) = 0 ↔ C.a * x + C.b ≡ 0 [ZMOD C.prime] := by
  have hb := C.cast_b_ne_zero
  have h : omega (x : ZMod C.prime) = (C.b : ZMod C.prime)⁻¹ * (C.a * x + C.b) := by
    unfold omega Swu.omega
    field_simp
  rw [h, mul_eq_zero, or_iff_right (inv_ne_zero hb), ← ZMod.intCast_eq_intCast_iff]
  push_cast
  rfl

theorem root_zero : root (0 : ZMod C.prime) = 0 := by
  have := C.prime_mod_four
  exact zero_pow (by omega)

theorem disc_of_omega_eq_zero {x : ZMod C.prime} (h : omega x = 0) : disc x = 0 := by
  rw [disc, h]
  ring

/-- At the abscissa `-b / a` both square roots are zero. -/
theorem calcV_of_omega_eq_zero {x : ℤ} (y : ℤ) (h : omega (x : ZMod C.prime) = 0) (j : ℕ) :
    calcV C (.affine x y) j = some (if j ≠ 0 ∧ j ≠ 2 then (C.prime : ℤ) else 0) := by
  have hd := disc_of_omega_eq_zero h
  have ht : target (IsSquare (y : ZMod C.prime)) (x : ZMod C.prime) j = 0 := by
    simp [target, discRoot, hd, root_zero, h]
  rw [calcV_eq_some_iff, hd, ht, root_zero]
  exact ⟨IsSquare.zero, IsSquare.zero, by simp [signed]⟩

/-- A point without a preimage: no field element is mapped to it. -/
def Unreachable (C : CurveParams) (x y : ℤ) : Prop := ∀ v : ℤ, 0 ≤ v → v < C.prime → calcF C v ≠ some (.affine x y)

section Reject

variable {x y : ℤ} (hx : 0 ≤ x ∧ x < C.prime) (hy : 0 ≤ y ∧ y < C.prime) (hc : C.OnCurve x y)
include hx hy hc

/-- The points with a regular abscissa that have no preimage, by the solutions of their quadratic. -/
theorem unreachable_iff (hreg : Regular (x : ZMod C.prime)) : Unreachable C x y ↔ ∀ s, s ^ 2 = disc (x : ZMod C.prime) →
    ¬IsSquare ((omega (x : ZMod C.prime) + s) * scale (IsSquare (y : ZMod C.prime)) x) := by
  constructor
  · rintro hq s hs ⟨v, hv⟩
    have hr : 0 ≤ (v.val : ℤ) ∧ (v.val : ℤ) < C.prime := ⟨Int.natCast_nonneg _, by exact_mod_cast v.val_lt⟩
    refine hq v.val hr.1 hr.2 ((calcF_eq_iff_exists hr hx hy hc hreg).2 ⟨s, hs, ?_⟩)
    rw [Int.cast_natCast, ZMod.natCast_zmod_val, hv, pow_two]
  · intro h v h0 hp hf
    obtain ⟨s, hs, hsq⟩ := (calcF_eq_iff_exists ⟨h0, hp⟩ hx hy hc hreg).1 hf
    exact h s hs ⟨v, by rw [← hsq, pow_two]⟩

theorem calcV_eq_none_of_regular (hreg : Regular (x : ZMod C.prime)) (hq : Unreachable C x y) (j : ℕ) :
    calcV C (.affine x y) j = none := by
  cases h : calcV C (.affine x y) j with
  | none => rfl
  | some v =>
    obtain ⟨hv, hf⟩ := calcF_calcV hx hy hc hreg h
    exact absurd hf (hq v hv.1 hv.2)

/-- No field element is mapped to a point with the abscissa `-b / a`. -/
theorem unreachable_of_omega_eq_zero (h : omega (x : ZMod C.prime) = 0) : Unreachable C x y := by
  intro v h0 hp hf
  obtain ⟨hd, ⟨-, hx0⟩ | ⟨-, hx1⟩⟩ := (calcF_eq_affine_iff ⟨h0, hp⟩ hx hy hc).1 hf
  · have hq := cand0_eq_iff.1 ⟨hd, hx0⟩
    rw [h, zero_mul, zero_add] at hq
    exact one_ne_zero hq
  · have hq := (Swu.x1_eq_iff C.cast_a_ne_zero C.cast_b_ne_zero (not_or.1 hd).1 (not_or.1 hd).2).1 hx1
    have hω : Swu.omega (C.a : ZMod C.prime) C.b x = 0 := h
    rw [hω, zero_mul, sub_zero, add_zero] at hq
    exact (not_or.1 hd).1 (pow_eq_zero_iff (by decide) |>.1 hq)

end Reject

/-- **Which points without a preimage `calc_v` rejects**: all but those with the abscissa `-b / a`. -/
theorem calcV_rejects_iff (C : CurveParams) {x y : ℤ} (hx : 0 ≤ x ∧ x < C.prime) (hy : 0 ≤ y ∧ y < C.prime)
    (hc : C.OnCurve x y) (hq : Unreachable C x y) :
    (∀ j < 4, calcV C (.affine x y) j = none) ↔ ¬C.a * x + C.b ≡ 0 [ZMOD C.prime] := by
  rw [← omega_eq_zero_iff]
  constructor
  · intro h h0
    have hnone := h 0 (by decide)
    rw [calcV_of_omega_eq_zero y h0 0] at hnone
    cases hnone
  · intro hreg j _
    exact calcV_eq_none_of_regular hx hy hc hreg hq j

/-- The point `(0, 2)` of the small curve has no preimage and is rejected. -/
theorem calcV_rejects_small : Unreachable Small.params.toCurveParams 0 2 ∧
    ∀ j < 4, calcV Small.params.toCurveParams (.affine 0 2) j = none := by
  have hq : Unreachable Small.params.toCurveParams 0 2 := by
    have h : ∀ v : Fin 23, calcF Small.params.toCurveParams v.val ≠ some (.affine 0 2) := by decide +kernel
    intro v h0 hp
    obtain ⟨n, rfl⟩ := Int.eq_ofNat_of_zero_le h0
    exact h ⟨n, by exact_mod_cast hp⟩
  refine ⟨hq, ?_⟩
  exact (calcV_rejects_iff Small.params.toCurveParams (by decide) (by decide) (by decide +kernel) hq).2 (by decide)

/-- The point `(6, 3)` of the exceptional curve has no preimage, and `calc_v` returns 0 or the prime for it. -/
theorem calcV_accepts_unreachable : Unreachable Small.exceptional.toCurveParams 6 3 ∧
    Small.exceptional.OnCurve (6 : ℤ) (3 : ℤ) ∧
    (calcV Small.exceptional.toCurveParams (.affine 6 3) 0 = some 0 ∧
      calcV Small.exceptional.toCurveParams (.affine 6 3) 1 = some 23) := by
  have hc : Small.exceptional.OnCurve (6 : ℤ) (3 : ℤ) := by decide +kernel
  refine ⟨unreachable_of_omega_eq_zero (by decide) (by decide) hc (by decide +kernel), hc, ?_⟩
  decide +kernel

/-- At the root of `omega` the cubic is `-a * b` times a square. -/
theorem rhs_of_omega_eq_zero {C : CurveParams} {x : ZMod C.prime} (h : omega x = 0) :
    rhs x = (C.b * ((C.a : ZMod C.prime) ^ 2)⁻¹) ^ 2 * -(C.a * C.b) := by
  have ha := C.cast_a_ne_zero
  have hx : x = -(C.b : ZMod C.prime) * (C.a : ZMod C.prime)⁻¹ := by
    by_contra hne
    exact regular_iff.2 hne h
  rw [hx]
  unfold rhs Swu.g
  field_simp
  ring

/-- The curve has a point at the root of `omega` if `-a * b` is a square. -/
theorem exists_omega_eq_zero {C : CurveParams} (h : IsSquare (-((C.a : ZMod C.prime) * C.b))) :
    ∃ x y : ℤ, (0 ≤ x ∧ x < C.prime) ∧ (0 ≤ y ∧ y < C.prime) ∧ C.OnCurve x y ∧ omega (x : ZMod C.prime) = 0 := by
  obtain ⟨y, hy⟩ := h
  set x : ZMod C.prime := -(C.b : ZMod C.prime) * (C.a : ZMod C.prime)⁻¹ with hxdef
  have homega : omega x = 0 := by
    by_contra hne
    exact regular_iff.1 hne rfl
  have hc : C.OnCurve x (C.b * ((C.a : ZMod C.prime) ^ 2)⁻¹ * y) := by
    rw [onCurve_iff, rhs_of_omega_eq_zero homega, hy]
    ring
  have hcast : ∀ z : ZMod C.prime, ((z.val : ℤ) : ZMod C.prime) = z := fun z => by simp
  have hrange : ∀ z : ZMod C.prime, 0 ≤ (z.val : ℤ) ∧ (z.val : ℤ) < C.prime := fun z =>
    ⟨Int.natCast_nonneg _, by exact_mod_cast z.val_lt⟩
  refine ⟨_, _, hrange x, hrange (C.b * ((C.a : ZMod C.prime) ^ 2)⁻¹ * y), ?_, ?_⟩
  · rwa [hcast, hcast]
  · rwa [hcast]

/-- **The curves on which `calc_v` rejects every point without a preimage**: those where `-a * b` is not a square. -/
theorem rejects_all_iff (C : CurveParams) :
    (∀ x y : ℤ, 0 ≤ x ∧ x < C.prime → 0 ≤ y ∧ y < C.prime → C.OnCurve x y → Unreachable C x y →
      ∀ j < 4, calcV C (.affine x y) j = none) ↔ ¬IsSquare (-((C.a : ZMod C.prime) * C.b)) := by
  constructor
  · intro h hs
    obtain ⟨x, y, hx, hy, hc, homega⟩ := exists_omega_eq_zero hs
    have hnone := h x y hx hy hc (unreachable_of_omega_eq_zero hx hy hc homega) 0 (by decide)
    rw [calcV_of_omega_eq_zero _ homega 0] at hnone
    cases hnone
  · intro hs x y hx hy hc hq j _
    refine calcV_eq_none_of_regular hx hy hc (fun homega => hs ?_) hq j
    have ha := C.cast_a_ne_zero
    have hb := C.cast_b_ne_zero
    have hsq := onCurve_iff.1 hc
    rw [rhs_of_omega_eq_zero homega] at hsq
    have hne : (C.b : ZMod C.prime) * ((C.a : ZMod C.prime) ^ 2)⁻¹ ≠ 0 :=
      mul_ne_zero hb (inv_ne_zero (pow_ne_zero 2 ha))
    have hprod : IsSquare ((C.b * ((C.a : ZMod C.prime) ^ 2)⁻¹) ^ 2 * -((C.a : ZMod C.prime) * C.b)) :=
      ⟨(y : ZMod C.prime), by rw [← hsq, pow_two]⟩
    rw [Residue.isSquare_mul_iff (pow_ne_zero 2 hne) (neg_ne_zero.2 (mul_ne_zero ha hb))] at hprod
    exact hprod.1 (IsSquare.sq _)

end DecoyAuth.Encode
