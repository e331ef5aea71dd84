import DecoyAuth.Encode.Preimages
import DecoyAuth.Encode.Python

/-!
# The inverse map of the Python scripts

`calc_v` of `scripts/encode.py` differs from the one of the C code only in its treatment of zero: neither `modular_sqrt`
nor `is_quadratic_residue` accepts it. Where the discriminant or the ordinate is zero the two return different results,
unless the point has no preimage (`calcV_agrees_iff`).
-/

namespace DecoyAuth.Encode

open Util

namespace Python

variable (C : CurveParams)

/-- The variable `multiply` of `calc_v`. -/
def multiply (y omega : ℤ) : Except PyError ℤ :=
  if isQuadraticResidue y C.prime then invertMod (2 * omega) C.prime else invertMod 2 C.prime

def calcV (q : ℤ × ℤ) (j : ℕ) : Except PyError (Option ℤ) := do
  let bInv ← invertMod C.b C.prime
  let omega := (C.a * bInv * q.1 + 1) % C.prime
  let omegaSquare := omega * omega % C.prime
  match modularSqrt (omegaSquare - 4 * omega) C.prime with
  | none => return none
  | some sqrt =>
    let sqrt := if j = 0 ∨ j = 1 then sqrt else C.prime - sqrt
    let mul ← multiply C q.2 omega
    match modularSqrt ((omega + sqrt) * mul) C.prime with
    | none => return none
    | some resSqrt => return some (if j = 0 ∨ j = 2 then resSqrt else C.prime - resSqrt)

end Python

/-! ## What the script computes -/

section Spec

variable {C : CurveParams} {x y : ℤ} {j : ℕ}

theorem multiply_spec {om : ℤ} (hom : (om : ZMod C.prime) = omega (x : ZMod C.prime)) (hx : Regular (x : ZMod C.prime)) :
    ∃ mul, Python.multiply C y om = .ok mul ∧
      (mul : ZMod C.prime) = scale ((y : ZMod C.prime) ≠ 0 ∧ IsSquare (y : ZMod C.prime)) (x : ZMod C.prime) := by
  have h2 : (2 : ZMod C.prime) ≠ 0 := Residue.two_ne_zero C.prime_mod_four
  unfold Python.multiply scale
  by_cases hy : (y : ZMod C.prime) ≠ 0 ∧ IsSquare (y : ZMod C.prime)
  · rw [if_pos ((isQuadraticResidue_iff C.prime_mod_four).2 hy), if_pos hy]
    have hcast : ((2 * om : ℤ) : ZMod C.prime) = 2 * omega (x : ZMod C.prime) := by
      rw [Int.cast_mul, hom, Int.cast_ofNat]
    rw [← hcast]
    exact invertMod_of_ne_zero (by rw [hcast]; exact mul_ne_zero h2 hx)
  · rw [if_neg (mt (isQuadraticResidue_iff C.prime_mod_four).1 hy), if_neg hy]
    have h := invertMod_of_ne_zero (p := C.prime) (a := 2) (by exact_mod_cast h2)
    rwa [Int.cast_ofNat] at h

/-- The second square root, for integers that stand for `omega`, the root of the discriminant and the scale. -/
theorem modularSqrt_target {first : Prop} {x : ZMod C.prime} {om mul v : ℤ} (hom : (om : ZMod C.prime) = omega x)
    (hmul : (mul : ZMod C.prime) = scale first x) (hx : Regular x) (hs : IsSquare (disc x)) :
    (∃ t, modularSqrt ((om + if j = 0 ∨ j = 1 then ((root (disc x)).val : ℤ) else C.prime - (root (disc x)).val) * mul)
      C.prime = some t ∧ (if j = 0 ∨ j = 2 then t else C.prime - t) = v) ↔
      IsSquare (target first x j) ∧ v = signed j (root (target first x j)) := by
  have htarget : (((om + if j = 0 ∨ j = 1 then ((root (disc x)).val : ℤ) else C.prime - (root (disc x)).val) * mul : ℤ) :
      ZMod C.prime) = target first x j := by
    rw [Int.cast_mul, Int.cast_add, hom, hmul, target, discRoot]
    by_cases h : j = 0 ∨ j = 1
    · rw [if_pos h, if_neg (by tauto)]
      simp
    · rw [if_neg h, if_pos (by tauto)]
      simp
  have hne : target first x j ≠ 0 := solution_ne_zero hx (discRoot_sq hs j)
  have hsign : ∀ t : ZMod C.prime, (if j = 0 ∨ j = 2 then (t.val : ℤ) else C.prime - t.val) = signed j t := fun t => by
    unfold signed
    by_cases h : j = 0 ∨ j = 2
    · rw [if_pos h, if_neg (by tauto)]
    · rw [if_neg h, if_pos (by tauto)]
  simp only [modularSqrt_eq_some_iff C.prime_mod_four, htarget]
  constructor
  · rintro ⟨t, ⟨⟨-, ht⟩, rfl⟩, rfl⟩
    exact ⟨ht, hsign _⟩
  · rintro ⟨ht, rfl⟩
    exact ⟨_, ⟨⟨hne, ht⟩, rfl⟩, hsign _⟩

/-- **What `calc_v` of the script computes.** It raises no exception: where `omega` is zero it returns before its
inverse is taken. -/
theorem python_calcV_spec (x y : ℤ) (j : ℕ) : ∃ r, Python.calcV C (x, y) j = .ok r ∧ ∀ v, r = some v ↔
    disc (x : ZMod C.prime) ≠ 0 ∧ IsSquare (disc (x : ZMod C.prime)) ∧
      IsSquare (target ((y : ZMod C.prime) ≠ 0 ∧ IsSquare (y : ZMod C.prime)) (x : ZMod C.prime) j) ∧
      v = signed j (root (target ((y : ZMod C.prime) ≠ 0 ∧ IsSquare (y : ZMod C.prime)) (x : ZMod C.prime) j)) := by
  obtain ⟨bInv, hb, hbc⟩ := invertMod_of_ne_zero (p := C.prime) (a := C.b) (by simpa using C.cast_b_ne_zero)
  have hom : (((C.a * bInv * x + 1) % C.prime : ℤ) : ZMod C.prime) = omega (x : ZMod C.prime) := by
    rw [ZMod.intCast_mod]
    push_cast
    rw [hbc]
    simp [Swu.omega]
  set om := (C.a * bInv * x + 1) % (C.prime : ℤ) with homdef
  have hdisc : ((om * om % C.prime - 4 * om : ℤ) : ZMod C.prime) = disc (x : ZMod C.prime) := by
    push_cast [ZMod.intCast_mod]
    rw [hom, disc]
    ring
  by_cases hd : disc (x : ZMod C.prime) ≠ 0 ∧ IsSquare (disc (x : ZMod C.prime))
  · have hreg : Regular (x : ZMod C.prime) := fun h => hd.1 (disc_of_omega_eq_zero h)
    have hsqrt : modularSqrt (om * om % C.prime - 4 * om) C.prime = some ((root (disc (x : ZMod C.prime))).val : ℤ) :=
      (modularSqrt_eq_some_iff C.prime_mod_four).2 (by rw [hdisc]; exact ⟨hd, rfl⟩)
    obtain ⟨mul, hmul, hmulc⟩ := multiply_spec (y := y) hom hreg
    have htarget := fun v => modularSqrt_target (j := j) (v := v) hom hmulc hreg hd.2
    simp only [Python.calcV, hb, ok_bind, ← homdef, hsqrt, hmul]
    cases ht : modularSqrt ((om + if j = 0 ∨ j = 1 then ((root (disc (x : ZMod C.prime))).val : ℤ)
        else C.prime - (root (disc (x : ZMod C.prime))).val) * mul) C.prime with
    | none =>
      refine ⟨none, rfl, fun v => ?_⟩
      have h := htarget v
      rw [ht] at h
      rw [and_iff_right hd.1, and_iff_right hd.2, ← h]
      simp
    | some t =>
      refine ⟨some (if j = 0 ∨ j = 2 then t else C.prime - t), rfl, fun v => ?_⟩
      have h := htarget v
      rw [ht] at h
      rw [and_iff_right hd.1, and_iff_right hd.2, ← h]
      simp
  · have hsqrt : modularSqrt (om * om % C.prime - 4 * om) C.prime = none :=
      modularSqrt_eq_none C.prime_mod_four (by rw [hdisc]; tauto)
    refine ⟨none, ?_, fun v => ?_⟩
    · simp only [Python.calcV, hb, ok_bind, ← homdef, hsqrt]
      rfl
    · simp only [reduceCtorEq, false_iff]
      tauto

theorem python_calcV_of_disc_eq_zero (h : disc (x : ZMod C.prime) = 0) (y : ℤ) (j : ℕ) :
    Python.calcV C (x, y) j = .ok none := by
  obtain ⟨r, hr, hv⟩ := python_calcV_spec (C := C) x y j
  cases r with
  | none => exact hr
  | some v => exact absurd h ((hv v).1 rfl).1

/-- Where neither the discriminant nor the ordinate is zero, the script computes what the C code computes. -/
theorem python_calcV_eq (hd : disc (x : ZMod C.prime) ≠ 0) (hy : (y : ZMod C.prime) ≠ 0) (j : ℕ) :
    Python.calcV C (x, y) j = .ok (calcV C (.affine x y) j) := by
  obtain ⟨r, hr, hv⟩ := python_calcV_spec (C := C) x y j
  rw [hr]
  congr 1
  refine Option.ext fun v => ?_
  rw [hv v, calcV_eq_some_iff, and_iff_right hd]
  simp only [ne_eq, hy, not_false_eq_true, true_and]

end Spec

/-! ## Where the two inverses agree -/

/-- Both find no value, or both find the same field element; the script raises no exception. -/
def Agree (C : CurveParams) (x y : ℤ) (j : ℕ) : Prop :=
  (Python.calcV C (x, y) j = .ok none ∧ Prototype.calcV C (.affine x y) j = none) ∨
    ∃ v : ℤ, (0 ≤ v ∧ v < C.prime) ∧ Python.calcV C (x, y) j = .ok (some v) ∧
      Prototype.calcV C (.affine x y) j = some v

section Agreement

variable {C : CurveParams} {x y : ℤ} {j : ℕ}

/-- At the abscissa `-b / a` only the C code finds a value. -/
theorem not_agree_of_omega_eq_zero (h : omega (x : ZMod C.prime) = 0) : ¬Agree C x y j := by
  have hc : Prototype.calcV C (.affine x y) j = _ := calcV_of_omega_eq_zero y h j
  have hp := python_calcV_of_disc_eq_zero (disc_of_omega_eq_zero h) y j
  rintro (⟨-, hn⟩ | ⟨v, -, hv, -⟩)
  · rw [hc] at hn
    cases hn
  · rw [hp] at hv
    cases hv

section Regular

variable (hx : 0 ≤ x ∧ x < C.prime) (hy : 0 ≤ y ∧ y < C.prime) (hc : C.OnCurve x y) (hreg : Regular (x : ZMod C.prime))
include hx hy hc hreg

/-- Where the discriminant is zero the script finds no value, and the C code finds one if the point has a preimage. -/
theorem agree_iff_of_disc_eq_zero (hd : disc (x : ZMod C.prime) = 0) : Agree C x y j ↔ Unreachable C x y := by
  have hp := python_calcV_of_disc_eq_zero hd y j
  have hagree : Agree C x y j ↔ calcV C (.affine x y) j = none := by
    simp [Agree, hp, Prototype.calcV]
  rw [hagree]
  constructor
  · intro h
    rw [unreachable_iff hx hy hc hreg, hd]
    intro s hs ht
    have hs0 : s = discRoot (x : ZMod C.prime) j := by
      rw [pow_eq_zero_iff two_ne_zero |>.1 hs, discRoot, hd, root_zero]
      simp
    have hsome := calcV_eq_some_iff (C := C) (y := y) (j := j).2
      ⟨by rw [hd]; exact IsSquare.zero, by rw [target, ← hs0]; exact ht, rfl⟩
    rw [h] at hsome
    cases hsome
  · intro hq
    exact calcV_eq_none_of_regular hx hy hc hreg hq j

theorem agree_of_ne_zero (hd : disc (x : ZMod C.prime) ≠ 0) (hy0 : (y : ZMod C.prime) ≠ 0) : Agree C x y j := by
  have hp := python_calcV_eq hd hy0 j
  cases h : calcV C (.affine x y) j with
  | none => exact .inl ⟨by rw [hp, h], h⟩
  | some v => exact .inr ⟨v, (calcF_calcV hx hy hc hreg h).1, by rw [hp, h], h⟩

end Regular

/-! ### Points of order two -/

section Torsion

variable {x s : ZMod C.prime} (hx : Regular x) (hs : s ^ 2 = disc x)
include hx hs

/-- The two scales exchange the squares and the roots of the discriminant. -/
theorem isSquare_scale_iff : IsSquare ((omega x + s) * scale True x) ↔ IsSquare ((omega x - s) * scale False x) := by
  have h2 : (2 : ZMod C.prime) ≠ 0 := Residue.two_ne_zero C.prime_mod_four
  have hω : omega x ≠ 0 := hx
  have hprod : (omega x + s) * scale True x * ((omega x - s) * scale False x) = 1 := by
    have hdisc : s ^ 2 = omega x ^ 2 - 4 * omega x := hs
    simp only [scale, if_true, if_false]
    field_simp
    linear_combination -hdisc
  have hsub : (omega x - s) * scale False x ≠ 0 := by
    intro h
    rw [h, mul_zero] at hprod
    exact zero_ne_one hprod
  rw [← Residue.isSquare_mul_iff (solution_ne_zero hx hs) hsub, hprod]
  exact IsSquare.one

/-- The two scales give different squares at a point of order two: its abscissa is not zero. -/
theorem scale_true_ne_scale_false (hc : C.OnCurve x 0) :
    (omega x + s) * scale True x ≠ (omega x + s) * scale False x := by
  have h2 : (2 : ZMod C.prime) ≠ 0 := Residue.two_ne_zero C.prime_mod_four
  have hω : omega x ≠ 0 := hx
  have ha := C.cast_a_ne_zero
  have hb := C.cast_b_ne_zero
  intro h
  have hscale := mul_left_cancel₀ (Swu.add_ne_zero h2 hx hs) h
  simp only [scale, if_true, if_false, inv_inj] at hscale
  have hone : omega x = 1 := mul_left_cancel₀ h2 (by rw [hscale, mul_one])
  have hx0 : x = 0 := by
    rw [omega, Swu.omega, add_eq_right, mul_eq_zero, or_iff_right (mul_ne_zero ha (inv_ne_zero hb))] at hone
    exact hone
  rw [hx0] at hc
  refine hb ?_
  simpa [CurveParams.OnCurve] using hc.symm

end Torsion

/-- A value with the sign that `j` chooses has one square. -/
theorem signed_root_injective {t t' : ZMod C.prime} (ht : IsSquare t) (ht' : IsSquare t')
    (h : signed j (root t) = signed j (root t')) : t = t' := by
  rw [← root_sq ht, ← root_sq ht', ← cast_signed_sq j, ← cast_signed_sq j (root t'), h]

/-- At a point of order two the C code solves the quadratic of the first candidate. -/
theorem calcV_of_ordinate_eq_zero (x : ℤ) (j : ℕ) (v : ℤ) : calcV C (.affine x 0) j = some v ↔
    IsSquare (disc (x : ZMod C.prime)) ∧ IsSquare (target True (x : ZMod C.prime) j) ∧
      v = signed j (root (target True (x : ZMod C.prime) j)) := by
  have hfirst : IsSquare ((0 : ℤ) : ZMod C.prime) ↔ True := by simp
  rw [calcV_eq_some_iff]
  simp only [hfirst]

/-- At a point of order two the script solves the quadratic of the second candidate. -/
theorem python_calcV_of_ordinate_eq_zero (hd : disc (x : ZMod C.prime) ≠ 0) (j : ℕ) :
    ∃ r, Python.calcV C (x, 0) j = .ok r ∧ ∀ v, r = some v ↔
      IsSquare (disc (x : ZMod C.prime)) ∧ IsSquare (target False (x : ZMod C.prime) j) ∧
        v = signed j (root (target False (x : ZMod C.prime) j)) := by
  obtain ⟨r, hr, hrv⟩ := python_calcV_spec (C := C) x 0 j
  simp only [Int.cast_zero, ne_eq, not_true_eq_false, false_and, hd, not_false_eq_true, true_and] at hrv
  exact ⟨r, hr, hrv⟩

/-- At a point of order two the two never find the same value, and one of them finds a value for each `j` if the point has
a preimage. -/
theorem agree_iff_of_ordinate_eq_zero (hx : 0 ≤ x ∧ x < C.prime) (hc : C.OnCurve x 0) (hreg : Regular (x : ZMod C.prime))
    (hd : disc (x : ZMod C.prime) ≠ 0) : Agree C x 0 j ↔ Unreachable C x 0 := by
  obtain ⟨r, hr, hrv⟩ := python_calcV_of_ordinate_eq_zero hd j
  have hcv := calcV_of_ordinate_eq_zero (C := C) x j
  have hagree : Agree C x 0 j ↔ r = none ∧ calcV C (.affine x 0) j = none := by
    unfold Agree
    rw [hr]
    constructor
    · rintro (⟨hpn, hcn⟩ | ⟨v, -, hpv, hcn⟩)
      · exact ⟨Except.ok.inj hpn, hcn⟩
      · obtain ⟨hs, ht, hv⟩ := (hrv v).1 (Except.ok.inj hpv)
        obtain ⟨-, ht', hv'⟩ := (hcv v).1 hcn
        exact absurd (signed_root_injective ht' ht (hv'.symm.trans hv))
          (scale_true_ne_scale_false hreg (discRoot_sq hs j) hc)
    · rintro ⟨hpn, hcn⟩
      exact .inl ⟨by rw [hpn], hcn⟩
  have hfirst : IsSquare ((0 : ℤ) : ZMod C.prime) ↔ True := by simp
  rw [hagree, unreachable_iff hx ⟨le_rfl, cast_pos⟩ (by simpa using hc) hreg, Option.eq_none_iff_forall_ne_some,
    Option.eq_none_iff_forall_ne_some]
  simp only [hfirst, ne_eq, hrv, hcv]
  constructor
  · rintro ⟨hpn, hcn⟩ s hs hsq
    have hdsq : IsSquare (disc (x : ZMod C.prime)) := ⟨s, by rw [← hs, pow_two]⟩
    -- the root that `j` chooses is `s`, and the C code finds a value, or `-s`, and the script does
    rcases sq_eq_sq_iff_eq_or_eq_neg.1 (hs.trans (discRoot_sq hdsq j).symm) with h | h
    · exact hcn _ ⟨hdsq, by rwa [target, ← h], rfl⟩
    · rw [isSquare_scale_iff hreg hs, h, sub_neg_eq_add] at hsq
      exact hpn _ ⟨hdsq, hsq, rfl⟩
  · intro h
    refine ⟨?_, ?_⟩
    · rintro v ⟨hs, ht, -⟩
      have hneg : (-discRoot (x : ZMod C.prime) j) ^ 2 = disc (x : ZMod C.prime) := by rw [neg_sq, discRoot_sq hs j]
      refine h _ hneg ?_
      rwa [isSquare_scale_iff hreg hneg, sub_neg_eq_add]
    · rintro v ⟨hs, ht, -⟩
      exact h _ (discRoot_sq hs j) ht

theorem ordinate_ne_zero {y : ℤ} (hy : 0 ≤ y ∧ y < C.prime) (h : y ≠ 0) : (y : ZMod C.prime) ≠ 0 := fun h0 =>
  h (eq_of_cast_eq hy.1 hy.2 le_rfl cast_pos (by rw [h0, Int.cast_zero]))

/-- **Where the two inverses agree.** They differ at the abscissa `-b / a`, and at the points of the image where the
discriminant or the ordinate is zero. -/
theorem calcV_agrees_iff (C : CurveParams) {x y : ℤ} (hx : 0 ≤ x ∧ x < C.prime) (hy : 0 ≤ y ∧ y < C.prime)
    (hc : C.OnCurve x y) (j : ℕ) :
    Agree C x y j ↔ omega (x : ZMod C.prime) ≠ 0 ∧
      (omega (x : ZMod C.prime) = 4 ∨ y = 0 → Unreachable C x y) := by
  by_cases hreg : omega (x : ZMod C.prime) ≠ 0
  · rw [and_iff_right hreg]
    by_cases h4 : omega (x : ZMod C.prime) = 4
    · rw [agree_iff_of_disc_eq_zero hx hy hc hreg ((disc_eq_zero_iff hreg).2 h4)]
      simp [h4]
    · have hd : disc (x : ZMod C.prime) ≠ 0 := mt (disc_eq_zero_iff hreg).1 h4
      by_cases h0 : y = 0
      · subst h0
        rw [agree_iff_of_ordinate_eq_zero hx (by simpa using hc) hreg hd]
        simp
      · have hy0 : (y : ZMod C.prime) ≠ 0 := ordinate_ne_zero hy h0
        simp [agree_of_ne_zero hx hy hc hreg hd hy0, h4, h0]
  · have h0 : omega (x : ZMod C.prime) = 0 := not_not.1 hreg
    simp [not_agree_of_omega_eq_zero h0, h0]

/-- The point `(14, 5)` of the small curve is ordinary. -/
theorem calcV_agrees_small : Agree Small.params.toCurveParams 14 5 0 := by
  have hω : omega ((14 : ℤ) : ZMod Small.params.prime) ≠ 0 ∧ omega ((14 : ℤ) : ZMod Small.params.prime) ≠ 4 := by
    decide +kernel
  refine (calcV_agrees_iff Small.params.toCurveParams (by decide) (by decide) (by decide +kernel) 0).2 ⟨hω.1, ?_⟩
  rintro (h | h)
  · exact absurd h hω.2
  · exact absurd h (by decide)

/-- The exceptional curve has points of all three kinds: at `(6, 3)` `omega` is zero, at `(5, 10)` it is 4, and `(2, 0)` has
order two. -/
theorem calcV_disagrees :
    (Python.calcV Small.exceptional.toCurveParams (6, 3) 0 = .ok none ∧
      Prototype.calcV Small.exceptional.toCurveParams (.affine 6 3) 0 = some 0) ∧
    (Python.calcV Small.exceptional.toCurveParams (5, 10) 0 = .ok none ∧
      Prototype.calcV Small.exceptional.toCurveParams (.affine 5 10) 0 = some 18) ∧
    (Python.calcV Small.exceptional.toCurveParams (2, 0) 0 = .ok (some 16) ∧
      Prototype.calcV Small.exceptional.toCurveParams (.affine 2 0) 0 = some 4) := by
  decide +kernel

end Agreement

end DecoyAuth.Encode
