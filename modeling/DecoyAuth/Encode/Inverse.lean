import DecoyAuth.Encode.Map

/-!
# The inverse of the map

`calc_v` solves one of two quadratics in `v ^ 2`, the one that belongs to the ordinate. Its value for `j` is determined by
the root of the discriminant and by the root of the solution, each with a sign that `j` chooses (`calcV_eq_some_iff`). At a
point whose abscissa is not `-b / a` the four values are exactly the preimages of the point (`exists_calcV_iff`), each
found by one `j`, or by two where the discriminant is zero (`card_calcV`).
-/

namespace DecoyAuth.Encode

variable {C : CurveParams} {G : EcParams}

abbrev omega (x : ZMod C.prime) : ZMod C.prime := Swu.omega (C.a : ZMod C.prime) C.b x

/-- The abscissae that `calc_v` can invert: all but the root of `omega`, which is `-b / a`. -/
def Regular (x : ZMod C.prime) : Prop := Swu.omega (C.a : ZMod C.prime) C.b x ≠ 0

theorem regular_iff {x : ZMod C.prime} : Regular x ↔ x ≠ -(C.b : ZMod C.prime) * (C.a : ZMod C.prime)⁻¹ := by
  have ha := C.cast_a_ne_zero
  have hb := C.cast_b_ne_zero
  rw [Regular, Swu.omega, not_iff_not]
  constructor
  · intro h
    field_simp at h ⊢
    linear_combination h
  · rintro rfl
    field_simp
    ring

/-! ## The preimages of a point -/

/-- The discriminant of both quadratics. -/
def disc (x : ZMod C.prime) : ZMod C.prime := omega x ^ 2 - 4 * omega x

/-- The discriminant is zero where `omega` is 4. -/
theorem disc_eq_zero_iff {x : ZMod C.prime} (hx : Regular x) : disc x = 0 ↔ omega x = 4 := by
  have h : disc x = omega x * (omega x - 4) := by
    unfold disc
    ring
  rw [h, mul_eq_zero, or_iff_right hx, sub_eq_zero]

open Classical in
/-- What the numerator is multiplied with, for the first candidate and for the second one. -/
noncomputable def scale (first : Prop) (x : ZMod C.prime) : ZMod C.prime := if first then (2 * omega x)⁻¹ else 2⁻¹

theorem scale_ne_zero {first : Prop} {x : ZMod C.prime} (hx : Regular x) : scale first x ≠ 0 := by
  have h2 : (2 : ZMod C.prime) ≠ 0 := Residue.two_ne_zero C.prime_mod_four
  unfold scale
  split
  · exact inv_ne_zero (mul_ne_zero h2 hx)
  · exact inv_ne_zero h2

theorem cand0_eq_iff {x v : ZMod C.prime} :
    ¬Degenerate v ∧ cand0 v = x ↔ omega x * ((v ^ 2) ^ 2 - v ^ 2) + 1 = 0 := by
  have h4 : v ^ 4 = (v ^ 2) ^ 2 := by ring
  by_cases hd : Degenerate v
  · refine iff_of_false (fun h => h.1 hd) fun h => ?_
    rcases hd with h0 | h1
    · simp [h0] at h
    · simp [h1] at h
  · rw [and_iff_right hd, ← h4]
    exact Swu.x0_eq_iff C.cast_a_ne_zero C.cast_b_ne_zero (not_or.1 hd).1 (not_or.1 hd).2

theorem cand1_eq_iff {x v : ZMod C.prime} (hx : Regular x) :
    ¬Degenerate v ∧ cand1 v = x ↔ (v ^ 2) ^ 2 - omega x * v ^ 2 + omega x = 0 := by
  have h4 : v ^ 4 = (v ^ 2) ^ 2 := by ring
  by_cases hd : Degenerate v
  · refine iff_of_false (fun h => h.1 hd) fun h => ?_
    rcases hd with h0 | h1
    · exact hx (by simpa [h0] using h)
    · simp [h1] at h
  · rw [and_iff_right hd, ← h4]
    exact Swu.x1_eq_iff C.cast_a_ne_zero C.cast_b_ne_zero (not_or.1 hd).1 (not_or.1 hd).2

/-- The squares of the preimages of a point, by the candidate that reaches it. -/
theorem candidate_eq_iff {x v : ZMod C.prime} (hx : Regular x) (first : Prop) :
    ¬Degenerate v ∧ (first ∧ cand0 v = x ∨ ¬first ∧ cand1 v = x) ↔
      ∃ s, s ^ 2 = disc x ∧ v ^ 2 = (omega x + s) * scale first x := by
  have h2 : (2 : ZMod C.prime) ≠ 0 := Residue.two_ne_zero C.prime_mod_four
  unfold disc scale
  by_cases h : first
  · simp only [h, true_and, not_true_eq_false, false_and, or_false, if_true]
    rw [cand0_eq_iff, Swu.quadratic_x0_iff h2 hx]
  · simp only [h, false_and, not_false_eq_true, true_and, false_or, if_false]
    rw [cand1_eq_iff hx, Swu.quadratic_x1_iff h2]

/-- **The preimages of a point** with a regular abscissa. -/
theorem calcF_eq_iff_exists {v x y : ℤ} (hv : 0 ≤ v ∧ v < C.prime) (hx : 0 ≤ x ∧ x < C.prime)
    (hy : 0 ≤ y ∧ y < C.prime) (hc : C.OnCurve x y) (hreg : Regular (x : ZMod C.prime)) :
    calcF C v = some (.affine x y) ↔ ∃ s, s ^ 2 = disc (x : ZMod C.prime) ∧
      (v : ZMod C.prime) ^ 2 = (omega (x : ZMod C.prime) + s) * scale (IsSquare (y : ZMod C.prime)) x := by
  rw [calcF_eq_affine_iff hv hx hy hc, candidate_eq_iff hreg]

/-! ## What `calc_v` computes -/

/-- The root of the discriminant with the sign that `j` chooses. -/
def discRoot (x : ZMod C.prime) (j : ℕ) : ZMod C.prime :=
  if j ≠ 0 ∧ j ≠ 1 then -root (disc x) else root (disc x)

theorem discRoot_eq_iff {x s : ZMod C.prime} {j : ℕ} :
    discRoot x j = s ↔ if j ≠ 0 ∧ j ≠ 1 then -root (disc x) = s else root (disc x) = s := by
  unfold discRoot
  split <;> rfl

/-- Each sign of the root of the discriminant that fits is found by one `j`, the one with the sign of the value. -/
theorem card_signs (plus minus positive : Prop) [Decidable plus] [Decidable minus] [Decidable positive] :
    ((Finset.range 4).filter fun j =>
      (if j ≠ 0 ∧ j ≠ 1 then minus else plus) ∧ (positive ↔ ¬(j ≠ 0 ∧ j ≠ 2))).card =
      (if plus then 1 else 0) + if minus then 1 else 0 := by
  simp only [Finset.card_filter, Finset.sum_range_succ, Finset.sum_range_zero]
  by_cases hp : positive <;> simp [hp]

/-- The square of the value for `j`. -/
noncomputable def target (first : Prop) (x : ZMod C.prime) (j : ℕ) : ZMod C.prime :=
  (omega x + discRoot x j) * scale first x

/-- The root of the square with the sign that `j` chooses, as an integer. -/
def signed (j : ℕ) (t : ZMod C.prime) : ℤ := if j ≠ 0 ∧ j ≠ 2 then C.prime - t.val else t.val

theorem discRoot_sq {x : ZMod C.prime} (h : IsSquare (disc x)) (j : ℕ) : discRoot x j ^ 2 = disc x := by
  unfold discRoot
  split
  · rw [neg_sq, root_sq h]
  · exact root_sq h

theorem cast_signed_sq (j : ℕ) (t : ZMod C.prime) : ((signed j t : ℤ) : ZMod C.prime) ^ 2 = t ^ 2 := by
  unfold signed
  split <;> simp

theorem signed_nonneg (j : ℕ) (t : ZMod C.prime) : 0 ≤ signed j t ∧ signed j t ≤ C.prime := by
  have h := t.val_lt
  unfold signed
  split <;> omega

theorem bnModSqrt_eq_some_iff {z r : ℤ} : bnModSqrt z C.prime = some r ↔
    IsSquare (z : ZMod C.prime) ∧ r = ((root (z : ZMod C.prime)).val : ℤ) := by
  constructor
  · intro h
    obtain ⟨h0, hp, hsq, hs⟩ := bnModSqrt_some h
    refine ⟨⟨r, by rw [← hsq, pow_two]⟩, ?_⟩
    rw [root, ← Residue.eq_root C.prime_mod_four hs hsq, ZMod.val_intCast, Int.emod_eq_of_lt h0 hp]
  · rintro ⟨hs, rfl⟩
    have hlt := (root (z : ZMod C.prime)).val_lt
    refine bnModSqrt_eq_some C.prime_mod_four ?_ (Int.natCast_nonneg _) (by exact_mod_cast hlt) ?_
    · rw [Int.cast_natCast, ZMod.natCast_zmod_val]
      exact Residue.isSquare_root hs
    · rw [Int.cast_natCast, ZMod.natCast_zmod_val, root_sq hs]

/-- The sign of the root of the discriminant, on integers. -/
theorem cast_sign (t : ZMod C.prime) (c : Prop) [Decidable c] :
    ((if c then (C.prime : ℤ) - t.val else (t.val : ℤ) : ℤ) : ZMod C.prime) = if c then -t else t := by
  split <;> simp

/-- The two square roots of `calc_v`, for integers that stand for `omega` and for the scale. -/
theorem calcV_roots_iff {first : Prop} {x : ZMod C.prime} {om mul v : ℤ} {j : ℕ} (hom : (om : ZMod C.prime) = omega x)
    (hmul : (mul : ZMod C.prime) = scale first x) :
    (∃ s, bnModSqrt (bnModSqr om C.prime - bnModMul 4 om C.prime) C.prime = some s ∧
      ∃ t, bnModSqrt (bnModMul (bnModAdd om (if j ≠ 0 ∧ j ≠ 1 then C.prime - s else s) C.prime) mul C.prime) C.prime =
        some t ∧ (if j ≠ 0 ∧ j ≠ 2 then (C.prime : ℤ) - t else t) = v) ↔
      IsSquare (disc x) ∧ IsSquare (target first x j) ∧ v = signed j (root (target first x j)) := by
  have hdisc : ((bnModSqr om C.prime - bnModMul 4 om C.prime : ℤ) : ZMod C.prime) = disc x := by
    rw [Int.cast_sub, cast_bnModSqr, cast_bnModMul, hom, disc]
    push_cast
    ring
  have htarget : ((bnModMul (bnModAdd om (if j ≠ 0 ∧ j ≠ 1 then C.prime - ((root (disc x)).val : ℤ)
      else (root (disc x)).val) C.prime) mul C.prime : ℤ) : ZMod C.prime) = target first x j := by
    rw [cast_bnModMul, cast_bnModAdd, cast_sign, hom, hmul, target, discRoot]
  simp only [bnModSqrt_eq_some_iff, hdisc]
  constructor
  · rintro ⟨s, ⟨hs, rfl⟩, t, ⟨ht, rfl⟩, rfl⟩
    rw [htarget] at ht ⊢
    exact ⟨hs, ht, rfl⟩
  · rintro ⟨hs, ht, rfl⟩
    refine ⟨_, ⟨hs, rfl⟩, _, ⟨by rwa [htarget], rfl⟩, ?_⟩
    rw [htarget, signed]

/-- **What `calc_v` computes.** -/
theorem calcV_eq_some_iff {x y v : ℤ} {j : ℕ} : calcV C (.affine x y) j = some v ↔
    IsSquare (disc (x : ZMod C.prime)) ∧ IsSquare (target (IsSquare (y : ZMod C.prime)) (x : ZMod C.prime) j) ∧
      v = signed j (root (target (IsSquare (y : ZMod C.prime)) (x : ZMod C.prime) j)) := by
  have homega : ((bnModAdd (bnModMul (bnModMul C.a ((bnModInverse C.b C.prime).getD 0) C.prime) x C.prime) 1
      C.prime : ℤ) : ZMod C.prime) = omega (x : ZMod C.prime) := by
    simp [Swu.omega, cast_bnModInverse_getD]
  simp only [calcV, EcPoint.getAffine, Option.getD_some, Option.bind_eq_bind, Option.bind_eq_some_iff,
    Option.pure_def, Option.some.injEq]
  refine calcV_roots_iff homega ?_
  unfold scale
  cases hy : bnModSqrt y C.prime with
  | none =>
    rw [if_neg ((bnModSqrt_eq_none C.prime_mod_four).1 hy)]
    simp [cast_bnModInverse_getD]
  | some r =>
    rw [if_pos (bnModSqrt_eq_some_iff.1 hy).1]
    simp only [cast_bnModInverse_getD, cast_bnModMul, homega, Int.cast_ofNat]

/-- What `calc_v` returns is a root of the quadratic that belongs to the ordinate. -/
theorem calcV_some {x y v : ℤ} {j : ℕ} (h : calcV C (.affine x y) j = some v) :
    (∃ s, s ^ 2 = disc (x : ZMod C.prime) ∧
      (v : ZMod C.prime) ^ 2 = (omega (x : ZMod C.prime) + s) * scale (IsSquare (y : ZMod C.prime)) x) ∧
      0 ≤ v ∧ v ≤ C.prime := by
  obtain ⟨hs, ht, rfl⟩ := calcV_eq_some_iff.1 h
  refine ⟨⟨discRoot x j, discRoot_sq hs j, ?_⟩, signed_nonneg j _⟩
  rw [cast_signed_sq, root_sq ht, target]

/-! ## The four values -/

section Signs

variable {t : ZMod C.prime}

theorem root_eq_neg_iff (h : IsSquare t) : root t = -root t ↔ t = 0 := by
  have h2 : (2 : ZMod C.prime) ≠ 0 := Residue.two_ne_zero C.prime_mod_four
  rw [eq_neg_iff_add_eq_zero, ← two_mul, mul_eq_zero, or_iff_right h2, ← pow_eq_zero_iff (n := 2) (by decide), root_sq h]

/-- A root of `t` has the sign that `j` chooses. -/
theorem eq_signed_iff {v : ℤ} (hv : 0 ≤ v ∧ v < C.prime) (ht : t ≠ 0) (h : (v : ZMod C.prime) ^ 2 = t) (j : ℕ) :
    v = signed j (root t) ↔ ((v : ZMod C.prime) = root t ↔ ¬(j ≠ 0 ∧ j ≠ 2)) := by
  have hs : IsSquare t := ⟨v, by rw [← h, pow_two]⟩
  have hroot : root t ≠ 0 := fun h0 => ht (by rw [← root_sq hs, h0, zero_pow two_ne_zero])
  have hlt := (root t).val_lt
  have hpos : 0 < (root t).val := Nat.pos_of_ne_zero fun h0 => hroot ((ZMod.val_eq_zero _).1 h0)
  have hneg : root t ≠ -root t := mt (root_eq_neg_iff hs).1 ht
  have hval : ∀ z : ℤ, 0 ≤ z → z < C.prime → (v = z ↔ (v : ZMod C.prime) = z) := fun z h0 hp =>
    ⟨congrArg _, eq_of_cast_eq hv.1 hv.2 h0 hp⟩
  have hcases : (v : ZMod C.prime) = root t ∨ (v : ZMod C.prime) = -root t :=
    sq_eq_sq_iff_eq_or_eq_neg.1 (h.trans (root_sq hs).symm)
  unfold signed
  by_cases hj : j ≠ 0 ∧ j ≠ 2
  · have hcast : (((C.prime : ℤ) - (root t).val : ℤ) : ZMod C.prime) = -root t := by simp
    rw [if_pos hj, hval _ (by omega) (by omega), hcast, iff_false_right (not_not.2 hj)]
    exact ⟨fun he h' => hneg (h'.symm.trans he), fun h' => hcases.resolve_left h'⟩
  · have hcast : (((root t).val : ℤ) : ZMod C.prime) = root t := by simp
    rw [if_neg hj, hval _ (by omega) (by omega), hcast, iff_true_right hj]

end Signs

section Values

variable {first : Prop} {x s : ZMod C.prime} (hx : Regular x) (hs : s ^ 2 = disc x)
include hx hs

theorem solution_ne_zero : (omega x + s) * scale first x ≠ 0 :=
  mul_ne_zero (Swu.add_ne_zero (Residue.two_ne_zero C.prime_mod_four) hx hs) (scale_ne_zero hx)

/-- Which `j` finds a given solution: both signs must be those of the solution. -/
theorem value_iff {v : ℤ} (hv : 0 ≤ v ∧ v < C.prime) (hsq : (v : ZMod C.prime) ^ 2 = (omega x + s) * scale first x) (j : ℕ) :
    (IsSquare (disc x) ∧ IsSquare (target first x j) ∧ v = signed j (root (target first x j))) ↔
      discRoot x j = s ∧ ((v : ZMod C.prime) = root ((omega x + s) * scale first x) ↔ ¬(j ≠ 0 ∧ j ≠ 2)) := by
  rw [← eq_signed_iff hv (solution_ne_zero hx hs) hsq]
  constructor
  · rintro ⟨-, ht, hvj⟩
    have hsq' : (v : ZMod C.prime) ^ 2 = (omega x + discRoot x j) * scale first x := by
      rw [hvj, cast_signed_sq, root_sq ht, target]
    have hroot : discRoot x j = s := add_left_cancel (mul_right_cancel₀ (scale_ne_zero hx) (hsq'.symm.trans hsq))
    refine ⟨hroot, ?_⟩
    rwa [target, hroot] at hvj
  · rintro ⟨hroot, hvj⟩
    rw [target, hroot]
    exact ⟨⟨s, by rw [← hs, pow_two]⟩, ⟨v, by rw [← hsq, pow_two]⟩, hvj⟩

omit hx in
/-- The sign of the root of the discriminant that belongs to `s`. -/
theorem discRoot_cases : (discRoot x 0 = s ∧ discRoot x 1 = s) ∨ (discRoot x 2 = s ∧ discRoot x 3 = s) := by
  have hd : IsSquare (disc x) := ⟨s, by rw [← hs, pow_two]⟩
  rcases sq_eq_sq_iff_eq_or_eq_neg.1 (hs.trans (root_sq hd).symm) with h | h
  · exact .inl ⟨h.symm, h.symm⟩
  · exact .inr ⟨h.symm, h.symm⟩

/-- Both signs belong to `s` where the discriminant is zero. -/
theorem both_roots_iff : (root (disc x) = s ∧ -root (disc x) = s) ↔ omega x = 4 := by
  have hd : IsSquare (disc x) := ⟨s, by rw [← hs, pow_two]⟩
  rw [← disc_eq_zero_iff hx, ← root_eq_neg_iff hd]
  rcases discRoot_cases hs with ⟨h, -⟩ | ⟨h, -⟩
  · have h : root (disc x) = s := h
    rw [← h]
    exact ⟨fun h => h.2.symm, fun h => ⟨rfl, h.symm⟩⟩
  · have h : -root (disc x) = s := h
    rw [← h]
    exact ⟨fun h => h.1, fun h => ⟨h, rfl⟩⟩

theorem exists_value {v : ℤ} (hv : 0 ≤ v ∧ v < C.prime)
    (hsq : (v : ZMod C.prime) ^ 2 = (omega x + s) * scale first x) :
    ∃ j < 4, IsSquare (disc x) ∧ IsSquare (target first x j) ∧ v = signed j (root (target first x j)) := by
  simp only [value_iff hx hs hv hsq]
  by_cases hroot : (v : ZMod C.prime) = root ((omega x + s) * scale first x)
  · rcases discRoot_cases hs with ⟨h, -⟩ | ⟨h, -⟩
    · exact ⟨0, by decide, h, by simpa using hroot⟩
    · exact ⟨2, by decide, h, by simpa using hroot⟩
  · rcases discRoot_cases hs with ⟨-, h⟩ | ⟨-, h⟩
    · exact ⟨1, by decide, h, by simpa using hroot⟩
    · exact ⟨3, by decide, h, by simpa using hroot⟩

end Values

section Enumeration

variable {x y v : ℤ} (hv : 0 ≤ v ∧ v < C.prime) (hx : 0 ≤ x ∧ x < C.prime) (hy : 0 ≤ y ∧ y < C.prime)
  (hc : C.OnCurve x y) (hreg : Regular (x : ZMod C.prime))
include hv hx hy hc hreg

/-- **The values of `calc_v` are the preimages.** -/
theorem exists_calcV_iff : (∃ j < 4, calcV C (.affine x y) j = some v) ↔ calcF C v = some (.affine x y) := by
  rw [calcF_eq_iff_exists hv hx hy hc hreg]
  constructor
  · rintro ⟨j, -, h⟩
    exact (calcV_some h).1
  · rintro ⟨s, hs, hsq⟩
    simp only [calcV_eq_some_iff]
    exact exists_value hreg hs hv hsq

/-- **How many `j` find a preimage.** -/
theorem card_calcV (h : calcF C v = some (.affine x y)) :
    ((Finset.range 4).filter fun j => calcV C (.affine x y) j = some v).card =
      if omega (x : ZMod C.prime) = 4 then 2 else 1 := by
  obtain ⟨s, hs, hsq⟩ := (calcF_eq_iff_exists hv hx hy hc hreg).1 h
  simp only [calcV_eq_some_iff, value_iff hreg hs hv hsq, discRoot_eq_iff]
  rw [card_signs]
  -- one sign of the root of the discriminant fits, and both do where the discriminant is zero
  have hone : root (disc (x : ZMod C.prime)) = s ∨ -root (disc (x : ZMod C.prime)) = s :=
    (discRoot_cases hs).imp And.left And.left
  by_cases h4 : omega (x : ZMod C.prime) = 4
  · obtain ⟨hplus, hminus⟩ := (both_roots_iff hreg hs).2 h4
    rw [if_pos hplus, if_pos hminus, if_pos h4]
  · have hnot := mt (both_roots_iff hreg hs).1 h4
    rw [if_neg h4]
    rcases hone with hplus | hminus
    · rw [if_pos hplus, if_neg fun hminus => hnot ⟨hplus, hminus⟩]
    · rw [if_pos hminus, if_neg fun hplus => hnot ⟨hplus, hminus⟩]

end Enumeration

section Soundness

variable {x y v : ℤ} {j : ℕ}

/-- What `calc_v` returns at a regular abscissa is a field element, and a preimage of the point. -/
theorem calcF_calcV (hx : 0 ≤ x ∧ x < C.prime) (hy : 0 ≤ y ∧ y < C.prime) (hc : C.OnCurve x y)
    (hreg : Regular (x : ZMod C.prime)) (h : calcV C (.affine x y) j = some v) :
    (0 ≤ v ∧ v < C.prime) ∧ calcF C v = some (.affine x y) := by
  obtain ⟨⟨s, hs, hsq⟩, h0, hle⟩ := calcV_some h
  have hne : (v : ZMod C.prime) ≠ 0 := by
    intro h0
    rw [h0, zero_pow two_ne_zero] at hsq
    exact solution_ne_zero hreg hs hsq.symm
  have hv : 0 ≤ v ∧ v < C.prime := by
    refine ⟨h0, lt_of_le_of_ne hle ?_⟩
    rintro rfl
    exact hne (by simp)
  exact ⟨hv, (calcF_eq_iff_exists hv hx hy hc hreg).2 ⟨s, hs, hsq⟩⟩

/-- **`calc_v` inverts the map** of the group. -/
theorem swu_calcV (hP : G.Valid (.affine x y)) (hx : Regular (x : ZMod G.prime))
    (h : calcV G.toCurveParams (.affine x y) j = some v) :
    (0 ≤ v ∧ v < G.prime) ∧ ¬Degenerate (v : ZMod G.prime) ∧ swu G v = G.toPoint (.affine x y) := by
  obtain ⟨hc, hxr, hyr⟩ := EcParams.valid_affine.1 hP
  obtain ⟨hv, hf⟩ := calcF_calcV hxr hyr hc hx h
  refine ⟨hv, ((calcF_eq_affine_iff hv hxr hyr hc).1 hf).1, ?_⟩
  rw [calcF_eq hv.1 hv.2, Option.some.injEq] at hf
  rw [← hf, EcParams.toPoint_ofPoint]

end Soundness

end DecoyAuth.Encode
