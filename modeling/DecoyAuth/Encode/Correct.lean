import DecoyAuth.Encode.Inverse

/-!
# The encoding of points is correct

`calc_v` inverts the map (`swu_calcV`), so decoding inverts encoding on a curve without a point at `-b / a`
(`valuesToPoint_pointToValues`). Decoding never fails, but the two images can cancel, and `swu_add_eq_zero_iff` says when.
-/

namespace DecoyAuth.Encode

variable {C : CurveParams} {G : EcParams}

/-! ## Encoding and decoding -/

/-- No affine point of the group has the abscissa `-b / a`. -/
def EveryPointRegular (G : EcParams) : Prop := ∀ x y : ZMod G.prime, G.OnCurve x y → Regular x

theorem generateRandomBn_range {d : Option ℕ} {u : ℤ} (h : generateRandomBn C d = some u) : 0 ≤ u ∧ u < C.prime := by
  have hp := C.prime_prime
  obtain ⟨n, -, rfl⟩ := Option.map_eq_some_iff.1 h
  have hlt := Nat.mod_lt n hp.pos
  have h1 := hp.one_lt
  split <;> omega

/-- What `calc_v` returns for the difference of a point and the image of `u`. -/
theorem calcV_diff (hG : EveryPointRegular G) {P : EcPoint} {u v : ℤ} {j : ℕ}
    (hinf : G.pointAdd P (G.pointInvert (G.ofPoint (swu G u))) ≠ .infinity)
    (hv : calcV G.toCurveParams (G.pointAdd P (G.pointInvert (G.ofPoint (swu G u)))) j = some v) :
    (0 ≤ v ∧ v < G.prime) ∧ ¬Degenerate (v : ZMod G.prime) ∧ swu G u + swu G v = G.toPoint P := by
  -- the difference is an affine point of the group, which `calc_v` inverts
  have hvalid := EcParams.valid_pointAdd (G := G) P (G.pointInvert (G.ofPoint (swu G u)))
  have hsum : G.toPoint (G.pointAdd P (G.pointInvert (G.ofPoint (swu G u)))) = G.toPoint P - swu G u := by
    simp [sub_eq_add_neg]
  generalize G.pointAdd P (G.pointInvert (G.ofPoint (swu G u))) = diff at hvalid hsum hinf hv
  cases diff with
  | infinity => exact absurd rfl hinf
  | affine x y =>
    obtain ⟨hc, -, -⟩ := EcParams.valid_affine.1 hvalid
    obtain ⟨hrange, hdeg, hswu⟩ := swu_calcV hvalid (hG _ _ hc) hv
    refine ⟨hrange, hdeg, ?_⟩
    rw [hswu, hsum, add_sub_cancel]

theorem encodeRound_some (hG : EveryPointRegular G) {P : EcPoint} {d : Draw} {u v : ℤ}
    (h : encodeRound G P d = some (some (u, v))) :
    (0 ≤ u ∧ u < G.prime) ∧ (0 ≤ v ∧ v < G.prime) ∧ swu G u + swu G v = G.toPoint P := by
  simp only [encodeRound, Option.bind_eq_bind, Option.bind_eq_some_iff, Option.pure_def] at h
  obtain ⟨u', hu, -, -, h⟩ := h
  have hur := generateRandomBn_range hu
  rw [calcF_eq hur.1 hur.2] at h
  simp only [Option.bind_eq_some_iff, Option.guard_eq_some', Bool.not_eq_true', EcPoint.isAtInfinity,
    decide_eq_false_iff_not] at h
  obtain ⟨-, hinf, h⟩ := h
  cases hj : generateJ d.j with
  | none => rw [hj] at h; cases h
  | some j =>
    simp only [hj, Option.bind_eq_some_iff, Option.some.injEq, Prod.mk.injEq] at h
    obtain ⟨v', hv, rfl, rfl⟩ := h
    obtain ⟨hvr, -, hsum⟩ := calcV_diff hG hinf hv
    exact ⟨hur, hvr, hsum⟩

theorem encodeRounds_some (hG : EveryPointRegular G) {P : EcPoint} {ds : ℕ → Draw} {u v : ℤ} : ∀ (left i : ℕ),
    encodeRounds G P ds left i = some (u, v) →
      (0 ≤ u ∧ u < G.prime) ∧ (0 ≤ v ∧ v < G.prime) ∧ swu G u + swu G v = G.toPoint P
  | 0, _, h => by cases h
  | left + 1, i, h => by
    unfold encodeRounds at h
    split at h
    · next hr => exact encodeRound_some hG (h ▸ hr)
    · exact encodeRounds_some hG left (i + 1) h

/-- **Decoding inverts encoding**, whatever was drawn. -/
theorem pointToValues_some (hG : EveryPointRegular G) {P : EcPoint} {ds : ℕ → Draw} {u v : ℤ}
    (h : pointToValues G P ds = some (u, v)) :
    (0 ≤ u ∧ u < G.prime) ∧ (0 ≤ v ∧ v < G.prime) ∧ swu G u + swu G v = G.toPoint P :=
  encodeRounds_some hG 1000 0 h

theorem valuesToPoint_pointToValues (hG : EveryPointRegular G) {P : EcPoint} (hP : G.Valid P) {ds : ℕ → Draw} {u v : ℤ}
    (h : pointToValues G P ds = some (u, v)) : valuesToPoint G u v = some P := by
  obtain ⟨hu, hv, hsum⟩ := pointToValues_some hG h
  rw [valuesToPoint_eq hu hv, hsum, hP]

/-! ## When the decoded point is infinity -/

section Cancel

open Classical

/-- The argument is mapped through the first candidate. -/
def First (u : ZMod G.prime) : Prop := IsSquare (rhs (cand0 u))

noncomputable def abscissa (u : ZMod G.prime) : ZMod G.prime := if First u then cand0 u else cand1 u

/-- Two arguments whose images cancel: both go to infinity, or both go to one abscissa through different candidates
(or through the same one, to a point of order two). -/
def Cancel (u v : ZMod G.prime) : Prop :=
  (Degenerate u ∧ Degenerate v) ∨
    (¬Degenerate u ∧ ¬Degenerate v ∧ abscissa u = abscissa v ∧ (¬(First u ↔ First v) ∨ rhs (abscissa u) = 0))

theorem swu_coordinates {u : ZMod G.prime} (hu : ¬Degenerate u) :
    IsSquare (rhs (abscissa u)) ∧ ∃ h, swu G u = .some (abscissa u)
      (if First u then root (rhs (abscissa u)) else -root (rhs (abscissa u))) h := by
  unfold abscissa
  by_cases hs : First u
  · simp only [if_pos hs]
    exact ⟨hs, EcParams.nonsingular_iff.2 (onCurve_root hs), swu_of_isSquare hu hs⟩
  · simp only [if_neg hs]
    have hs1 := isSquare_g_x1 hu hs
    exact ⟨hs1, EcParams.nonsingular_iff.2 (onCurve_neg_root hs1), swu_of_not_isSquare hu hs⟩

theorem neg_some_eq {x y : ZMod G.prime} (h : G.curve.Nonsingular x y) :
    ∃ h', -WeierstrassCurve.Affine.Point.some x y h = .some x (-y) h' := by
  have hn : -y = G.curve.negY x y := by simp [WeierstrassCurve.Affine.negY, CurveParams.curve]
  rw [hn]
  exact ⟨_, WeierstrassCurve.Affine.Point.neg_some h⟩

/-- **The images of `u` and `v` cancel exactly in these cases.** -/
theorem swu_add_eq_zero_iff {u v : ZMod G.prime} : swu G u + swu G v = 0 ↔ Cancel u v := by
  unfold Cancel
  by_cases hu : Degenerate u
  · rw [swu_of_degenerate hu, zero_add, swu_eq_zero_iff]
    simp [hu]
  by_cases hv : Degenerate v
  · rw [swu_of_degenerate hv, add_zero, swu_eq_zero_iff]
    simp [hu, hv]
  obtain ⟨hsu, hcu, hPu⟩ := swu_coordinates hu
  obtain ⟨hsv, hcv, hPv⟩ := swu_coordinates hv
  obtain ⟨hn, hneg⟩ := neg_some_eq hcv
  rw [add_eq_zero_iff_eq_neg, hPu, hPv, hneg, WeierstrassCurve.Affine.Point.some.injEq]
  simp only [hu, hv, not_false_eq_true, true_and, false_and, false_or]
  refine and_congr_right fun hx => ?_
  rw [← hx] at hsv ⊢
  -- the four ways the two points can have been reached
  by_cases hfu : First u <;> by_cases hfv : First v <;> simp only [hfu, hfv, if_true, if_false, neg_neg, iff_true,
    iff_false, not_true_eq_false, not_false_eq_true, false_or, true_or]
  · exact root_eq_neg_iff hsu
  · rw [eq_comm, root_eq_neg_iff hsu]

end Cancel

end DecoyAuth.Encode
