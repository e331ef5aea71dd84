import DecoyAuth.Encode.PythonInverse

/-!
# The point encoder of the Python scripts

`point_to_values` of `scripts/encode.py` draws `u` and `j` until `calc_v` finds a value for the difference of the point and
the image of `u`. What it returns decodes to the point (`python_decode_encode`). But `random.randint(0, 4)`
includes 4, and `calc_v` treats 4 as 3: a preimage that `j = 3` finds is drawn twice as often as the others
(`card_draws_eq_iff`).
-/

namespace DecoyAuth.Encode

open Util

namespace Python

variable (G : EcParams)

/-- The values of `random.randint(0, 4)`, both ends included. -/
def jDraws : Finset ℕ := Finset.Icc 0 4

def ecSub (P Q : ℤ × ℤ) : Except PyError (ℤ × ℤ) := do
  let Pc ← eccPoint G P
  let Qc ← eccPoint G Q
  return coordinates (G.pointAdd Pc (G.pointInvert Qc))

def pointToValuesForUJ (point : ℤ × ℤ) (u : ℤ) (j : ℕ) : Except PyError (Option ℤ) :=
  if u = G.prime - 1 ∨ u = 0 ∨ u = 1 then .ok none
  else do
    let fVal ← f G.toCurveParams u
    let q ← ecSub G point fVal
    if q = (0, 0) then return none else calcV G.toCurveParams q j

/-- The rounds of `point_to_values`, over the pairs that are drawn. -/
def encodeRounds (point : ℤ × ℤ) : List (ℤ × ℕ) → Except PyError (Option (ℤ × ℤ))
  | [] => .ok none
  | (u, j) :: draws => do
    match ← pointToValuesForUJ G point u j with
    | none => encodeRounds point draws
    | some v => return some (u, v)

def pointToValues (point : ℤ × ℤ) (draws : ℕ → ℤ × ℕ) : Except PyError (Option (ℤ × ℤ)) :=
  encodeRounds G point ((List.range 1000).map draws)

end Python

/-! ## What is returned decodes to the point -/

section Decode

variable {G : EcParams} {order : ℕ} (hord : G.HasOrder order) (hodd : Odd order) {P Q : EcPoint} (hP : G.Valid P)

theorem ecSub_coordinates (hP : G.Valid P) (hQ : G.Valid Q) :
    Python.ecSub G (Python.coordinates P) (Python.coordinates Q) =
      .ok (Python.coordinates (G.pointAdd P (G.pointInvert Q))) := by
  simp only [Python.ecSub, Python.eccPoint_coordinates hP, Python.eccPoint_coordinates hQ]
  rfl

include hord hodd

/-- In a group of odd order the script finds what the C code finds, and only values that it can decode. -/
theorem calcF_of_python_calcV {x y v : ℤ} {j : ℕ} (hQ : G.Valid (.affine x y))
    (h : Python.calcV G.toCurveParams (x, y) j = .ok (some v)) :
    (0 ≤ v ∧ v < G.prime) ∧ Admissible G.toCurveParams v ∧ swu G v = G.toPoint (.affine x y) := by
  obtain ⟨hc, -, -⟩ := EcParams.valid_affine.1 hQ
  have hy0 : (y : ZMod G.prime) ≠ 0 := fun h0 => not_onCurve_zero_of_odd hord hodd x (h0 ▸ hc)
  obtain ⟨r, hr, hrv⟩ := python_calcV_spec (C := G.toCurveParams) x y j
  have hd := ((hrv v).1 (Except.ok.inj (hr.symm.trans h))).1
  rw [python_calcV_eq hd hy0, Except.ok.injEq] at h
  obtain ⟨hv, hdeg, hswu⟩ := swu_calcV hQ (fun h0 => hd (disc_of_omega_eq_zero h0)) h
  refine ⟨hv, (admissible_iff_of_odd hord hodd).2 ?_, hswu⟩
  rw [degenerate_iff hv.1 hv.2] at hdeg
  tauto

include hP

/-- A round that finds a value finds an encoding. -/
theorem python_decode_forUJ {u v : ℤ} {j : ℕ} (hu : 0 ≤ u ∧ u < G.prime)
    (h : Python.pointToValuesForUJ G (Python.coordinates P) u j = .ok (some v)) :
    Python.valuesToPoint G u v = .ok (Python.coordinates P) := by
  unfold Python.pointToValuesForUJ at h
  by_cases hcond : u = G.prime - 1 ∨ u = 0 ∨ u = 1
  · rw [if_pos hcond] at h
    cases h
  have hau : Admissible G.toCurveParams u := (admissible_iff_of_odd hord hodd).2 (by tauto)
  rw [if_neg hcond, f_eq_ok hu hau] at h
  simp only [ok_bind, ecSub_coordinates hP (EcParams.valid_ofPoint _)] at h
  have hQ := EcParams.valid_pointAdd (G := G) P (G.pointInvert (G.ofPoint (swu G u)))
  have hQp : G.toPoint (G.pointAdd P (G.pointInvert (G.ofPoint (swu G u)))) = G.toPoint P + -swu G u := by simp
  generalize G.pointAdd P (G.pointInvert (G.ofPoint (swu G u))) = Q at h hQ hQp
  by_cases h0 : Python.coordinates Q = (0, 0)
  · rw [if_pos h0] at h
    cases h
  rw [if_neg h0] at h
  cases Q with
  | infinity => exact absurd rfl h0
  | affine x y =>
    obtain ⟨hv, hav, hswu⟩ := calcF_of_python_calcV hord hodd hQ h
    rw [python_valuesToPoint_eq hu hv hau hav, hswu, hQp, add_comm, neg_add_cancel_right, hP]

theorem python_decode_encodeRounds {u v : ℤ} : ∀ {draws : List (ℤ × ℕ)}, (∀ d ∈ draws, 0 ≤ d.1 ∧ d.1 < G.prime) →
    Python.encodeRounds G (Python.coordinates P) draws = .ok (some (u, v)) →
    Python.valuesToPoint G u v = .ok (Python.coordinates P)
  | [], _, h => by cases h
  | (u', j) :: draws, hd, h => by
    unfold Python.encodeRounds at h
    cases hr : Python.pointToValuesForUJ G (Python.coordinates P) u' j with
    | error e => rw [hr] at h; cases h
    | ok r =>
      rw [hr] at h
      cases r with
      | none => exact python_decode_encodeRounds (fun d hm => hd d (List.mem_cons_of_mem _ hm)) h
      | some v' =>
        obtain ⟨rfl, rfl⟩ := Prod.mk.inj (Option.some.inj (Except.ok.inj h))
        exact python_decode_forUJ hord hodd hP (hd _ List.mem_cons_self) hr

/-- **What `point_to_values` returns decodes to the point**, in a group of odd order. -/
theorem python_decode_encode {draws : ℕ → ℤ × ℕ} (hd : ∀ i, 0 ≤ (draws i).1 ∧ (draws i).1 < G.prime) {u v : ℤ}
    (h : Python.pointToValues G (Python.coordinates P) draws = .ok (some (u, v))) :
    Python.valuesToPoint G u v = .ok (Python.coordinates P) := by
  refine python_decode_encodeRounds hord hodd hP (fun d hm => ?_) h
  obtain ⟨i, -, rfl⟩ := List.mem_map.1 hm
  exact hd i

end Decode

/-! ## How often a preimage is drawn -/

/-- The preimage `v` of `(x, y)` is neither a square, nor is the root of the discriminant that belongs to it. -/
structure DrawnTwice (C : CurveParams) (x y v : ℤ) : Prop where
  value : ¬IsSquare (v : ZMod C.prime)
  first : IsSquare (y : ZMod C.prime) → ¬IsSquare (omega (x : ZMod C.prime) * (2 * (v : ZMod C.prime) ^ 2 - 1))
  second : ¬IsSquare (y : ZMod C.prime) → ¬IsSquare (2 * (v : ZMod C.prime) ^ 2 - omega (x : ZMod C.prime))

section Draws

variable {C : CurveParams} {x y v : ℤ}

theorem eq_root_iff {t r : ZMod C.prime} (h : r ^ 2 = t) : r = root t ↔ IsSquare r := by
  constructor
  · rintro hr
    rw [hr]
    exact Residue.isSquare_root ⟨r, by rw [← h, pow_two]⟩
  · intro hr
    exact Residue.eq_root C.prime_mod_four hr h

theorem eq_neg_root_iff {t r : ZMod C.prime} (h : r ^ 2 = t) (ht : t ≠ 0) : -root t = r ↔ ¬IsSquare r := by
  have hr : r ≠ 0 := by
    rintro rfl
    exact ht (by rw [← h, zero_pow two_ne_zero])
  rw [← Residue.isSquare_neg_iff C.prime_mod_four hr, ← eq_root_iff ((neg_sq r).trans h), neg_eq_iff_eq_neg, eq_comm,
    neg_eq_iff_eq_neg]

/-- The root of the discriminant that belongs to a preimage. -/
theorem solution_eq {first : Prop} {x s v : ZMod C.prime} (hx : Regular x) (h : v ^ 2 = (omega x + s) * scale first x) :
    (first → s = omega x * (2 * v ^ 2 - 1)) ∧ (¬first → s = 2 * v ^ 2 - omega x) := by
  have h2 : (2 : ZMod C.prime) ≠ 0 := Residue.two_ne_zero C.prime_mod_four
  have hω : omega x ≠ 0 := hx
  unfold scale at h
  constructor
  · intro hf
    rw [if_pos hf] at h
    rw [h]
    field_simp
    ring
  · intro hf
    rw [if_neg hf] at h
    rw [h]
    field_simp
    ring

section Preimage

variable (hx : 0 ≤ x ∧ x < C.prime) (hy : 0 ≤ y ∧ y < C.prime) (hc : C.OnCurve x y) (hreg : Regular (x : ZMod C.prime))
  (h4 : omega (x : ZMod C.prime) ≠ 4) (hv : 0 ≤ v ∧ v < C.prime)
include hx hy hc hreg h4 hv

/-- The last draw is treated as 3: both signs are negative. -/
theorem calcV_four_iff (hf : calcF C v = some (.affine x y)) : calcV C (.affine x y) 4 = some v ↔ DrawnTwice C x y v := by
  obtain ⟨s, hs, hsq⟩ := (calcF_eq_iff_exists hv hx hy hc hreg).1 hf
  have hd : disc (x : ZMod C.prime) ≠ 0 := mt (disc_eq_zero_iff hreg).1 h4
  obtain ⟨hfirst, hsecond⟩ := solution_eq hreg hsq
  have hroot : discRoot (x : ZMod C.prime) 4 = s ↔ ¬IsSquare s := eq_neg_root_iff hs hd
  rw [calcV_eq_some_iff, value_iff hreg hs hv hsq, hroot, eq_root_iff hsq]
  simp only [ne_eq, OfNat.ofNat_ne_zero, not_false_eq_true, Nat.reduceEqDiff, and_self, not_true_eq_false, iff_false]
  constructor
  · rintro ⟨hns, hnv⟩
    exact ⟨hnv, fun h => hfirst h ▸ hns, fun h => hsecond h ▸ hns⟩
  · rintro ⟨hnv, h1, h2⟩
    refine ⟨?_, hnv⟩
    by_cases h : IsSquare (y : ZMod C.prime)
    · exact hfirst h ▸ h1 h
    · exact hsecond h ▸ h2 h

end Preimage

/-- What `f` of the script returns is the image under the map of the C code, and not a point of order two. -/
theorem calcF_of_python_f (hx : 0 ≤ x ∧ x < C.prime) (hy : 0 ≤ y ∧ y < C.prime) (hc : C.OnCurve x y)
    (hv : 0 ≤ v ∧ v < C.prime) (h : Python.f C v = .ok (x, y)) :
    calcF C v = some (.affine x y) ∧ (y : ZMod C.prime) ≠ 0 := by
  have hd : ¬Degenerate (v : ZMod C.prime) := by
    intro hd
    rw [Python.f_of_degenerate hd] at h
    cases h
  have hz : rhs (cand0 (v : ZMod C.prime)) ≠ 0 := by
    intro hz
    rw [Python.f_of_rhs_eq_zero hd hz] at h
    cases h
  obtain ⟨P, hP, hf⟩ := Python.f_of_rhs_ne_zero hd hv hz
  rw [h, Except.ok.injEq] at hf
  have hPxy : P = .affine x y := by
    cases P with
    | infinity =>
      obtain ⟨rfl, rfl⟩ := Prod.mk.inj hf
      exact absurd (by simpa [CurveParams.OnCurve] using hc.symm) C.cast_b_ne_zero
    | affine x' y' =>
      obtain ⟨rfl, rfl⟩ := Prod.mk.inj hf
      rfl
  rw [hPxy] at hP
  refine ⟨hP, fun hy0 => ?_⟩
  have hrx : rhs (x : ZMod C.prime) = 0 := by
    rw [← onCurve_iff.1 hc, hy0, zero_pow two_ne_zero]
  obtain ⟨-, ⟨-, hx0⟩ | ⟨-, hx1⟩⟩ := (calcF_eq_affine_iff hv hx hy hc).1 hP
  · exact hz (by rw [hx0, hrx])
  · rw [← hx1, g_x1 hd] at hrx
    exact mul_ne_zero (neg_ne_zero.2 (pow_ne_zero _ (pow_ne_zero _ (not_or.1 hd).1))) hz hrx

open Classical in
/-- **How often a preimage is drawn.** -/
theorem card_draws (hx : 0 ≤ x ∧ x < C.prime) (hy : 0 ≤ y ∧ y < C.prime) (hc : C.OnCurve x y)
    (h0 : omega (x : ZMod C.prime) ≠ 0) (h4 : omega (x : ZMod C.prime) ≠ 4) (hv : 0 ≤ v ∧ v < C.prime)
    (hf : Python.f C v = .ok (x, y)) :
    (Python.jDraws.filter fun j => Python.calcV C (x, y) j = .ok (some v)).card = if DrawnTwice C x y v then 2 else 1 := by
  obtain ⟨hcf, hy0⟩ := calcF_of_python_f hx hy hc hv hf
  have hd : disc (x : ZMod C.prime) ≠ 0 := mt (disc_eq_zero_iff h0).1 h4
  have hpy : ∀ j, Python.calcV C (x, y) j = .ok (some v) ↔ calcV C (.affine x y) j = some v := fun j => by
    rw [python_calcV_eq hd hy0, Except.ok.injEq]
  have hone := card_calcV hv hx hy hc h0 hcf
  rw [if_neg h4] at hone
  have hdraws : Python.jDraws = insert 4 (Finset.range 4) := by decide
  have hfilter : (Python.jDraws.filter fun j => Python.calcV C (x, y) j = .ok (some v)).card =
      ((insert 4 (Finset.range 4)).filter fun j => calcV C (.affine x y) j = some v).card := by
    rw [hdraws]
    congr 1
    exact Finset.filter_congr fun j _ => hpy j
  rw [hfilter, Finset.filter_insert]
  by_cases ht : DrawnTwice C x y v
  · rw [if_pos ht, if_pos ((calcV_four_iff hx hy hc h0 h4 hv hcf).2 ht), Finset.card_insert_of_notMem (by simp), hone]
  · rw [if_neg ht, if_neg (mt (calcV_four_iff hx hy hc h0 h4 hv hcf).1 ht), hone]

/-- **When two preimages are drawn equally often.** -/
theorem card_draws_eq_iff (C : CurveParams) {x y : ℤ} (hx : 0 ≤ x ∧ x < C.prime) (hy : 0 ≤ y ∧ y < C.prime)
    (hc : C.OnCurve x y) (h0 : omega (x : ZMod C.prime) ≠ 0) (h4 : omega (x : ZMod C.prime) ≠ 4) {v v' : ℤ}
    (hv : 0 ≤ v ∧ v < C.prime) (hv' : 0 ≤ v' ∧ v' < C.prime) (hf : Python.f C v = .ok (x, y))
    (hf' : Python.f C v' = .ok (x, y)) :
    (Python.jDraws.filter fun j => Python.calcV C (x, y) j = .ok (some v)).card =
      (Python.jDraws.filter fun j => Python.calcV C (x, y) j = .ok (some v')).card ↔
      (DrawnTwice C x y v ↔ DrawnTwice C x y v') := by
  rw [card_draws hx hy hc h0 h4 hv hf, card_draws hx hy hc h0 h4 hv' hf']
  by_cases h : DrawnTwice C x y v <;> by_cases h' : DrawnTwice C x y v' <;> simp [h, h']

/-- The two preimages 3 and 20 of `(10, 18)` are drawn once each. -/
theorem card_draws_eq_small :
    (Python.jDraws.filter fun j => Python.calcV Small.params.toCurveParams (10, 18) j = .ok (some 3)).card =
      (Python.jDraws.filter fun j => Python.calcV Small.params.toCurveParams (10, 18) j = .ok (some 20)).card := by
  refine (card_draws_eq_iff Small.params.toCurveParams (by decide) (by decide) (by decide +kernel) (by decide +kernel)
    (by decide +kernel) (by decide) (by decide) (by decide +kernel) (by decide +kernel)).2 (iff_of_false ?_ ?_)
  · exact fun h => h.value (by decide +kernel)
  · exact fun h => h.first (by decide +kernel) (by decide +kernel)

/-- Of the four preimages of `(14, 5)`, 17 is drawn twice and 16 once. -/
theorem card_draws_ne :
    (Python.f Small.params.toCurveParams 17 = .ok (14, 5) ∧ Python.f Small.params.toCurveParams 16 = .ok (14, 5)) ∧
      (Python.jDraws.filter fun j => Python.calcV Small.params.toCurveParams (14, 5) j = .ok (some 17)).card = 2 ∧
      (Python.jDraws.filter fun j => Python.calcV Small.params.toCurveParams (14, 5) j = .ok (some 16)).card = 1 := by
  decide +kernel

end Draws

end DecoyAuth.Encode
