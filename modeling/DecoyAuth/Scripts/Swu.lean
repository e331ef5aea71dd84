import DecoyAuth.Lib.Swu
import DecoyAuth.Scripts.Sqrt

/-!
# The hash-to-curve map of the Python scripts

`simplified_swu` of `scripts/decoyauth.py`, for any odd prime and any non-square `z`. Inversions are powers with the
exponent `p - 2`, which turn zero into zero, so the denominator that can be zero is tested before (`cast_swuX1`). One of
the two candidates is the abscissa of a point: if the first one is not, its value and `z` are two non-squares
(`isSquare_second`). `simplifiedSwu_spec` says that the map returns a point of the curve with the parity of its argument.
-/

namespace DecoyAuth.Scripts

open Util

/-- `x1` of `simplified_swu`. -/
def swuX1 (u : ℤ) (p : ℕ) (a b z : ℤ) : ℤ :=
  let m := (bnModExp z 2 p * bnModExp u 4 p + z * bnModExp u 2 p) % p
  let l := ceq m 0
  let t := bnModExp m (p - 2) p
  csel l (b * bnModExp (z * a) (p - 2) p % p) (-b * (1 + t) * bnModExp a (p - 2) p % p)

/-- `gx1` and `gx2` -/
def swuG (x : ℤ) (p : ℕ) (a b : ℤ) : ℤ := (bnModExp x 3 p + a * x + b) % p

/-- The end of `simplified_swu`: the root of `v` with the parity of `u`. `lsb` of a missing root raises an exception. -/
def swuPoint (u : ℤ) (p : ℕ) (x v : ℤ) : Except PyError (ℤ × ℤ) :=
  match modularSqrt v p with
  | none => .error .typeError
  | some y => .ok (if ceq (lsb u) (lsb y) then (x, y) else (x, p - y))

def simplifiedSwu (u : ℤ) (p : ℕ) (a b z : ℤ) : Except PyError (ℤ × ℤ) :=
  let x1 := swuX1 u p a b z
  let gx1 := swuG x1 p a b
  let x2 := z * bnModExp u 2 p * x1 % p
  let gx2 := swuG x2 p a b
  let l := isQuadraticResidue gx1 p
  let v := csel l gx1 gx2
  let x := csel l x1 x2
  swuPoint u p x v

/-! ## The candidates on the field -/

section Cast

variable {p : ℕ} [Fact p.Prime] {a b z u : ℤ}

/-- Fermat's inverse, also of zero. -/
theorem pow_sub_two (h2 : p ≠ 2) (c : ZMod p) : c ^ (p - 2) = c⁻¹ := by
  have htwo := (Fact.out : p.Prime).two_le
  by_cases hc : c = 0
  · rw [hc, inv_zero, zero_pow (by omega)]
  · refine eq_inv_of_mul_eq_one_left ?_
    rw [← pow_succ, show p - 2 + 1 = p - 1 by omega, ZMod.pow_card_sub_one_eq_one hc]

@[simp] theorem cast_swuG (x : ℤ) : (swuG x p a b : ZMod p) = Swu.g (a : ZMod p) b x := by
  simp [swuG, Swu.g]

/-- The denominator of the first candidate. -/
theorem cast_denominator : (((bnModExp z 2 p * bnModExp u 4 p + z * bnModExp u 2 p) % p : ℤ) : ZMod p) =
    (z : ZMod p) ^ 2 * (u : ZMod p) ^ 4 + z * (u : ZMod p) ^ 2 := by
  simp

theorem cast_swuX1 (h2 : p ≠ 2) : (swuX1 u p a b z : ZMod p) =
    if (z : ZMod p) ^ 2 * (u : ZMod p) ^ 4 + z * (u : ZMod p) ^ 2 = 0 then (b : ZMod p) * ((z : ZMod p) * a)⁻¹
    else Swu.first (a : ZMod p) b z u := by
  have hm : ceq ((bnModExp z 2 p * bnModExp u 4 p + z * bnModExp u 2 p) % p) 0 = true ↔
      (z : ZMod p) ^ 2 * (u : ZMod p) ^ 4 + z * (u : ZMod p) ^ 2 = 0 := by
    rw [ceq, decide_eq_true_iff, emod_eq_zero_iff, ← cast_denominator, ZMod.intCast_mod]
  unfold swuX1 csel
  by_cases h : (z : ZMod p) ^ 2 * (u : ZMod p) ^ 4 + z * (u : ZMod p) ^ 2 = 0
  · rw [if_pos h]
    dsimp only
    rw [if_pos (hm.2 h)]
    simp only [ZMod.intCast_mod, Int.cast_mul, cast_bnModExp, pow_sub_two h2]
  · rw [if_neg h]
    dsimp only
    rw [if_neg (mt hm.1 h)]
    rw [ZMod.intCast_mod, Int.cast_mul, Int.cast_mul, Int.cast_add, cast_bnModExp, cast_bnModExp, cast_denominator,
      pow_sub_two h2, pow_sub_two h2, Swu.first]
    push_cast
    ring

theorem swuX1_range : 0 ≤ swuX1 u p a b z ∧ swuX1 u p a b z < p := by
  have hp : (0 : ℤ) < p := cast_pos
  simp only [swuX1, csel]
  split <;> exact ⟨Int.emod_nonneg _ hp.ne', Int.emod_lt_of_pos _ hp⟩

end Cast

/-! ## The map -/

/-- Curve and parameter of the map: no point of the curve has the ordinate zero, `z` is not a square, and the abscissa
`b / (z * a)` belongs to a point. -/
structure SwuParams (p : ℕ) [Fact p.Prime] (a b z : ZMod p) : Prop where
  a_ne_zero : a ≠ 0
  no_root : ∀ x, Swu.g a b x ≠ 0
  not_isSquare : ¬IsSquare z
  isSquare_exceptional : IsSquare (Swu.g a b (b * (z * a)⁻¹))

section Map

variable {p : ℕ} [Fact p.Prime] {a b z u : ℤ} (h2 : p ≠ 2) (hparams : SwuParams p (a : ZMod p) b z)
include h2 hparams

/-- If the first candidate is not the abscissa of a point, the second one is. -/
theorem isSquare_second (h : ¬IsSquare (Swu.g (a : ZMod p) b (swuX1 u p a b z : ℤ))) :
    IsSquare (Swu.g (a : ZMod p) b ((z : ZMod p) * (u : ZMod p) ^ 2 * (swuX1 u p a b z : ℤ))) := by
  have hz0 : (z : ZMod p) ≠ 0 := fun h0 => hparams.not_isSquare (h0 ▸ IsSquare.zero)
  rw [cast_swuX1 h2] at h ⊢
  split at h
  · exact absurd hparams.isSquare_exceptional h
  · next hd =>
    rw [if_neg hd, Swu.g_second hparams.a_ne_zero hd]
    have hprod : IsSquare ((z : ZMod p) * Swu.g (a : ZMod p) b (Swu.first (a : ZMod p) b z u)) :=
      (Residue.isSquare_mul_iff hz0 (hparams.no_root _)).2 (iff_of_false hparams.not_isSquare h)
    have heq : (z : ZMod p) ^ 3 * (u : ZMod p) ^ 6 * Swu.g (a : ZMod p) b (Swu.first (a : ZMod p) b z u) =
        ((z : ZMod p) * (u : ZMod p) ^ 3) ^ 2 * ((z : ZMod p) * Swu.g (a : ZMod p) b (Swu.first (a : ZMod p) b z u)) := by
      ring
    rw [heq]
    exact (IsSquare.sq _).mul hprod

/-- The candidate that the map selects, with the value at it. -/
theorem exists_candidate (u : ℤ) : ∃ x : ℤ, (0 ≤ x ∧ x < p) ∧ IsSquare (Swu.g (a : ZMod p) b x) ∧
    simplifiedSwu u p a b z = swuPoint u p x (swuG x p a b) := by
  have hp : (0 : ℤ) < p := cast_pos
  have hl : isQuadraticResidue (swuG (swuX1 u p a b z) p a b) p = true ↔
      IsSquare (Swu.g (a : ZMod p) b (swuX1 u p a b z : ℤ)) := by
    rw [isQuadraticResidue, decide_eq_true_iff, legendreSymbol_eq_one_iff h2, cast_swuG]
    exact and_iff_right (hparams.no_root _)
  by_cases h : IsSquare (Swu.g (a : ZMod p) b (swuX1 u p a b z : ℤ))
  · refine ⟨swuX1 u p a b z, swuX1_range, h, ?_⟩
    simp only [simplifiedSwu, hl.2 h]
    rfl
  · refine ⟨z * bnModExp u 2 p * swuX1 u p a b z % p, ⟨Int.emod_nonneg _ hp.ne', Int.emod_lt_of_pos _ hp⟩, ?_, ?_⟩
    · simpa using isSquare_second h2 hparams h
    · simp only [simplifiedSwu, Bool.eq_false_iff.2 (mt hl.1 h)]
      rfl

end Map

/-- Of a root and its negative one has the wanted parity. -/
theorem parity_select {p : ℕ} (hodd : p % 2 = 1) {u x y : ℤ} (hy : 0 < y ∧ y < p) :
    ∃ y', (if ceq (lsb u) (lsb y) then (x, y) else (x, p - y)) = (x, y') ∧ (y' = y ∨ y' = p - y) ∧ (0 < y' ∧ y' < p) ∧
      y' % 2 = u % 2 := by
  unfold ceq lsb
  by_cases h : u % 2 = y % 2
  · exact ⟨y, if_pos (decide_eq_true h), .inl rfl, hy, h.symm⟩
  · exact ⟨p - y, if_neg (by simpa using h), .inr rfl, by omega, by omega⟩

theorem swuParams_of_modEq {p : ℕ} [Fact p.Prime] {a b z : ℤ} (ha : ¬(p : ℤ) ∣ a)
    (hroot : ∀ x : ℤ, ¬x ^ 3 + a * x + b ≡ 0 [ZMOD p]) (hz : ¬∃ y : ℤ, y ^ 2 ≡ z [ZMOD p])
    (hex : ∃ w y : ℤ, z * a * w ≡ b [ZMOD p] ∧ y ^ 2 ≡ w ^ 3 + a * w + b [ZMOD p]) :
    SwuParams p (a : ZMod p) b z := by
  have ha0 : (a : ZMod p) ≠ 0 := fun h => ha ((ZMod.intCast_zmod_eq_zero_iff_dvd a p).1 h)
  have hz' : ¬IsSquare (z : ZMod p) := mt Residue.isSquare_intCast_iff.1 hz
  have hz0 : (z : ZMod p) ≠ 0 := fun h => hz' (h ▸ IsSquare.zero)
  refine ⟨ha0, fun x hx => hroot x.val ?_, hz', ?_⟩
  · rw [← ZMod.intCast_eq_intCast_iff]
    push_cast
    rw [ZMod.natCast_zmod_val]
    exact hx
  · obtain ⟨w, y, hw, hy⟩ := hex
    rw [← ZMod.intCast_eq_intCast_iff] at hw hy
    push_cast at hw hy
    have hwb : (b : ZMod p) * ((z : ZMod p) * a)⁻¹ = w := by
      rw [← hw, mul_comm, ← mul_assoc, inv_mul_cancel₀ (mul_ne_zero hz0 ha0), one_mul]
    rw [hwb]
    exact ⟨(y : ZMod p), by rw [← pow_two, hy, Swu.g]⟩

/-- **`simplified_swu` lands on the curve with the parity of its argument.** The root that it takes always exists, also
where the denominator of the first candidate is zero. -/
theorem simplifiedSwu_spec {p : ℕ} (hp : p.Prime) (h2 : p ≠ 2) {a b z : ℤ} (ha : ¬(p : ℤ) ∣ a)
    (hroot : ∀ x : ℤ, ¬x ^ 3 + a * x + b ≡ 0 [ZMOD p]) (hz : ¬∃ y : ℤ, y ^ 2 ≡ z [ZMOD p])
    (hex : ∃ w y : ℤ, z * a * w ≡ b [ZMOD p] ∧ y ^ 2 ≡ w ^ 3 + a * w + b [ZMOD p]) (u : ℤ) :
    ∃ x y : ℤ, simplifiedSwu u p a b z = .ok (x, y) ∧ (0 ≤ x ∧ x < p) ∧ (0 < y ∧ y < p) ∧
      y ^ 2 ≡ x ^ 3 + a * x + b [ZMOD p] ∧ y % 2 = u % 2 := by
  have := Fact.mk hp
  have hparams := swuParams_of_modEq ha hroot hz hex
  obtain ⟨x, hx, hs, hswu⟩ := exists_candidate h2 hparams u
  obtain ⟨y, hsq, hrange, -, hrun⟩ := modularSqrtWithin_of_isSquare h2 (a := swuG x p a b)
    (by rw [cast_swuG]; exact hparams.no_root _) (by rwa [cast_swuG])
  rw [cast_swuG] at hsq
  have hsqrt : modularSqrt (swuG x p a b) p = some y := by rw [modularSqrt, hrun p le_rfl, Option.getD_some]
  have hy0 : y ≠ 0 := by
    rintro rfl
    exact hparams.no_root x (by rw [← hsq, Int.cast_zero, zero_pow two_ne_zero])
  obtain ⟨y', hsel, hy', hrange', hparity⟩ := parity_select (x := x) (u := u) (hp.eq_two_or_odd.resolve_left h2)
    (show 0 < y ∧ y < p by omega)
  refine ⟨x, y', ?_, hx, hrange', ?_, hparity⟩
  · rw [hswu, swuPoint, hsqrt]
    exact congrArg Except.ok hsel
  · have hsq' : (y' : ZMod p) ^ 2 = Swu.g (a : ZMod p) b x := by
      rcases hy' with rfl | rfl
      · exact hsq
      · rw [← hsq, Int.cast_sub, Int.cast_natCast, CharP.cast_eq_zero, zero_sub, neg_sq]
    rw [← ZMod.intCast_eq_intCast_iff]
    push_cast
    exact hsq'

/-- `y² = x³ + x + 3` over 17 elements with `z = -3`, at 0, where the denominator is zero, and at 5. -/
theorem simplifiedSwu_spec_seventeen :
    (∃ x y : ℤ, simplifiedSwu 0 17 1 3 (-3) = .ok (x, y) ∧ y ^ 2 ≡ x ^ 3 + 1 * x + 3 [ZMOD 17] ∧ y % 2 = 0) ∧
      ∃ x y : ℤ, simplifiedSwu 5 17 1 3 (-3) = .ok (x, y) ∧ y ^ 2 ≡ x ^ 3 + 1 * x + 3 [ZMOD 17] ∧ y % 2 = 1 := by
  have hcubic : ∀ x : ZMod 17, x ^ 3 + 1 * x + 3 ≠ 0 := by decide
  have hnonsquare : ∀ y : ZMod 17, y ^ 2 ≠ -3 := by decide
  have hroot : ∀ x : ℤ, ¬x ^ 3 + 1 * x + 3 ≡ 0 [ZMOD (17 : ℕ)] := by
    intro x hx
    rw [← ZMod.intCast_eq_intCast_iff] at hx
    push_cast at hx
    exact hcubic x hx
  have hz : ¬∃ y : ℤ, y ^ 2 ≡ -3 [ZMOD (17 : ℕ)] := by
    rintro ⟨y, hy⟩
    rw [← ZMod.intCast_eq_intCast_iff] at hy
    push_cast at hy
    exact hnonsquare y hy
  have hspec := simplifiedSwu_spec (p := 17) (by norm_num) (by norm_num) (a := 1) (b := 3) (z := -3) (by decide) hroot hz
    ⟨16, 1, by decide, by decide⟩
  constructor
  · obtain ⟨x, y, hswu, -, -, heq, hparity⟩ := hspec 0
    exact ⟨x, y, hswu, heq, hparity⟩
  · obtain ⟨x, y, hswu, -, -, heq, hparity⟩ := hspec 5
    exact ⟨x, y, hswu, heq, hparity⟩

end DecoyAuth.Scripts
