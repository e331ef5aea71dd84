import Mathlib.NumberTheory.LegendreSymbol.Basic
import Mathlib.NumberTheory.LegendreSymbol.QuadraticChar.Basic

/-!
# Squares of a finite field

A product of two elements is a square if and only if both are squares or neither is (`isSquare_mul_iff`). Modulo a prime
that is 3 mod 4, `-1` is not a square, so of `a` and `-a` exactly one is (`isSquare_neg_iff`), as of `a` and `-c ^ 2 * a`
(`isSquare_neg_sq_mul_iff`), and every square has exactly one root that is itself a square: `a ^ ((p + 1) / 4)` (`root_sq`,
`isSquare_root`, `eq_root`).
-/

namespace DecoyAuth.Residue

theorem isSquare_mul_iff {F : Type*} [Field F] [Fintype F] {a b : F} (ha : a ≠ 0) (hb : b ≠ 0) :
    IsSquare (a * b) ↔ (IsSquare a ↔ IsSquare b) := by
  classical
  rw [← quadraticChar_one_iff_isSquare (mul_ne_zero ha hb), ← quadraticChar_one_iff_isSquare ha,
    ← quadraticChar_one_iff_isSquare hb, map_mul]
  rcases quadraticChar_dichotomy ha with h | h <;> rcases quadraticChar_dichotomy hb with h' | h' <;> rw [h, h'] <;>
    decide

variable {p : ℕ} [Fact p.Prime]

theorem isSquare_intCast_iff {a : ℤ} : IsSquare (a : ZMod p) ↔ ∃ y : ℤ, y ^ 2 ≡ a [ZMOD p] := by
  constructor
  · rintro ⟨y, hy⟩
    refine ⟨y.val, (ZMod.intCast_eq_intCast_iff _ _ p).1 ?_⟩
    rw [hy]
    push_cast
    rw [ZMod.natCast_zmod_val, pow_two]
  · rintro ⟨y, hy⟩
    have h := (ZMod.intCast_eq_intCast_iff _ _ p).2 hy
    exact ⟨(y : ZMod p), by rw [← h, Int.cast_pow, pow_two]⟩

variable (h4 : p % 4 = 3)
include h4

theorem not_isSquare_neg_one : ¬IsSquare (-1 : ZMod p) := fun h => ZMod.exists_sq_eq_neg_one_iff.1 h h4

theorem ringChar_ne_two : ringChar (ZMod p) ≠ 2 := by
  rw [ZMod.ringChar_zmod_n]
  omega

theorem two_ne_zero : (2 : ZMod p) ≠ 0 := Ring.two_ne_zero (ringChar_ne_two h4)

/-- Of `a` and `-a` exactly one is a square. -/
theorem isSquare_neg_iff {a : ZMod p} (ha : a ≠ 0) : IsSquare (-a) ↔ ¬IsSquare a := by
  have h2 := ringChar_ne_two h4
  have hm : quadraticChar (ZMod p) (-1) = -1 :=
    quadraticChar_neg_one_iff_not_isSquare.2 (not_isSquare_neg_one h4)
  rw [← quadraticChar_one_iff_isSquare (neg_ne_zero.2 ha), ← quadraticChar_neg_one_iff_not_isSquare,
    neg_eq_neg_one_mul, map_mul, hm, neg_one_mul, neg_eq_iff_eq_neg]

/-- The negative of a square is a factor that exchanges the squares and the other elements. -/
theorem isSquare_neg_sq_mul_iff {a c : ZMod p} (hc : c ≠ 0) (ha : a ≠ 0) : IsSquare (-c ^ 2 * a) ↔ ¬IsSquare a := by
  rw [neg_mul, isSquare_neg_iff h4 (mul_ne_zero (pow_ne_zero 2 hc) ha), isSquare_mul_iff (pow_ne_zero 2 hc) ha,
    iff_true_left (IsSquare.sq c)]

theorem eq_zero_of_isSquare_neg {a : ZMod p} (h : IsSquare a) (h' : IsSquare (-a)) : a = 0 := by
  by_contra ha
  exact (isSquare_neg_iff h4 ha).1 h' h

theorem root_sq {a : ZMod p} (h : IsSquare a) : (a ^ ((p + 1) / 4)) ^ 2 = a := by
  obtain ⟨b, rfl⟩ := h
  have he : (p + 1) / 4 * 2 * 2 = p + 1 := by omega
  rw [← pow_two, ← pow_mul, ← pow_mul, show 2 * ((p + 1) / 4 * 2) = (p + 1) / 4 * 2 * 2 by ring, he, pow_succ,
    ZMod.pow_card, pow_two]

omit h4 in
theorem isSquare_root {a : ZMod p} (h : IsSquare a) : IsSquare (a ^ ((p + 1) / 4)) := h.pow _

/-- The square root that is a square is unique. -/
theorem eq_root {a y : ZMod p} (hy : IsSquare y) (h : y ^ 2 = a) : y = a ^ ((p + 1) / 4) := by
  have ha : IsSquare a := ⟨y, by rw [← h, pow_two]⟩
  have hr := isSquare_root ha
  rcases sq_eq_sq_iff_eq_or_eq_neg.1 (h.trans (root_sq h4 ha).symm) with he | he
  · exact he
  · have h0 := eq_zero_of_isSquare_neg h4 hr (he ▸ hy)
    rw [he, h0, neg_zero]

end DecoyAuth.Residue
