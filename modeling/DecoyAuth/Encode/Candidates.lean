import DecoyAuth.Crypto.Bignum
import DecoyAuth.Lib.Swu

/-!
# The two candidates for an abscissa

`g`, `X_0` and `X_1` of `c-prototype/src/encode.c` take the coefficients and the prime as arguments, and so do `calc_g`,
`X_0` and `X_1` of `crypto_openssl.c`, which have the same text. They need no more of the prime than that it is one. The
value of the second candidate is `-u ^ 6` times the value of the first, through all the inversions and negations of the
code. If the prime is 3 mod 4, one of the candidates is the abscissa of a point and the other is not, unless both values
are zero (`swu_identity`).
-/

namespace DecoyAuth.Encode

namespace Prototype

/-- `g`, hostap's `calc_g`. -/
def g (x a b prime : ℤ) : ℤ := bnModAdd (bnModAdd (bnModExp x 3 prime) (bnModMul a x prime) prime) b prime

/-- `X_0`; a failed inversion leaves a fresh bignum, zero. -/
def x0 (u a b prime : ℤ) : ℤ :=
  let uSquare := bnModSqr u prime
  let uSquareSquare := bnModSqr uSquare prime
  let temp := bnModSub uSquareSquare uSquare prime
  let tempSum := bnModAdd 1 ((bnModInverse temp prime).getD 0) prime
  let bAInv := bnModMul b ((bnModInverse a prime).getD 0) prime
  prime - bnModMul bAInv tempSum prime

/-- `X_1` -/
def x1 (u a b prime : ℤ) : ℤ := prime - bnModMul (bnModSqr u prime) (x0 u a b prime) prime

section Cast

variable {p : ℕ} [Fact p.Prime] (u a b : ℤ)

theorem cast_g (x : ℤ) : (g x a b p : ZMod p) = Swu.g (a : ZMod p) b x := by
  simp only [g, Swu.g, cast_bnModAdd, cast_bnModExp, cast_bnModMul]

theorem cast_x0 : (x0 u a b p : ZMod p) = Swu.x0 (a : ZMod p) b u := by
  simp only [x0, Swu.x0, Int.cast_sub, Int.cast_natCast, CharP.cast_eq_zero, cast_bnModMul, cast_bnModAdd,
    cast_bnModInverse_getD, cast_bnModSub, cast_bnModSqr, Int.cast_one]
  ring_nf

theorem cast_x1 : (x1 u a b p : ZMod p) = Swu.x1 (a : ZMod p) b u := by
  simp only [x1, Swu.x1, Int.cast_sub, Int.cast_natCast, CharP.cast_eq_zero, cast_bnModMul, cast_bnModSqr, cast_x0]
  ring

theorem g_range (x : ℤ) : 0 ≤ g x a b p ∧ g x a b p < p := ⟨bnModAdd_nonneg cast_pos _ _, bnModAdd_lt cast_pos _ _⟩

/-- The values are reduced, so that one in the class of zero is zero. -/
theorem g_eq_zero_iff (x : ℤ) : g x a b p = 0 ↔ Swu.g (a : ZMod p) b x = 0 := by
  obtain ⟨h0, hp⟩ := g_range a b (p := p) x
  rw [← cast_g]
  constructor
  · intro h
    rw [h, Int.cast_zero]
  · intro h
    exact eq_of_cast_eq h0 hp le_rfl cast_pos (h.trans Int.cast_zero.symm)

end Cast

end Prototype

/-- The residues that `f` sends to infinity: 0, 1 and -1. -/
theorem zero_or_sq_eq_one_iff {p : ℕ} [Fact p.Prime] {u : ℤ} (h0 : 0 ≤ u) (hp : u < p) :
    ((u : ZMod p) = 0 ∨ (u : ZMod p) ^ 2 = 1) ↔ u = 1 ∨ u = 0 ∨ u = p - 1 := by
  have hlt : (1 : ℤ) < p := by exact_mod_cast (Fact.out : p.Prime).one_lt
  have hm : ((p - 1 : ℤ) : ZMod p) = -1 := by simp
  have hcast : ∀ {z : ℤ}, 0 ≤ z → z < p → ((u : ZMod p) = z ↔ u = z) := fun hz hz' =>
    ⟨eq_of_cast_eq h0 hp hz hz', congrArg _⟩
  rw [sq_eq_one_iff, ← hm, ← Int.cast_one (R := ZMod p), ← Int.cast_zero (R := ZMod p), hcast (by omega) hlt,
    hcast le_rfl (by omega), hcast (by omega) (by omega)]
  tauto

/-- **The identity behind the map**, for the values that the code computes: modulo any prime the second one is `-u ^ 6`
times the first one, and modulo a prime that is 3 mod 4 both are zero or exactly one of them is a square. -/
theorem swu_identity {p : ℕ} (hp : p.Prime) {a u : ℤ} (ha : 0 < a ∧ a < p) (b : ℤ) (hu : 0 ≤ u ∧ u < p) (h0 : u ≠ 0)
    (h1 : u ≠ 1) (hm : u ≠ p - 1) :
    Prototype.g (Prototype.x1 u a b p) a b p ≡ -u ^ 6 * Prototype.g (Prototype.x0 u a b p) a b p [ZMOD p] ∧
      (p % 4 = 3 → (Prototype.g (Prototype.x0 u a b p) a b p = 0 ∧ Prototype.g (Prototype.x1 u a b p) a b p = 0) ∨
        Xor (∃ y : ℤ, y ^ 2 ≡ Prototype.g (Prototype.x0 u a b p) a b p [ZMOD p])
          (∃ y : ℤ, y ^ 2 ≡ Prototype.g (Prototype.x1 u a b p) a b p [ZMOD p])) := by
  have := Fact.mk hp
  have ha0 : (a : ZMod p) ≠ 0 := fun h =>
    ha.1.ne' (eq_of_cast_eq ha.1.le ha.2 le_rfl cast_pos (h.trans Int.cast_zero.symm))
  obtain ⟨hu0, hu1⟩ := not_or.1 (mt (zero_or_sq_eq_one_iff hu.1 hu.2).1 (by tauto))
  have hid := Swu.g_x1 (b := (b : ZMod p)) ha0 hu0 hu1
  refine ⟨?_, fun h4 => ?_⟩
  · rw [← ZMod.intCast_eq_intCast_iff]
    push_cast
    rwa [Prototype.cast_g, Prototype.cast_g, Prototype.cast_x0, Prototype.cast_x1]
  · rw [Prototype.g_eq_zero_iff, Prototype.g_eq_zero_iff, ← Residue.isSquare_intCast_iff, ← Residue.isSquare_intCast_iff,
      Prototype.cast_g, Prototype.cast_g, Prototype.cast_x0, Prototype.cast_x1, hid]
    by_cases hg : Swu.g (a : ZMod p) b (Swu.x0 a b u) = 0
    · rw [hg, mul_zero]
      exact .inl ⟨rfl, rfl⟩
    · rw [show -(u : ZMod p) ^ 6 = -((u : ZMod p) ^ 3) ^ 2 by ring,
        Residue.isSquare_neg_sq_mul_iff h4 (pow_ne_zero 3 hu0) hg, xor_iff_iff_not, not_not]
      exact .inr Iff.rfl

/-- The identity modulo 13, which is 1 mod 4, and the squares modulo 23, which is 3 mod 4. -/
theorem swu_identity_small :
    Prototype.g (Prototype.x1 5 1 4 13) 1 4 13 ≡ -5 ^ 6 * Prototype.g (Prototype.x0 5 1 4 13) 1 4 13 [ZMOD 13] ∧
      Xor (∃ y : ℤ, y ^ 2 ≡ Prototype.g (Prototype.x0 5 1 4 23) 1 4 23 [ZMOD 23])
        (∃ y : ℤ, y ^ 2 ≡ Prototype.g (Prototype.x1 5 1 4 23) 1 4 23 [ZMOD 23]) := by
  have hne : ¬(Prototype.g (Prototype.x0 5 1 4 23) 1 4 23 = 0 ∧ Prototype.g (Prototype.x1 5 1 4 23) 1 4 23 = 0) := by
    decide +kernel
  obtain ⟨hid, -⟩ := @swu_identity 13 (by decide) 1 5 (by decide) 4 (by decide) (by decide) (by decide) (by decide)
  obtain ⟨-, hsq⟩ := @swu_identity 23 (by decide) 1 5 (by decide) 4 (by decide) (by decide) (by decide) (by decide)
  exact ⟨hid, (hsq (by decide)).resolve_left hne⟩

end DecoyAuth.Encode
