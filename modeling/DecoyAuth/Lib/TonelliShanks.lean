import Mathlib.Algebra.Field.Basic
import Mathlib.Algebra.Ring.Parity
import Mathlib.Tactic.LinearCombination
import Mathlib.Tactic.Ring

/-!
# The algorithm of Tonelli and Shanks

The state is a candidate `x` with `x ^ 2 = a * b`, where the order of the error `b` divides `2 ^ (r - 1)` and `g` has the
order `2 ^ r`. If `2 ^ m` is the order of `b`, the power `g ^ 2 ^ (r - m)` removes its highest part, so that the new error
has an order that divides `2 ^ (m - 1)` (`Invariant.correct`).
-/

namespace DecoyAuth.TonelliShanks

variable {F : Type*} [Field F] {a x b g n : F} {r m : ℕ}

/-- What holds before each pass. -/
structure Invariant (a x b g : F) (r : ℕ) : Prop where
  sq : x ^ 2 = a * b
  pow_b : b ^ 2 ^ (r - 1) = 1
  pow_g : g ^ 2 ^ (r - 1) = -1
  pos : 1 ≤ r

/-- The first candidate, for an exponent `s * 2 ^ (e - 1)` that sends `a` to one and `n` to minus one. -/
theorem Invariant.start {s e : ℕ} (hs : Odd s) (he : 1 ≤ e) (ha : a ^ (s * 2 ^ (e - 1)) = 1)
    (hn : n ^ (s * 2 ^ (e - 1)) = -1) : Invariant a (a ^ ((s + 1) / 2)) (a ^ s) (n ^ s) e := by
  obtain ⟨k, rfl⟩ := hs
  refine ⟨?_, by rwa [← pow_mul], by rwa [← pow_mul], he⟩
  rw [← pow_mul, ← pow_succ']
  congr 1
  omega

/-- A root of one that is not one is minus one. -/
theorem pow_eq_neg_one (h : b ^ 2 ^ (m + 1) = 1) (hne : b ^ 2 ^ m ≠ 1) : b ^ 2 ^ m = -1 := by
  rw [pow_succ, pow_mul] at h
  exact (sq_eq_one_iff.1 h).resolve_left hne

/-- **The correction** by `gs = g ^ 2 ^ (r - m - 1)` for an error of order `2 ^ m`. -/
theorem Invariant.correct (h : Invariant a x b g r) {gs : F} (hm : 1 ≤ m) (hmr : m < r) (hgs : gs = g ^ 2 ^ (r - m - 1))
    (hb : b ^ 2 ^ m = 1) (hne : b ^ 2 ^ (m - 1) ≠ 1) : Invariant a (x * gs) (b * (gs * gs)) (gs * gs) m := by
  obtain ⟨k, rfl⟩ : ∃ k, m = k + 1 := ⟨m - 1, by omega⟩
  rw [Nat.add_sub_cancel] at hne
  have hneg := pow_eq_neg_one hb hne
  have hg : (gs * gs) ^ 2 ^ k = -1 := by
    rw [hgs, ← pow_add, ← pow_mul, ← h.pow_g]
    congr 1
    rw [← mul_two, ← pow_succ, ← pow_add]
    congr 1
    omega
  refine ⟨?_, ?_, hg, hm⟩
  · rw [mul_pow, h.sq]
    ring
  · rw [Nat.add_sub_cancel, mul_pow, hneg, hg]
    ring

/-- Without an error the candidate is a root. -/
theorem Invariant.sq_eq (h : Invariant a x b g r) (hb : b = 1) : x ^ 2 = a := by
  rw [h.sq, hb, mul_one]

end DecoyAuth.TonelliShanks
