import Mathlib.Data.ZMod.Basic
import Mathlib.Algebra.Field.ZMod
import DecoyAuth.Lib.Residue

/-!
# The bignum functions of OpenSSL

The `BN_*` functions that the weaver, the encoder and `sae.c` call, on integers. `BN_mod_add`, `BN_mod_sub`,
`BN_mod_mul` and `BN_mod_sqr` give the non-negative residue; `BN_mod` gives the remainder with the sign of the
dividend. `BN_mod_inverse` and `BN_mod_sqrt` fail with `NULL`, here `none`.
-/

namespace DecoyAuth

/-! ## Arithmetic -/

def bnModAdd (a b m : ℤ) : ℤ := (a + b) % m

def bnModSub (a b m : ℤ) : ℤ := (a - b) % m

def bnModMul (a b m : ℤ) : ℤ := (a * b) % m

def bnModSqr (a m : ℤ) : ℤ := (a * a) % m

/-- Square and multiply, the low bit of the exponent first. -/
def bnModExpAux (m : ℤ) : ℕ → ℤ → ℕ → ℤ → ℤ
  | 0, _, _, acc => acc
  | fuel + 1, a, e, acc =>
    if e = 0 then acc
    else bnModExpAux m fuel (a * a % m) (e / 2) (if e % 2 = 1 then acc * a % m else acc)

def bnModExp (a : ℤ) (e : ℕ) (m : ℤ) : ℤ := bnModExpAux m (e.log2 + 1) (a % m) e (1 % m)

/-- The remainder of the truncating division. -/
def bnMod (a m : ℤ) : ℤ := a.tmod m

/-- `BN_set_negative(a, 1)`; zero has no sign. -/
def bnSetNegative (a : ℤ) : ℤ := -(a.natAbs : ℤ)

/-- `BN_mod_inverse`: the inverse in `[0, m)`, or `NULL` when `a` is not a unit mod `m`. -/
def bnModInverse (a m : ℤ) : Option ℤ := if a.gcd m = 1 then some (a.gcdA m % m) else none

/-- `BN_mod_sqrt` for a prime `m` with `m % 4 = 3`: the power `a ^ ((m + 1) / 4)` when it squares to `a`. -/
def bnModSqrt (a m : ℤ) : Option ℤ :=
  let r := bnModExp a ((m.toNat + 1) / 4) m
  if r * r % m = a % m then some r else none

/-! ## Ranges -/

section Range

variable {m : ℤ} (hm : 0 < m) (a b : ℤ)
include hm

theorem bnModAdd_nonneg : 0 ≤ bnModAdd a b m := Int.emod_nonneg _ hm.ne'

theorem bnModAdd_lt : bnModAdd a b m < m := Int.emod_lt_of_pos _ hm

theorem bnModMul_nonneg : 0 ≤ bnModMul a b m := Int.emod_nonneg _ hm.ne'

theorem bnModMul_lt : bnModMul a b m < m := Int.emod_lt_of_pos _ hm

end Range

/-! ## Residues -/

section Cast

variable {p : ℕ}

@[simp] theorem cast_bnModAdd (a b : ℤ) : ((bnModAdd a b p : ℤ) : ZMod p) = a + b := by
  simp [bnModAdd]

@[simp] theorem cast_bnModSub (a b : ℤ) : ((bnModSub a b p : ℤ) : ZMod p) = a - b := by
  simp [bnModSub]

@[simp] theorem cast_bnModMul (a b : ℤ) : ((bnModMul a b p : ℤ) : ZMod p) = a * b := by
  simp [bnModMul]

@[simp] theorem cast_bnModSqr (a : ℤ) : ((bnModSqr a p : ℤ) : ZMod p) = a * a := by
  simp [bnModSqr]

theorem cast_bnModExpAux : ∀ (fuel : ℕ) (a : ℤ) (e : ℕ) (acc : ℤ), e < 2 ^ fuel →
    ((bnModExpAux p fuel a e acc : ℤ) : ZMod p) = acc * (a : ZMod p) ^ e
  | 0, a, e, acc, he => by
    obtain rfl : e = 0 := by simpa using he
    simp [bnModExpAux]
  | fuel + 1, a, e, acc, he => by
    unfold bnModExpAux
    split
    · next h => simp [h]
    · next h =>
      rw [cast_bnModExpAux fuel _ _ _ (by rw [pow_succ] at he; omega)]
      have hsq : ((a * a % p : ℤ) : ZMod p) ^ (e / 2) = (a : ZMod p) ^ (2 * (e / 2)) := by
        rw [ZMod.intCast_mod, Int.cast_mul, ← pow_two, pow_mul]
      rw [hsq]
      split
      · next ho =>
        rw [ZMod.intCast_mod, Int.cast_mul, mul_assoc, ← pow_succ']
        congr 2; omega
      · next ho => congr 2; omega

@[simp] theorem cast_bnModExp (a : ℤ) (e : ℕ) : ((bnModExp a e p : ℤ) : ZMod p) = (a : ZMod p) ^ e := by
  rw [bnModExp, cast_bnModExpAux _ _ _ _ Nat.lt_log2_self]
  simp

theorem bnSetNegative_of_nonneg {a : ℤ} (h : 0 ≤ a) : bnSetNegative a = -a := by
  simp [bnSetNegative, abs_of_nonneg h]

/-- A residue is determined by its class. -/
theorem eq_of_cast_eq {a b : ℤ} (ha : 0 ≤ a) (ha' : a < p) (hb : 0 ≤ b) (hb' : b < p)
    (h : (a : ZMod p) = b) : a = b := by
  have h' := (ZMod.intCast_eq_intCast_iff' a b p).1 h
  rwa [Int.emod_eq_of_lt ha ha', Int.emod_eq_of_lt hb hb'] at h'

variable [Fact p.Prime]

theorem gcd_eq_one_iff (a : ℤ) : a.gcd p = 1 ↔ (a : ZMod p) ≠ 0 := by
  have hp : p.Prime := Fact.out
  rw [Ne, ZMod.intCast_zmod_eq_zero_iff_dvd, Int.natCast_dvd, ← hp.coprime_iff_not_dvd, Nat.coprime_comm]
  rfl

/-- Modulo a prime exactly the multiples of the prime have no inverse. -/
theorem bnModInverse_eq_none {a : ℤ} : bnModInverse a p = none ↔ (a : ZMod p) = 0 := by
  unfold bnModInverse
  split
  · next h => simpa using (gcd_eq_one_iff a).1 h
  · next h => simpa using fun h' => h ((gcd_eq_one_iff a).2 h')

theorem cast_bnModInverse {a r : ℤ} (h : bnModInverse a p = some r) : (r : ZMod p) = (a : ZMod p)⁻¹ := by
  unfold bnModInverse at h
  split at h
  · next hg =>
    cases h
    have hb : ((a.gcd p : ℤ) : ZMod p) = a * (a.gcdA p : ℤ) := by
      rw [Int.gcd_eq_gcd_ab]; push_cast; simp
    rw [hg, Nat.cast_one, Int.cast_one] at hb
    rw [ZMod.intCast_mod]
    exact eq_inv_of_mul_eq_one_right hb.symm
  · cases h

/-- A failed inversion leaves its fresh output at zero, which is what the field's inverse of zero is. -/
theorem cast_bnModInverse_getD (a : ℤ) : (((bnModInverse a p).getD 0 : ℤ) : ZMod p) = (a : ZMod p)⁻¹ := by
  cases h : bnModInverse a p with
  | none => simp [bnModInverse_eq_none.1 h]
  | some r => simpa using cast_bnModInverse h

end Cast

/-! ## Square roots -/

section Sqrt

variable {p : ℕ} [Fact p.Prime]

theorem bnModExpAux_range {m : ℤ} (hm : 0 < m) : ∀ (fuel : ℕ) (a : ℤ) (e : ℕ) (acc : ℤ), 0 ≤ acc ∧ acc < m →
    0 ≤ bnModExpAux m fuel a e acc ∧ bnModExpAux m fuel a e acc < m
  | 0, _, _, _, h => h
  | fuel + 1, a, e, acc, h => by
    unfold bnModExpAux
    split
    · exact h
    · refine bnModExpAux_range hm fuel _ _ _ ?_
      split
      · exact ⟨Int.emod_nonneg _ hm.ne', Int.emod_lt_of_pos _ hm⟩
      · exact h

theorem bnModExp_range {m : ℤ} (hm : 0 < m) (a : ℤ) (e : ℕ) : 0 ≤ bnModExp a e m ∧ bnModExp a e m < m :=
  bnModExpAux_range hm _ _ _ _ ⟨Int.emod_nonneg _ hm.ne', Int.emod_lt_of_pos _ hm⟩

theorem cast_pos : (0 : ℤ) < p := Int.natCast_pos.2 (Fact.out : p.Prime).pos

/-- A result of `BN_mod_sqrt` is a reduced root, and of the two roots the one that is a square. -/
theorem bnModSqrt_some {a r : ℤ} (h : bnModSqrt a p = some r) :
    0 ≤ r ∧ r < p ∧ (r : ZMod p) ^ 2 = a ∧ IsSquare (r : ZMod p) := by
  simp only [bnModSqrt] at h
  split at h
  · next hr =>
    cases h
    have hrange := bnModExp_range (cast_pos (p := p)) a (((p : ℤ).toNat + 1) / 4)
    have hsq : (bnModExp a (((p : ℤ).toNat + 1) / 4) p : ZMod p) ^ 2 = a := by
      rw [pow_two, ← Int.cast_mul]
      exact (ZMod.intCast_eq_intCast_iff' _ _ p).2 hr
    refine ⟨hrange.1, hrange.2, hsq, ?_⟩
    rw [cast_bnModExp]
    exact IsSquare.pow _ ⟨_, by rw [← hsq, pow_two]⟩
  · cases h

theorem bnModSqrt_eq_none (h4 : p % 4 = 3) {a : ℤ} : bnModSqrt a p = none ↔ ¬IsSquare (a : ZMod p) := by
  constructor
  · intro h hs
    have hr := Residue.root_sq h4 hs
    simp only [bnModSqrt] at h
    split at h
    · cases h
    · next hne =>
      refine hne ((ZMod.intCast_eq_intCast_iff' _ _ p).1 ?_)
      rw [Int.cast_mul, cast_bnModExp, ← pow_two, Int.toNat_natCast, hr]
  · intro h
    cases hs : bnModSqrt a p with
    | none => rfl
    | some r =>
      obtain ⟨-, -, hsq, -⟩ := bnModSqrt_some hs
      exact absurd ⟨_, by rw [← hsq, pow_two]⟩ h

theorem bnModSqrt_eq_some (h4 : p % 4 = 3) {a y : ℤ} (hy : IsSquare (y : ZMod p)) (h0 : 0 ≤ y) (hp : y < p)
    (h : (y : ZMod p) ^ 2 = a) : bnModSqrt a p = some y := by
  cases hs : bnModSqrt a p with
  | none => exact absurd ⟨_, by rw [← h, pow_two]⟩ ((bnModSqrt_eq_none h4).1 hs)
  | some r =>
    obtain ⟨hr0, hrp, hsq, hrs⟩ := bnModSqrt_some hs
    have he : (r : ZMod p) = y := (Residue.eq_root h4 hrs hsq).trans (Residue.eq_root h4 hy h).symm
    rw [eq_of_cast_eq hr0 hrp h0 hp he]

end Sqrt

end DecoyAuth
