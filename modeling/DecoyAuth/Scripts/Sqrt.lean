import DecoyAuth.Scripts.Util
import Mathlib.FieldTheory.Finite.Basic
import Mathlib.Tactic.NormNum.Prime

/-!
# The square roots of the Python scripts

`modular_sqrt` of `scripts/util.py` for every odd prime. Each of its loops has an invariant and a variant:

- the even part of `p - 1` is split off (`exists_oddPart`);
- the search for a non-residue ends below `p` (`exists_nonResidue`);
- a pass of the last loop lowers the order of the error, because the inner loop finds that order (`orderLoop_spec`) and the
  correction removes its highest part (`exists_tonelli`).

`modularSqrt_spec` puts them together.
-/

namespace DecoyAuth.Util

open TonelliShanks

variable {p : ℕ} [Fact p.Prime]

/-! ## The first two loops -/

theorem oddPartStep_inl {k s e : ℕ} {st : ℕ × ℕ} (hinv : 0 < s ∧ s * 2 ^ e = k) (h : oddPartStep (s, e) = .inl st) :
    (0 < st.1 ∧ st.1 * 2 ^ st.2 = k) ∧ st.1 < s := by
  simp only [oddPartStep] at h
  split at h
  · next heven =>
    cases h
    have hs : s = s / 2 * 2 := by omega
    refine ⟨⟨by dsimp only; omega, ?_⟩, by dsimp only; omega⟩
    calc s / 2 * 2 ^ (e + 1) = s / 2 * 2 * 2 ^ e := by ring
      _ = k := by rw [← hs, hinv.2]
  · cases h

theorem oddPartStep_inr {s e : ℕ} {st : ℕ × ℕ} (h : oddPartStep (s, e) = .inr st) : st = (s, e) ∧ Odd s := by
  simp only [oddPartStep] at h
  split at h
  · cases h
  · next hodd =>
    cases h
    exact ⟨rfl, Nat.odd_iff.2 (by omega)⟩

theorem exists_oddPart {k : ℕ} (hk : 0 < k) : ∃ s e, (Odd s ∧ s * 2 ^ e = k) ∧
    ∀ fuel, k < fuel → Loop.run oddPartStep fuel (k, 0) = some (s, e) := by
  obtain ⟨⟨s, e⟩, hpost, hrun⟩ := Loop.exists_run (fun st => 0 < st.1 ∧ st.1 * 2 ^ st.2 = k) Prod.fst
    (fun st => Odd st.1 ∧ st.1 * 2 ^ st.2 = k) (fun _ _ hinv h => oddPartStep_inl hinv h)
    (fun st r hinv h => by
      obtain ⟨rfl, hodd⟩ := oddPartStep_inr h
      exact ⟨hodd, hinv.2⟩)
    (show 0 < (k, 0).1 ∧ (k, 0).1 * 2 ^ (k, 0).2 = k from ⟨hk, by simp⟩)
  exact ⟨s, e, hpost, hrun⟩

section NonResidue

variable (h2 : p ≠ 2)
include h2

theorem exists_not_isSquare : ∃ c : ZMod p, ¬IsSquare c ∧ 2 ≤ c.val := by
  obtain ⟨c, hc⟩ := FiniteField.exists_nonsquare (F := ZMod p) (by rwa [ZMod.ringChar_zmod_n])
  refine ⟨c, hc, ?_⟩
  -- zero and one are squares
  by_contra h
  have hval : c.val = 0 ∨ c.val = 1 := by omega
  rcases hval with h0 | h1
  · exact hc ((ZMod.val_eq_zero c).1 h0 ▸ IsSquare.zero)
  · have hone : c = 1 := by rw [← ZMod.natCast_zmod_val c, h1, Nat.cast_one]
    exact hc (hone ▸ IsSquare.one)

/-- The search does not pass a non-residue. -/
theorem nonResidueStep_inl {c : ZMod p} (hc : ¬IsSquare c) {n n' : ℤ} (hle : n ≤ c.val)
    (h : nonResidueStep p n = .inl n') : n' = n + 1 ∧ n' ≤ c.val := by
  unfold nonResidueStep at h
  split at h
  · next hl =>
    cases h
    have hne : n ≠ (c.val : ℤ) := by
      rintro rfl
      refine hl ((legendreSymbol_eq_neg_one_iff h2).2 ?_)
      rwa [Int.cast_natCast, ZMod.natCast_zmod_val]
    exact ⟨rfl, by omega⟩
  · cases h

theorem nonResidueStep_inr {n n' : ℤ} (h : nonResidueStep p n = .inr n') : ¬IsSquare (n' : ZMod p) := by
  unfold nonResidueStep at h
  split at h
  · cases h
  · next hl =>
    cases h
    exact (legendreSymbol_eq_neg_one_iff h2).1 (not_not.1 hl)

theorem exists_nonResidue : ∃ n : ℤ, ¬IsSquare (n : ZMod p) ∧
    ∀ fuel, p ≤ fuel → Loop.run (nonResidueStep p) fuel 2 = some n := by
  obtain ⟨c, hc, hc2⟩ := exists_not_isSquare h2
  obtain ⟨n, hn, hrun⟩ := Loop.exists_run (fun n => n ≤ (c.val : ℤ)) (fun n => (c.val - n).toNat)
    (fun n : ℤ => ¬IsSquare (n : ZMod p))
    (fun n n' hle h => by
      obtain ⟨rfl, hle'⟩ := nonResidueStep_inl h2 hc hle h
      exact ⟨hle', by omega⟩)
    (fun _ _ _ h => nonResidueStep_inr h2 h) (show (2 : ℤ) ≤ c.val by exact_mod_cast hc2)
  have hlt := c.val_lt
  exact ⟨n, hn, fun fuel hf => hrun fuel (by omega)⟩

end NonResidue

/-! ## The loop of Tonelli and Shanks -/

/-- What the inner loop finds: the first exponent at which the power is one. -/
theorem orderLoop_spec {b : ZMod p} : ∀ (k i : ℕ) {t : ℤ} (m : ℕ), 0 ≤ t ∧ t < p → (t : ZMod p) = b ^ 2 ^ i →
    (∃ j, i ≤ j ∧ j < i + k ∧ b ^ 2 ^ j = 1) →
      i ≤ orderLoop p (List.range' i k) t m ∧ orderLoop p (List.range' i k) t m < i + k ∧
        b ^ 2 ^ orderLoop p (List.range' i k) t m = 1 ∧
        ∀ j, i ≤ j → j < orderLoop p (List.range' i k) t m → b ^ 2 ^ j ≠ 1 := by
  intro k
  induction k with
  | zero =>
    rintro i t m - - ⟨j, hij, hj, -⟩
    omega
  | succ k ih =>
    intro i t m hrange ht hex
    have hlt : (1 : ℤ) < p := by exact_mod_cast (Fact.out : p.Prime).one_lt
    have hone : t = 1 ↔ b ^ 2 ^ i = 1 := by
      rw [← ht]
      constructor
      · rintro rfl
        exact Int.cast_one
      · intro h
        exact eq_of_cast_eq hrange.1 hrange.2 zero_le_one hlt (h.trans Int.cast_one.symm)
    rw [List.range'_succ, orderLoop]
    by_cases h : t = 1
    · rw [if_pos h]
      exact ⟨le_rfl, by omega, hone.1 h, fun j hij hji => by omega⟩
    · rw [if_neg h]
      obtain ⟨j, hij, hj, hpow⟩ := hex
      have hne : b ^ 2 ^ i ≠ 1 := mt hone.2 h
      have hji : j ≠ i := by
        rintro rfl
        exact hne hpow
      have hnext : ((bnModExp t 2 p : ℤ) : ZMod p) = b ^ 2 ^ (i + 1) := by
        rw [cast_bnModExp, ht, ← pow_mul, pow_succ]
      obtain ⟨hle, hlt, hpow, hmin⟩ := ih (i + 1) i (bnModExp_range cast_pos t 2) hnext
        ⟨j, by omega, by omega, hpow⟩
      refine ⟨by omega, by omega, hpow, fun j hij hji => ?_⟩
      rcases Nat.eq_or_lt_of_le hij with rfl | hij
      · exact hne
      · exact hmin j hij hji

/-- The invariant of the loop, on reduced integers. -/
structure TonelliInv (p : ℕ) [Fact p.Prime] (a : ZMod p) (st : Tonelli) : Prop where
  residues : Invariant a (st.x : ZMod p) st.b st.g st.r
  x_range : 0 ≤ st.x ∧ st.x < p
  b_range : 0 ≤ st.b ∧ st.b < p

section Step

variable {a : ZMod p} {st st' : Tonelli}

theorem TonelliInv.order (h : TonelliInv p a st) :
    orderLoop p (List.range st.r) st.b 0 < st.r ∧ (st.b : ZMod p) ^ 2 ^ orderLoop p (List.range st.r) st.b 0 = 1 ∧
      ∀ j < orderLoop p (List.range st.r) st.b 0, (st.b : ZMod p) ^ 2 ^ j ≠ 1 := by
  have hpos := h.residues.pos
  obtain ⟨-, hlt, hpow, hmin⟩ := orderLoop_spec (p := p) (b := (st.b : ZMod p)) st.r 0 0 h.b_range (by simp)
    ⟨st.r - 1, Nat.zero_le _, by omega, h.residues.pow_b⟩
  rw [← List.range_eq_range'] at hlt hpow hmin
  exact ⟨by omega, hpow, fun j hj => hmin j (Nat.zero_le j) hj⟩

/-- **One pass**: the invariant is kept and the bound on the order falls. -/
theorem TonelliInv.step (h : TonelliInv p a st) (hstep : tonelliStep p st = .inl st') :
    TonelliInv p a st' ∧ st'.r < st.r := by
  obtain ⟨hlt, hpow, hmin⟩ := h.order
  have hp : (0 : ℤ) < p := cast_pos
  simp only [tonelliStep] at hstep
  split at hstep
  · cases hstep
  · next hm =>
    cases hstep
    refine ⟨⟨?_, ⟨Int.emod_nonneg _ hp.ne', Int.emod_lt_of_pos _ hp⟩, Int.emod_nonneg _ hp.ne',
      Int.emod_lt_of_pos _ hp⟩, hlt⟩
    have hcorrect := h.residues.correct (Nat.pos_of_ne_zero hm) hlt rfl hpow (hmin _ (by omega))
    simpa only [ZMod.intCast_mod, Int.cast_mul, cast_bnModExp] using hcorrect

theorem TonelliInv.result (h : TonelliInv p a st) {x : ℤ} (hstep : tonelliStep p st = .inr x) :
    (x : ZMod p) ^ 2 = a ∧ 0 ≤ x ∧ x < p := by
  obtain ⟨-, hpow, -⟩ := h.order
  simp only [tonelliStep] at hstep
  split at hstep
  · next hm =>
    cases hstep
    rw [hm, pow_zero, pow_one] at hpow
    exact ⟨h.residues.sq_eq hpow, h.x_range⟩
  · cases hstep

/-- The loop ends after at most as many passes as the exponent of two in `p - 1`. -/
theorem exists_tonelli (h : TonelliInv p a st) : ∃ x : ℤ, ((x : ZMod p) ^ 2 = a ∧ 0 ≤ x ∧ x < p) ∧
    ∀ fuel, st.r < fuel → Loop.run (tonelliStep p) fuel st = some x :=
  Loop.exists_run (TonelliInv p a) Tonelli.r (fun x : ℤ => (x : ZMod p) ^ 2 = a ∧ 0 ≤ x ∧ x < p)
    (fun _ _ hinv => hinv.step) (fun _ _ hinv => hinv.result) h

end Step

/-! ## `modular_sqrt` -/

section Spec

variable {a : ℤ} (h2 : p ≠ 2) (h0 : (a : ZMod p) ≠ 0)
include h2 h0

/-- The start of the loop satisfies the invariant. -/
theorem tonelliInv_start {s e : ℕ} {n : ℤ} (hodd : Odd s) (hse : s * 2 ^ e = p - 1) (hs : IsSquare (a : ZMod p))
    (hn : ¬IsSquare (n : ZMod p)) :
    TonelliInv p (a : ZMod p) ⟨bnModExp a ((s + 1) / 2) p, bnModExp a s p, bnModExp n s p, e⟩ := by
  have hp : (0 : ℤ) < p := cast_pos
  have htwo := (Fact.out : p.Prime).two_le
  have hpodd : p % 2 = 1 := (Fact.out : p.Prime).eq_two_or_odd.resolve_left h2
  have he : 1 ≤ e := by
    by_contra h
    obtain rfl : e = 0 := by omega
    rw [pow_zero, mul_one] at hse
    have := Nat.odd_iff.1 hodd
    omega
  have hhalf : s * 2 ^ (e - 1) = p / 2 := by
    obtain ⟨k, rfl⟩ : ∃ k, e = k + 1 := ⟨e - 1, by omega⟩
    rw [pow_succ, ← mul_assoc] at hse
    rw [Nat.add_sub_cancel]
    omega
  have hn0 : (n : ZMod p) ≠ 0 := fun h => hn (h ▸ IsSquare.zero)
  refine ⟨?_, bnModExp_range hp _ _, bnModExp_range hp _ _⟩
  simp only [cast_bnModExp]
  refine Invariant.start hodd he ?_ ?_
  · rw [hhalf]
    exact (ZMod.euler_criterion p h0).1 hs
  · rw [hhalf]
    exact (ZMod.pow_div_two_eq_neg_one_or_one p hn0).resolve_left fun h => hn ((ZMod.euler_criterion p hn0).2 h)

/-- For a residue the function returns a root, of the two roots the one that is a residue if `p` is 3 mod 4. -/
theorem modularSqrtWithin_of_isSquare (hs : IsSquare (a : ZMod p)) : ∃ x : ℤ, (x : ZMod p) ^ 2 = a ∧ (0 ≤ x ∧ x < p) ∧
    (p % 4 = 3 → IsSquare (x : ZMod p)) ∧ ∀ fuel, p ≤ fuel → modularSqrtWithin fuel a p = some (some x) := by
  have ha : a ≠ 0 := by
    rintro rfl
    exact h0 Int.cast_zero
  have hl : ¬legendreSymbol a p ≠ 1 := not_not.2 ((legendreSymbol_eq_one_iff h2).2 ⟨h0, hs⟩)
  by_cases h4 : p % 4 = 3
  · refine ⟨bnModExp a ((p + 1) / 4) p, ?_, bnModExp_range cast_pos _ _, fun _ => ?_, fun fuel _ => ?_⟩
    · rw [cast_bnModExp, Residue.root_sq h4 hs]
    · rw [cast_bnModExp]
      exact Residue.isSquare_root hs
    · rw [modularSqrtWithin, if_neg hl, if_neg ha, if_pos h4]
  · have hp2 := (Fact.out : p.Prime).two_le
    obtain ⟨s, e, ⟨hodd, hse⟩, hrun⟩ := exists_oddPart (show 0 < p - 1 by omega)
    obtain ⟨n, hn, hrun'⟩ := exists_nonResidue h2
    obtain ⟨x, ⟨hsq, hrange⟩, hrun''⟩ := exists_tonelli (tonelliInv_start h2 h0 hodd hse hs hn)
    have hep : e < p := by
      have hlt : e < 2 ^ e := Nat.lt_two_pow_self
      have hle : 2 ^ e ≤ s * 2 ^ e := Nat.le_mul_of_pos_left _ hodd.pos
      omega
    refine ⟨x, hsq, hrange, fun h => absurd h h4, fun fuel hf => ?_⟩
    rw [modularSqrtWithin, if_neg hl, if_neg ha, if_neg h4, hrun fuel (by omega), Option.bind_eq_bind, Option.bind_some]
    simp only [hrun' fuel hf, hrun'' fuel (show e < fuel by omega), Option.bind_eq_bind, Option.bind_some, Option.pure_def]

omit h0 in
theorem modularSqrtWithin_of_not_isSquare (hs : ¬IsSquare (a : ZMod p)) (fuel : ℕ) :
    modularSqrtWithin fuel a p = some none := by
  rw [modularSqrtWithin, if_pos]
  intro hl
  exact hs ((legendreSymbol_eq_one_iff h2).1 hl).2

end Spec

/-- **`modular_sqrt` for an odd prime.** Its loops end within `p` passes; it returns `None` exactly for the integers that are
not squares mod `p`, and otherwise a reduced root, which is itself a square if `p` is 3 mod 4. -/
theorem modularSqrt_spec {p : ℕ} (hp : p.Prime) (h2 : p ≠ 2) {a : ℤ} (ha : ¬(p : ℤ) ∣ a) :
    (∀ fuel, p ≤ fuel → modularSqrtWithin fuel a p = some (modularSqrt a p)) ∧
      (modularSqrt a p = none ↔ ¬∃ y : ℤ, y ^ 2 ≡ a [ZMOD p]) ∧
      ∀ r, modularSqrt a p = some r → (0 < r ∧ r < p) ∧ r ^ 2 ≡ a [ZMOD p] ∧
        (p % 4 = 3 → ∃ y : ℤ, y ^ 2 ≡ r [ZMOD p]) := by
  have := Fact.mk hp
  have h0 : (a : ZMod p) ≠ 0 := fun h => ha ((ZMod.intCast_zmod_eq_zero_iff_dvd a p).1 h)
  rw [← Residue.isSquare_intCast_iff]
  by_cases hs : IsSquare (a : ZMod p)
  · obtain ⟨x, hsq, ⟨hx0, hxp⟩, hroot, hrun⟩ := modularSqrtWithin_of_isSquare h2 h0 hs
    have hx : modularSqrt a p = some x := by rw [modularSqrt, hrun p le_rfl, Option.getD_some]
    rw [hx]
    refine ⟨hrun, iff_of_false (Option.some_ne_none x) (not_not.2 hs), fun r hr => ?_⟩
    cases hr
    have hne : x ≠ 0 := by
      rintro rfl
      exact h0 (by rw [← hsq, Int.cast_zero, zero_pow two_ne_zero])
    refine ⟨⟨by omega, hxp⟩, (ZMod.intCast_eq_intCast_iff _ _ p).1 ?_, fun h4 => Residue.isSquare_intCast_iff.1 (hroot h4)⟩
    rw [Int.cast_pow, hsq]
  · have hn : modularSqrt a p = none := by
      rw [modularSqrt, modularSqrtWithin_of_not_isSquare h2 hs, Option.getD_some]
    rw [hn]
    refine ⟨fun fuel _ => modularSqrtWithin_of_not_isSquare h2 hs fuel, iff_of_true rfl hs, fun r hr => ?_⟩
    cases hr

/-- The root of the unreduced negative number -30 mod 17, where the last loop makes two passes. -/
theorem modularSqrt_spec_seventeen : ¬(17 : ℤ) ∣ -30 ∧ modularSqrt (-30) 17 = some 2 ∧
    ∀ fuel, 17 ≤ fuel → modularSqrtWithin fuel (-30) 17 = some (some 2) := by
  have hroot : modularSqrt (-30) 17 = some 2 := by decide +kernel
  obtain ⟨hrun, -, -⟩ := modularSqrt_spec (p := 17) (by norm_num) (by norm_num) (a := -30) (by decide)
  rw [hroot] at hrun
  exact ⟨by decide, hroot, hrun⟩

end DecoyAuth.Util
