import DecoyAuth.Sae.Pwe
import Mathlib.NumberTheory.LegendreSymbol.QuadraticReciprocity

/-!
# The password element does not depend on the draws

`sae_derive_pwe_ecc` blinds its residue tests with random numbers and goes on with a random password after it has found a
candidate. Neither shows in the result: two derivations for one password between the same two addresses that succeed have
found the same point (`saeDerivePweEcc_agree`), which is on the curve.
-/

namespace DecoyAuth

/-! ## The residue test -/

/-- The residues that `dragonfly_get_random_qr_qnr` finds. -/
theorem dragonflyGetRandomQrQnr_some {p : ℕ} {draws : List ℕ} {r n : Option ℤ} {qr qnr : ℤ}
    (hr : ∀ x, r = some x → legendre x p = 1) (hn : ∀ x, n = some x → legendre x p = -1)
    (h : dragonflyGetRandomQrQnr p draws r n = some (qr, qnr)) : legendre qr p = 1 ∧ legendre qnr p = -1 := by
  induction draws generalizing r n with
  | nil =>
    cases r with
    | none => cases n <;> cases h
    | some r =>
      cases n with
      | none => cases h
      | some n => cases h; exact ⟨hr _ rfl, hn _ rfl⟩
  | cons draw draws ih =>
    unfold dragonflyGetRandomQrQnr at h
    split at h
    · cases h; exact ⟨hr _ rfl, hn _ rfl⟩
    · next heq _ => cases heq
    · next heq _ =>
      cases heq
      dsimp only at h
      split at h
      · next hd => exact ih (by rintro x ⟨⟩; exact hd.1) hn h
      · split at h
        · next hd => exact ih hr (by rintro x ⟨⟩; exact hd.1) h
        · exact ih hr hn h

section Residue

variable {p : ℕ} [Fact p.Prime]

theorem legendre_eq (h2 : p ≠ 2) (a : ℤ) : legendre a p = legendreSym p a := by
  have hp : p.Prime := Fact.out
  have h1 : (1 : ℤ) < p := by exact_mod_cast hp.one_lt
  have hodd : (p - 1) / 2 = p / 2 := by
    have := hp.eq_two_or_odd
    omega
  have hrange := bnModExp_range (cast_pos (p := p)) a ((p - 1) / 2)
  have hcast : ((bnModExp a ((p - 1) / 2) p : ℤ) : ZMod p) = (legendreSym p a : ℤ) := by
    rw [cast_bnModExp, legendreSym.eq_pow, hodd]
  unfold legendre
  by_cases h0 : (a : ZMod p) = 0
  · have hz := (legendreSym.eq_zero_iff p a).2 h0
    rw [hz, Int.cast_zero] at hcast
    have := eq_of_cast_eq hrange.1 hrange.2 le_rfl (by omega) (hcast.trans Int.cast_zero.symm)
    simp [this, hz]
  · rcases legendreSym.eq_one_or_neg_one p h0 with hs | hs
    · rw [hs] at hcast
      have := eq_of_cast_eq hrange.1 hrange.2 zero_le_one h1 hcast
      simp [this, hs]
    · rw [hs] at hcast
      have hne0 : bnModExp a ((p - 1) / 2) p ≠ 0 := by
        intro h
        rw [h] at hcast
        simp at hcast
      have hne1 : bnModExp a ((p - 1) / 2) p ≠ 1 := by
        intro h
        rw [h] at hcast
        have : Fact (2 < p) := ⟨lt_of_le_of_ne hp.two_le (Ne.symm h2)⟩
        exact ZMod.neg_one_ne_one (by simpa using hcast.symm)
      simp [hne0, hne1, hs]

theorem legendreSym_emod_mul (a b : ℤ) : legendreSym p (a * b % p) = legendreSym p a * legendreSym p b := by
  rw [← legendreSym.mod, legendreSym.mul]

/-- The blinded test says whether the value is a residue, whatever the blinding. -/
theorem dragonflyIsQuadraticResidueBlind_some (h2 : p ≠ 2) {qr qnr val : ℤ} {draw : Option ℕ} {res : Bool}
    (hqr : legendre qr p = 1) (hqnr : legendre qnr p = -1)
    (h : dragonflyIsQuadraticResidueBlind p qr qnr val draw = some res) : res = decide (legendre val p = 1) := by
  have hp : p.Prime := Fact.out
  obtain ⟨d, hd, h⟩ := Option.bind_eq_some_iff.1 h
  have hpos : 0 < p - 1 := by have := hp.two_le; omega
  have hlt := Nat.mod_lt d hpos
  set r : ℤ := ((d % (p - 1) : ℕ) : ℤ) + 1 with hr
  have hr0 : ((r : ℤ) : ZMod p) ≠ 0 := by
    rw [hr, Ne, ZMod.intCast_zmod_eq_zero_iff_dvd]
    intro hdvd
    have := Int.le_of_dvd (by omega) hdvd
    omega
  have hsq : legendreSym p r * legendreSym p r = 1 := by rw [← pow_two]; exact legendreSym.sq_one p hr0
  have hblind : ∀ q : ℤ, legendre (bnModMul (bnModMul (bnModMul val r p) r p) q p) p = legendre val p * legendre q p := by
    intro q
    simp only [legendre_eq h2, bnModMul, legendreSym_emod_mul]
    linear_combination (legendreSym p val * legendreSym p q) * hsq
  by_cases hodd : r % 2 = 1
  · simp only [hodd, if_true, hblind, hqr, mul_one, Option.pure_def, Option.some.injEq] at h
    exact h.symm
  · simp only [hodd, if_false, hblind, hqnr, Option.pure_def, Option.some.injEq] at h
    rw [← h, decide_eq_decide]
    omega

end Residue

/-! ## The loop -/

theorem EcParams.prime_ne_two (ec : EcParams) : ec.prime ≠ 2 := by
  have := ec.prime_mod_four
  omega

section Loop

variable {H : HashFns} {ec : EcParams} {addrs password : Bytes}

/-- What decides the search: a candidate is good if it is in range and the square of an ordinate. -/
def goodCandidate (H : HashFns) (ec : EcParams) (seed : Bytes) : Bool :=
  decide (Bytes.ofBe (pwdValueEcc H ec seed) < ec.prime) &&
    decide (legendre (computeYSqr ec (Bytes.ofBe (pwdValueEcc H ec seed))) ec.prime = 1)

theorem saeTestPwdSeedEcc_some {seed : Bytes} {qr qnr : ℤ} {draw : Option ℕ} {out : Bool × Bytes}
    (hqr : legendre qr ec.prime = 1) (hqnr : legendre qnr ec.prime = -1)
    (h : saeTestPwdSeedEcc H ec seed qr qnr draw = some out) :
    out = (goodCandidate H ec seed, pwdValueEcc H ec seed) := by
  obtain ⟨res, hres, h⟩ := Option.bind_eq_some_iff.1 h
  rw [dragonflyIsQuadraticResidueBlind_some ec.prime_ne_two hqr hqnr hres] at h
  exact (Option.some.inj h).symm

/-- One iteration without the draws. -/
def searchStep (H : HashFns) (ec : EcParams) (addrs password : Bytes) (counter : ℕ) (st : PweSearch) : PweSearch :=
  if st.found then st
  else
    let seed := pwdSeed H addrs password counter
    ⟨goodCandidate H ec seed, pwdValueEcc H ec seed, (seed.getD 31 0).toNat % 2 = 1⟩

theorem pweIteration_some {qr qnr : ℤ} {draws : PweDraws} {counter : ℕ} {st st' : PweSearch}
    (hqr : legendre qr ec.prime = 1) (hqnr : legendre qnr ec.prime = -1)
    (h : pweIteration H ec addrs password qr qnr draws counter st = some st') :
    st' = searchStep H ec addrs password counter st := by
  obtain ⟨⟨res, cand⟩, hres, h⟩ := Option.bind_eq_some_iff.1 h
  cases saeTestPwdSeedEcc_some hqr hqnr hres
  obtain ⟨found, xBin, odd⟩ := st
  cases found with
  | false => exact (Option.some.inj h).symm
  | true => exact (Option.some.inj h).symm

/-- The draws of two derivations of one password element. -/
theorem pweLoop_agree {k : ℕ} {qr₁ qnr₁ qr₂ qnr₂ : ℤ} {draws₁ draws₂ : PweDraws}
    (hqr₁ : legendre qr₁ ec.prime = 1) (hqnr₁ : legendre qnr₁ ec.prime = -1) (hqr₂ : legendre qr₂ ec.prime = 1)
    (hqnr₂ : legendre qnr₂ ec.prime = -1) : ∀ {fuel counter : ℕ} {st st₁ st₂ : PweSearch},
    pweLoop H ec k addrs password qr₁ qnr₁ draws₁ fuel counter st = some st₁ →
      pweLoop H ec k addrs password qr₂ qnr₂ draws₂ fuel counter st = some st₂ → st₁ = st₂
  | 0, _, _, _, _, h₁, h₂ => Option.some.inj (h₁.symm.trans h₂)
  | fuel + 1, counter, st, st₁, st₂, h₁, h₂ => by
    unfold pweLoop at h₁ h₂
    split at h₁
    · next hc =>
      rw [if_pos hc] at h₂
      obtain ⟨t₁, ht₁, h₁⟩ := Option.bind_eq_some_iff.1 h₁
      obtain ⟨t₂, ht₂, h₂⟩ := Option.bind_eq_some_iff.1 h₂
      rw [pweIteration_some hqr₁ hqnr₁ ht₁] at h₁
      rw [pweIteration_some hqr₂ hqnr₂ ht₂] at h₂
      exact pweLoop_agree hqr₁ hqnr₁ hqr₂ hqnr₂ h₁ h₂
    · next hc =>
      rw [if_neg hc] at h₂
      exact Option.some.inj (h₁.symm.trans h₂)

end Loop

/-! ## The element -/

theorem saePwdSeedKey_comm (addr1 addr2 : MacAddr) : saePwdSeedKey addr1 addr2 = saePwdSeedKey addr2 addr1 := by
  unfold saePwdSeedKey
  rcases lt_trichotomy (Bytes.ofBe addr1.1) (Bytes.ofBe addr2.1) with h | h | h
  · rw [if_neg (by omega), if_pos h]
  · rw [Bytes.ofBe_inj (addr1.2.trans addr2.2.symm) h]
  · rw [if_pos h, if_neg (by omega)]

variable {H : HashFns} {ec : EcParams} {group : ℕ} {addr1 addr2 : MacAddr} {password : Bytes}

/-- **Two derivations of a password element agree**, also with the addresses in the other order. -/
theorem saeDerivePweEcc_agree {draws₁ draws₂ : PweDraws} {P Q : EcPoint}
    (hP : saeDerivePweEcc H ec group addr1 addr2 password draws₁ = some P)
    (hQ : saeDerivePweEcc H ec group addr2 addr1 password draws₂ = some Q) : P = Q := by
  obtain ⟨⟨qr₁, qnr₁⟩, hres₁, hP⟩ := Option.bind_eq_some_iff.1 hP
  obtain ⟨⟨qr₂, qnr₂⟩, hres₂, hQ⟩ := Option.bind_eq_some_iff.1 hQ
  obtain ⟨hqr₁, hqnr₁⟩ := dragonflyGetRandomQrQnr_some (by simp) (by simp) hres₁
  obtain ⟨hqr₂, hqnr₂⟩ := dragonflyGetRandomQrQnr_some (by simp) (by simp) hres₂
  obtain ⟨st₁, hst₁, hP⟩ := Option.bind_eq_some_iff.1 hP
  obtain ⟨st₂, hst₂, hQ⟩ := Option.bind_eq_some_iff.1 hQ
  rw [saePwdSeedKey_comm] at hst₂
  rw [pweLoop_agree hqr₁ hqnr₁ hqr₂ hqnr₂ hst₁ hst₂] at hP
  exact Option.some.inj (hP.symm.trans hQ)

theorem saeDerivePweEcc_valid {draws : PweDraws} {P : EcPoint}
    (h : saeDerivePweEcc H ec group addr1 addr2 password draws = some P) : ec.Valid P := by
  obtain ⟨_, -, h⟩ := Option.bind_eq_some_iff.1 h
  obtain ⟨st, -, h⟩ := Option.bind_eq_some_iff.1 h
  unfold pweFromSearch at h
  split at h
  · cases h
  · obtain ⟨y, -, h⟩ := Option.bind_eq_some_iff.1 h
    obtain ⟨hc, rfl⟩ := EcParams.pointSetAffine_some h
    exact EcParams.valid_ofPoint _

end DecoyAuth
