import DecoyAuth.Sae.BranchFree
import DecoyAuth.Sae.Small

/-!
# Hunting and pecking without branches: ECC groups

The loop of `sae_derive_pwe_ecc` with masks runs in step with the loop with branches (`pweLoop_eq`), and in the end its
buffer holds the same point (`pweFromSearch_eq`), also where the copy of the ordinate overlaps its source. So both derive
the same password element: **`derivePweEcc_eq`**.
-/

namespace DecoyAuth.BranchFree

/-! ## The loop -/

section Ecc

variable {H : HashFns} {ec : EcParams} {addrs password : Bytes} {qr qnr : ℤ} {draws : PweDraws}

theorem length_pwdValueEcc (seed : Bytes) : (pwdValueEcc H ec seed).length = Bytes.numBytes ec.prime := by
  have hlen : (ec.prime.log2 + 1 + 7) / 8 = Bytes.numBytes ec.prime := by
    rw [Bytes.numBytes, if_neg ec.prime_prime.ne_zero]
    omega
  unfold pwdValueEcc
  dsimp only
  split
  · rw [HashFns.length_prfBits H (by norm_num), hlen]
  · rw [bufShiftRight, Bytes.length_toBe, HashFns.length_prfBits H (by norm_num), hlen]

theorem saeTestPwdSeedEcc_eq (seed : Bytes) (draw : Option ℕ) :
    saeTestPwdSeedEcc H ec seed (Bytes.toBe (Bytes.numBytes ec.prime) ec.prime) qr qnr draw =
      (DecoyAuth.saeTestPwdSeedEcc H ec seed qr qnr draw).map fun r => (if r.1 then 1 else 0, r.2) := by
  have hlen : (pwdValueEcc H ec seed).length = Bytes.numBytes ec.prime := length_pwdValueEcc seed
  have hmask := constTimeFillMsb_memcmp (hlen.trans (Bytes.length_toBe _ ec.prime).symm)
  rw [hlen, Bytes.ofBe_toBe (Bytes.lt_pow_numBytes _)] at hmask
  unfold saeTestPwdSeedEcc DecoyAuth.saeTestPwdSeedEcc
  dsimp only
  rw [hmask]
  cases dragonflyIsQuadraticResidueBlind ec.prime qr qnr (computeYSqr ec (Bytes.ofBe (pwdValueEcc H ec seed))) draw with
  | none => rfl
  | some res =>
    simp only [Option.bind_eq_bind, Option.bind_some, Option.pure_def, Option.map_some, constTimeSelectInt_mask]
    by_cases hr : Bytes.ofBe (pwdValueEcc H ec seed) < ec.prime <;> simp [hr]

/-- The variables of the loop for those of the loop with branches. -/
def masked (st : PweSearch) : Search := ⟨mask8 st.found, st.xBin, if st.pwdSeedOdd then 1 else 0⟩

theorem or_mul_mask8 (c d : Bool) :
    mask8 c ||| ((if d then (1 : Int32) else 0) * 0xff).toUInt32.toUInt8 = mask8 (c || d) := by
  cases c <;> cases d <;> decide

theorem pweIteration_eq {n : ℕ} {st : PweSearch} (hn : n < 256) (hstub : draws.stubPassword.length = password.length)
    (hx : st.xBin.length = Bytes.numBytes ec.prime) :
    pweIteration H ec addrs password (Bytes.toBe (Bytes.numBytes ec.prime) ec.prime) qr qnr draws (UInt8.ofNat n)
        (masked st) = (DecoyAuth.pweIteration H ec addrs password qr qnr draws n st).map masked := by
  have hcounter : (UInt8.ofNat n).toNat = n := by rw [UInt8.toNat_ofNat']; omega
  unfold pweIteration DecoyAuth.pweIteration masked
  dsimp only
  rw [constTimeSelectBin_mask8 _ hstub, hcounter, saeTestPwdSeedEcc_eq, ← pwdSeed]
  set seed := pwdSeed H addrs (if st.found = true then draws.stubPassword else password) n
  cases htest : DecoyAuth.saeTestPwdSeedEcc H ec seed qr qnr (draws.blind n) with
  | none => rfl
  | some r =>
    obtain ⟨res, cand⟩ := r
    have hcand : cand.length = Bytes.numBytes ec.prime := by
      obtain ⟨_, -, hr⟩ := Option.bind_eq_some_iff.1 htest
      cases hr
      exact length_pwdValueEcc seed
    simp only [Option.map_some, Option.bind_eq_bind, Option.bind_some, Option.pure_def, or_mul_mask8,
      constTimeSelectBin_mask8 _ (hx.trans hcand.symm), constTimeSelectU8_mask8, and_one_eq]
    cases st.found <;> simp

theorem length_xBin_pweIteration {n : ℕ} {st st' : PweSearch} (hx : st.xBin.length = Bytes.numBytes ec.prime)
    (h : DecoyAuth.pweIteration H ec addrs password qr qnr draws n st = some st') :
    st'.xBin.length = Bytes.numBytes ec.prime := by
  obtain ⟨⟨res, cand⟩, htest, h⟩ := Option.bind_eq_some_iff.1 h
  obtain ⟨_, -, hr⟩ := Option.bind_eq_some_iff.1 htest
  cases hr
  cases h
  dsimp only
  split
  · exact hx
  · exact length_pwdValueEcc _

theorem pweLoop_eq {k : ℕ} (hk : k < 256) (hstub : draws.stubPassword.length = password.length) :
    ∀ {fuel n : ℕ} {st : PweSearch}, n ≤ 201 → st.xBin.length = Bytes.numBytes ec.prime →
      pweLoop H ec (UInt8.ofNat k) addrs password (Bytes.toBe (Bytes.numBytes ec.prime) ec.prime) qr qnr draws fuel
          (UInt8.ofNat n) (masked st) =
        (DecoyAuth.pweLoop H ec k addrs password qr qnr draws fuel n st).map masked := by
  intro fuel
  induction fuel with
  | zero => intro n st _ _; rfl
  | succ fuel ih =>
    intro n st hn hx
    have hfound : (masked st).found = 0 ↔ (!st.found) = true := by
      rw [masked, mask8_eq_zero]
      cases st.found <;> simp
    unfold pweLoop DecoyAuth.pweLoop
    simp only [ofNat_le_iff hk (show n < 256 by omega), gt_200_iff (show n < 256 by omega), hfound]
    by_cases hgo : n ≤ k ∨ (!st.found) = true
    · by_cases hlast : n ≤ 200
      · rw [if_pos hgo, if_neg (by omega), if_pos ⟨hgo, hlast⟩, pweIteration_eq (by omega) hstub hx]
        cases hit : DecoyAuth.pweIteration H ec addrs password qr qnr draws n st with
        | none => rfl
        | some st' =>
          simp only [Option.map_some, Option.bind_eq_bind, Option.bind_some]
          rw [ofNat_succ]
          exact ih (by omega) (length_xBin_pweIteration hx hit)
      · rw [if_pos hgo, if_pos (by omega), if_neg (fun h => hlast h.2)]
        rfl
    · rw [if_neg hgo, if_neg (fun h => hgo h.1)]
      rfl

theorem length_xBin_pweLoop {k : ℕ} : ∀ {fuel n : ℕ} {st st' : PweSearch}, st.xBin.length = Bytes.numBytes ec.prime →
    DecoyAuth.pweLoop H ec k addrs password qr qnr draws fuel n st = some st' →
      st'.xBin.length = Bytes.numBytes ec.prime := by
  intro fuel
  induction fuel with
  | zero =>
    intro n st st' hx h
    cases h
    exact hx
  | succ fuel ih =>
    intro n st st' hx h
    unfold DecoyAuth.pweLoop at h
    split at h
    · obtain ⟨st₁, hit, h⟩ := Option.bind_eq_some_iff.1 h
      exact ih (length_xBin_pweIteration hx hit) h
    · cases h
      exact hx

/-- The parity of the seed and that of a byte string are compared as the bytes of a mask. -/
theorem isEq_mask8 (odd : Bool) (n : ℕ) :
    (constTimeEq (if odd then (1 : UInt8) else 0).toUInt32 (UInt32.ofNat (n % 2))).toUInt8 =
      mask8 (decide (odd = decide (n % 2 = 1))) := by
  rw [constTimeEq_eq, toUInt8_mask]
  rcases Nat.mod_two_eq_zero_or_one n with h | h <;> rw [h] <;> cases odd <;> rfl

/-- The buffer with both ordinates. -/
theorem ordinates_slices {xY yBin negBin : Bytes} {len : ℕ} (hxY : xY.length = 2 * saeMaxEccPrimeLen)
    (hy : yBin.length = len) (hn : negBin.length = len) (hlen : len ≤ saeMaxEccPrimeLen) :
    (memcpy (memcpy xY 0 yBin) saeMaxEccPrimeLen negBin).length = 2 * saeMaxEccPrimeLen ∧
      (memcpy (memcpy xY 0 yBin) saeMaxEccPrimeLen negBin).take len = yBin ∧
      ((memcpy (memcpy xY 0 yBin) saeMaxEccPrimeLen negBin).drop saeMaxEccPrimeLen).take len = negBin := by
  have hl₁ : (memcpy xY 0 yBin).length = xY.length := length_memcpy (by omega)
  have hl₂ : (memcpy (memcpy xY 0 yBin) saeMaxEccPrimeLen negBin).length = xY.length :=
    (length_memcpy (by omega)).trans hl₁
  refine ⟨hl₂.trans hxY, ?_, ?_⟩
  · rw [memcpy_take_before _ _ hlen (by omega), ← hy, memcpy_zero_take]
  · rw [← hn]
    exact memcpy_slice _ _ (by omega)

/-- The point that the buffer holds in the end: the mask has selected the ordinate. -/
theorem pointFromBin_selected {buf xBin yBin negBin : Bytes} (c : Bool) (hbuf : buf.length = 2 * saeMaxEccPrimeLen)
    (hx : xBin.length = Bytes.numBytes ec.prime) (hlen : Bytes.numBytes ec.prime ≤ saeMaxEccPrimeLen)
    (hy : buf.take (Bytes.numBytes ec.prime) = yBin)
    (hn : (buf.drop saeMaxEccPrimeLen).take (Bytes.numBytes ec.prime) = negBin) :
    pointFromBin ec (memcpy (constTimeSelectBinWithin (mask8 c) 0 saeMaxEccPrimeLen (Bytes.numBytes ec.prime)
        (Bytes.numBytes ec.prime) 0 buf) 0 xBin) =
      ec.pointSetAffine (Bytes.ofBe xBin) (Bytes.ofBe (if c then yBin else negBin)) := by
  have htrue : ReadsFirst 0 (Bytes.numBytes ec.prime) (Bytes.numBytes ec.prime) := .inl (Nat.zero_add _).le
  have hfalse : ReadsFirst saeMaxEccPrimeLen (Bytes.numBytes ec.prime) (Bytes.numBytes ec.prime) := .inr hlen
  have hsel : (buf.drop (if c then 0 else saeMaxEccPrimeLen)).take (Bytes.numBytes ec.prime) =
      if c then yBin else negBin := by
    cases c
    · exact hn
    · exact hy
  simp only [pointFromBin]
  rw [memcpy_drop _ hx, constTimeSelectBinWithin_slice c htrue hfalse (by omega) (by omega) (by omega), hsel, ← hx,
    memcpy_zero_take]

theorem pweFromSearch_eq {xY : Bytes} {st : PweSearch} (hxY : xY.length = 2 * saeMaxEccPrimeLen)
    (hx : st.xBin.length = Bytes.numBytes ec.prime) (hlen : Bytes.numBytes ec.prime ≤ saeMaxEccPrimeLen) :
    pweFromSearch ec xY (masked st) = DecoyAuth.pweFromSearch ec st := by
  unfold pweFromSearch DecoyAuth.pweFromSearch
  cases hfound : st.found with
  | false => simp [masked, hfound, mask8_eq_zero]
  | true =>
    have hne : (masked st).found ≠ 0 := fun h => by
      rw [masked, mask8_eq_zero, hfound] at h
      cases h
    rw [if_neg hne, if_neg (by decide)]
    dsimp only [masked]
    cases hy : dragonflySqrt ec.prime (computeYSqr ec (Bytes.ofBe st.xBin)) with
    | none => rfl
    | some y =>
      obtain ⟨hy0, hyp⟩ := dragonflySqrt_range ec.prime_prime.pos hy
      have hp : (ec.prime : ℤ) < 256 ^ Bytes.numBytes ec.prime := by exact_mod_cast Bytes.lt_pow_numBytes ec.prime
      obtain ⟨n, rfl⟩ := Int.eq_ofNat_of_zero_le hy0
      obtain ⟨m, hm⟩ := Int.eq_ofNat_of_zero_le (show 0 ≤ (ec.prime : ℤ) - n by omega)
      have hyBin : bnToBin n (Bytes.numBytes ec.prime) = some (Bytes.toBe (Bytes.numBytes ec.prime) n) :=
        bnToBin_of_lt (by omega)
      have hnegBin : bnToBin ((ec.prime : ℤ) - n) (Bytes.numBytes ec.prime) =
          some (Bytes.toBe (Bytes.numBytes ec.prime) m) := by
        rw [hm]
        exact bnToBin_of_lt (by omega)
      obtain ⟨hbuf, hfirst, hsecond⟩ := ordinates_slices hxY (Bytes.length_toBe (Bytes.numBytes ec.prime) n)
        (Bytes.length_toBe (Bytes.numBytes ec.prime) m) hlen
      simp only [Option.bind_eq_bind, Option.bind_some, hyBin, hnegBin]
      set buf := memcpy (memcpy xY 0 (Bytes.toBe (Bytes.numBytes ec.prime) n)) saeMaxEccPrimeLen
        (Bytes.toBe (Bytes.numBytes ec.prime) m)
      obtain ⟨len, hl⟩ : ∃ len, Bytes.numBytes ec.prime = len + 1 :=
        Nat.exists_eq_succ_of_ne_zero (Bytes.numBytes_pos ec.prime_prime.pos).ne'
      have hlast : (buf.getD (Bytes.numBytes ec.prime - 1) 0 &&& 1).toUInt32 = UInt32.ofNat (n % 2) := by
        rw [← toBe_last len n, ← hl, ← hfirst, hl, Nat.add_sub_cancel, List.getD_eq_getElem?_getD,
          List.getD_eq_getElem?_getD, List.getElem?_take_of_lt (Nat.lt_succ_self len)]
      rw [hlast, isEq_mask8, pointFromBin_selected _ hbuf hx hlen hfirst hsecond]
      congr 1
      have hsame : ((st.pwdSeedOdd = true) = ((n : ℤ) % 2 = 1)) ↔ st.pwdSeedOdd = decide (n % 2 = 1) := by
        rcases Nat.mod_two_eq_zero_or_one n with h | h <;> cases st.pwdSeedOdd <;> simp [h] <;> omega
      have hn : n < 256 ^ Bytes.numBytes ec.prime := lt_of_le_of_lt (by omega) (Bytes.lt_pow_numBytes ec.prime)
      have hm' : m < 256 ^ Bytes.numBytes ec.prime := lt_of_le_of_lt (by omega) (Bytes.lt_pow_numBytes ec.prime)
      simp only [hsame, decide_eq_true_eq, hm]
      split
      · rw [Bytes.ofBe_toBe hn]
      · rw [Bytes.ofBe_toBe hm']

end Ecc

/-- **`sae_derive_pwe_ecc` without branches** derives the element that the loop with branches derives, whatever its buffer
held before. The stub password has the length of the password. -/
theorem derivePweEcc_eq {H : HashFns} {ec : EcGroup} {password xY : Bytes} {draws : PweDraws}
    (hstub : draws.stubPassword.length = password.length) (hxY : xY.length = 2 * saeMaxEccPrimeLen) (group : ℕ)
    (addr1 addr2 : MacAddr) :
    saeDerivePweEcc H ec.toEcParams group addr1 addr2 password draws xY =
      DecoyAuth.saeDerivePweEcc H ec.toEcParams group addr1 addr2 password draws := by
  have hk := dragonflyMinPweLoopIter_le group
  unfold saeDerivePweEcc DecoyAuth.saeDerivePweEcc
  cases dragonflyGetRandomQrQnr ec.prime draws.qrQnr none none with
  | none => rfl
  | some q =>
    obtain ⟨qr, qnr⟩ := q
    have hx : (List.replicate (Bytes.numBytes ec.prime) (0 : UInt8)).length = Bytes.numBytes ec.prime :=
      List.length_replicate
    have hloop := @pweLoop_eq H ec.toEcParams (saePwdSeedKey addr1 addr2) password qr qnr draws
      (dragonflyMinPweLoopIter group) (by omega) hstub 201 1 ⟨false, List.replicate (Bytes.numBytes ec.prime) 0, false⟩
      (by omega) hx
    rw [show masked ⟨false, List.replicate (Bytes.numBytes ec.prime) 0, false⟩ =
      ⟨0, List.replicate (Bytes.numBytes ec.prime) 0, 0⟩ from rfl] at hloop
    simp only [Option.bind_eq_bind, Option.bind_some]
    rw [show (1 : UInt8) = UInt8.ofNat 1 from rfl, hloop]
    cases hst : DecoyAuth.pweLoop H ec.toEcParams (dragonflyMinPweLoopIter group) (saePwdSeedKey addr1 addr2) password qr
        qnr draws 201 1 ⟨false, List.replicate (Bytes.numBytes ec.prime) 0, false⟩ with
    | none => rfl
    | some st =>
      rw [Option.map_some, Option.bind_some, Option.bind_some]
      exact pweFromSearch_eq hxY (length_xBin_pweLoop hx hst) ec.numBytes_prime_le

/-- A derivation on the small curve, in a buffer that holds sevens. -/
theorem derivePweEcc_eq_small : saeDerivePweEcc Small.hash Small.group.toEcParams 19 (Small.addr 1) (Small.addr 2)
    [97, 98, 99] ((Small.draws 1).pwe 0) (List.replicate (2 * saeMaxEccPrimeLen) 7) = some (.affine 13 11) := by
  have hstub : ((Small.draws 1).pwe 0).stubPassword.length = ([97, 98, 99] : Bytes).length := rfl
  rw [derivePweEcc_eq hstub List.length_replicate]
  decide +kernel

end DecoyAuth.BranchFree
