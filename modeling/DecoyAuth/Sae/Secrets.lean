import DecoyAuth.Sae.KeyTables
import DecoyAuth.Sae.Wire

/-!
# Shared points at infinity

For an ECC group the keys of an index come from its shared point (`SaeData.apSecret`). `sae_ap_derive_k_ecc` refuses the
point at infinity, and nothing else stops the derivation: **`apDeriveKeys_none_iff`**.
-/

namespace DecoyAuth

variable {host : Host} {sae sae' : SaeData} {tmp : SaeTmp} {ec : EcGroup} {i : ℕ}

/-! ## The shared point -/

/-- `K` of `sae_ap_derive_k_ecc` at the index `i`, where everything that it is computed from is there. -/
def SaeData.apSecret (sae : SaeData) (i : ℕ) : Option EcPoint := do
  let tmp ← sae.tmp
  let ec ← tmp.ec
  return sharedPoint ec.toEcParams (← tmp.pweEccs.entry i) (← sae.peerCommitScalar) (← tmp.peerCommitElementEcc)
    (← tmp.saeRand)

theorem apSecret_of_tmp (ht : sae.tmp = some tmp) (hec : tmp.ec = some ec) :
    sae.apSecret i = do
      return sharedPoint ec.toEcParams (← tmp.pweEccs.entry i) (← sae.peerCommitScalar) (← tmp.peerCommitElementEcc)
        (← tmp.saeRand) := by
  simp only [SaeData.apSecret, ht, hec, Option.bind_eq_bind, Option.bind_some]

/-- What the shared point is computed from in the temporary data. -/
def SaeTmp.secretInputs (tmp : SaeTmp) : Option EcGroup × Table EcPoint × Option EcPoint × Option ℤ :=
  (tmp.ec, tmp.pweEccs, tmp.peerCommitElementEcc, tmp.saeRand)

theorem apSecret_congr (hs : sae'.peerCommitScalar = sae.peerCommitScalar)
    (ht : sae'.tmp.map SaeTmp.secretInputs = sae.tmp.map SaeTmp.secretInputs) : sae'.apSecret = sae.apSecret := by
  funext i
  unfold SaeData.apSecret
  rw [hs]
  cases h : sae.tmp with
  | none =>
    rw [h, Option.map_none, Option.map_eq_none_iff] at ht
    rw [ht]
  | some tmp =>
    rw [h] at ht
    obtain ⟨tmp', h', hinputs⟩ := Option.map_eq_some_iff.1 ht
    simp only [SaeTmp.secretInputs, Prod.mk.injEq] at hinputs
    simp only [h', hinputs, Option.bind_eq_bind, Option.bind_some]

theorem deriveKEcc_eq_none {ec : EcParams} {pwe element : EcPoint} {scalar rand : ℤ} :
    deriveKEcc ec pwe scalar element rand = none ↔ sharedPoint ec pwe scalar element rand = .infinity := by
  have hvalid : ec.Valid (sharedPoint ec pwe scalar element rand) := EcParams.valid_ofPoint _
  unfold deriveKEcc
  generalize sharedPoint ec pwe scalar element rand = K at hvalid ⊢
  cases K with
  | infinity => simp [pointToBin, EcPoint.getAffine]
  | affine x y => simp [pointToBin_valid hvalid]

/-! ## The keys -/

theorem keyHashLen_cases (sae : SaeData) (tmp : SaeTmp) :
    keyHashLen sae tmp = 32 ∨ keyHashLen sae tmp = 48 ∨ keyHashLen sae tmp = 64 := by
  unfold keyHashLen
  split
  · exact .inl rfl
  · split
    · exact saeFfcPrimeLen2HashLen_cases _
    · exact saeEccPrimeLen2HashLen_cases _

/-- `sae_ap_derive_keys` does not fail: the digest has a length that there is a hash for, and a number below the order has
at most as many bytes as the order. -/
theorem deriveKeys_isSome (H : HashFns) (hg : tmp.HoldsGroup) (hec : tmp.ec = some ec) (ownScalar peerScalar : ℤ)
    (k : Bytes) : (deriveKeys H sae tmp ownScalar peerScalar k).isSome := by
  have hlen := keyHashLen_cases sae tmp
  have hmod : bnMod (ownScalar + peerScalar) ec.order < ec.order :=
    Int.tmod_lt_of_pos _ (Int.natCast_pos.2 ec.order_prime.pos)
  have hval := bnToBin_of_lt (lt_pow_numBytes_of_lt hmod)
  rw [← hg.orderLen ec hec, ← hg.order ec hec] at hval
  simp [deriveKeys, HashFns.hkdfExtract, HashFns.saeKdfHash, hlen, hval]

theorem saeApDeriveKEcc_ok {k : Option Bytes} (h : saeApDeriveKEcc ec sae tmp i = .ok k) :
    ∃ pwe scalar element rand, tmp.pweEccs.entry i = some pwe ∧ sae.peerCommitScalar = some scalar ∧
      tmp.peerCommitElementEcc = some element ∧ tmp.saeRand = some rand ∧
      k = deriveKEcc ec.toEcParams pwe scalar element rand := by
  unfold saeApDeriveKEcc at h
  obtain ⟨slot, hslot, h⟩ := except_bind_ok h
  obtain ⟨pwe, hpwe, h⟩ := except_bind_ok h
  obtain ⟨scalar, hscalar, h⟩ := except_bind_ok h
  obtain ⟨element, helement, h⟩ := except_bind_ok h
  obtain ⟨rand, hrand, h⟩ := except_bind_ok h
  cases h
  rw [need_ok hpwe] at hslot
  exact ⟨pwe, scalar, element, rand, Table.slot_ok hslot, need_ok hscalar, need_ok helement, need_ok hrand, rfl⟩

/-- **When an index gets no keys**: its shared point is at infinity. -/
theorem apDeriveKeys_none_iff (ht : sae.tmp = some tmp) (hec : tmp.ec = some ec) (hg : tmp.HoldsGroup) :
    apDeriveKeys host sae tmp i = .ok none ↔ sae.apSecret i = some .infinity := by
  rw [apSecret_of_tmp ht hec]
  simp only [apDeriveKeys, apSharedSecret, hec]
  constructor
  · intro h
    obtain ⟨k, hk, h⟩ := except_bind_ok h
    obtain ⟨pwe, scalar, element, rand, hpwe, hscalar, helement, hrand, rfl⟩ := saeApDeriveKEcc_ok hk
    simp only [hpwe, hscalar, helement, hrand, Option.bind_eq_bind, Option.bind_some, Option.pure_def, Option.some.injEq]
    rw [← deriveKEcc_eq_none]
    cases hk' : deriveKEcc ec.toEcParams pwe scalar element rand with
    | none => rfl
    | some bytes =>
      rw [hk'] at h
      obtain ⟨own, -, h⟩ := except_bind_ok h
      obtain ⟨peer, -, h⟩ := except_bind_ok h
      have hsome := @deriveKeys_isSome sae tmp ec host.hash hg hec own peer bytes
      rw [Except.ok.inj h] at hsome
      cases hsome
  · intro h
    simp only [Option.bind_eq_bind, Option.bind_eq_some_iff, Option.pure_def, Option.some.injEq] at h
    obtain ⟨pwe, hpwe, scalar, hscalar, element, helement, rand, hrand, h⟩ := h
    have hk : saeApDeriveKEcc ec sae tmp i = .ok none := by
      rw [← deriveKEcc_eq_none.2 h]
      simp only [saeApDeriveKEcc, Table.slot_of_entry .pweEccs hpwe, hscalar, helement, hrand]
      rfl
    rw [hk]
    rfl

end DecoyAuth
