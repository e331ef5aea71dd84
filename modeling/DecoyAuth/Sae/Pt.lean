import DecoyAuth.Sae.Sswu

/-!
# The PT of a password

With hash-to-element a station derives a secret element PT for each of its groups once, when it is configured
(`sae_derive_pt`), and from it and the two addresses the password element of a handshake. Here are `hkdf_expand`, the
derivations for ECC and FFC groups and the list of PTs. **`derivePt_complete`** says that the list has a PT for every curve
of the configuration that `sswu_curve_param` knows and for every FFC group with a prime of at most 512 bytes, in that order
and no other, and that every PT belongs to its group. The curves are those of `CurveParams`, with a prime that is 3 mod 4:
group 26 is none of them, and on it `dragonfly_sqrt` fails.
-/

namespace DecoyAuth

/-! ## HKDF-Expand -/

namespace HashFns

variable (H : HashFns)

/-- The loop of `hmac_sha256_kdf` without a label, and of its SHA-384 and SHA-512 copies: `T` is the block `iter`, and
`left` bytes are to be written. -/
def kdfLoop (hashLen : ℕ) (secret seed : Bytes) : ℕ → ℕ → Bytes → ℕ → Option Bytes
  | 0, _, _, _ => none
  | fuel + 1, iter, T, left =>
    if left ≤ hashLen then some (T.take left)
    else if iter = 255 then none
    else
      let T' := H.hmac hashLen secret (T ++ seed ++ [UInt8.ofNat (iter + 1)])
      (kdfLoop hashLen secret seed fuel (iter + 1) T' (left - hashLen)).map (T ++ ·)

/-- `hmac_sha256_kdf` without a label; there are at most 255 blocks. -/
def kdf (hashLen : ℕ) (secret seed : Bytes) (outLen : ℕ) : Option Bytes :=
  H.kdfLoop hashLen secret seed 255 1 (H.hmac hashLen secret (seed ++ [1])) outLen

/-- `hkdf_expand` -/
def hkdfExpand (hashLen : ℕ) (prk info : Bytes) (okmLen : ℕ) : Option Bytes :=
  if hashLen = 32 ∨ hashLen = 48 ∨ hashLen = 64 then H.kdf hashLen prk info okmLen else none

theorem kdfLoop_some {hashLen : ℕ} (secret seed : Bytes) :
    ∀ {fuel iter left : ℕ} {T : Bytes}, fuel + iter = 256 → T.length = hashLen → 0 < fuel → left ≤ fuel * hashLen →
      ∃ out, H.kdfLoop hashLen secret seed fuel iter T left = some out ∧ out.length = left := by
  intro fuel
  induction fuel with
  | zero => intro iter left T _ _ h _; exact absurd h (lt_irrefl 0)
  | succ fuel ih =>
    intro iter left T hfuel hT _ hleft
    unfold kdfLoop
    by_cases h : left ≤ hashLen
    · refine ⟨T.take left, if_pos h, ?_⟩
      rw [List.length_take]
      omega
    · have hpos : 0 < fuel := by
        rcases Nat.eq_zero_or_pos fuel with h0 | h0
        · subst h0
          omega
        · exact h0
      have hrest : left - hashLen ≤ fuel * hashLen := by
        rw [Nat.succ_mul] at hleft
        omega
      obtain ⟨out, hout, hlen⟩ := ih (show fuel + (iter + 1) = 256 by omega)
        (H.length_hmac hashLen secret (T ++ seed ++ [UInt8.ofNat (iter + 1)])) hpos hrest
      refine ⟨T ++ out, ?_, ?_⟩
      · rw [if_neg h, if_neg (by omega)]
        dsimp only
        rw [hout, Option.map_some]
      · rw [List.length_append]
        omega

theorem hkdfExpand_some {hashLen okmLen : ℕ} (hlen : hashLen = 32 ∨ hashLen = 48 ∨ hashLen = 64)
    (h : okmLen ≤ 255 * hashLen) (prk info : Bytes) :
    ∃ out, H.hkdfExpand hashLen prk info okmLen = some out ∧ out.length = okmLen := by
  rw [hkdfExpand, if_pos hlen]
  exact H.kdfLoop_some prk info rfl (H.length_hmac _ _ _) (by omega) h

end HashFns

/-! ## The derivations -/

/-- `sae_pwd_seed` -/
def saePwdSeed (H : HashFns) (hashLen : ℕ) (ssid password : Bytes) (identifier : Option Bytes) : Option Bytes :=
  H.hkdfExtract hashLen ssid (password ++ identifier.getD [])

/-- One of the two points of `sae_derive_pt_ecc`. -/
def ptPoint (H : HashFns) (ec : EcParams) (group hashLen : ℕ) (pwdSeed info : Bytes) : Option EcPoint := do
  let primeLen := Bytes.numBytes ec.prime
  let pwdValue ← H.hkdfExpand hashLen pwdSeed info (primeLen + (primeLen + 1) / 2)
  let u := bnMod (Bytes.ofBe pwdValue) ec.prime
  let _ ← bnToBin u primeLen
  sswu ec group u

/-- `sae_derive_pt_ecc` -/
def saeDerivePtEcc (H : HashFns) (ec : EcParams) (group : ℕ) (ssid password : Bytes) (identifier : Option Bytes) :
    Option EcPoint := do
  let primeLen := Bytes.numBytes ec.prime
  if primeLen > saeMaxEccPrimeLen then none
  else
    let hashLen := saeEccPrimeLen2HashLen primeLen
    let pwdSeed ← saePwdSeed H hashLen ssid password identifier
    let p1 ← ptPoint H ec group hashLen pwdSeed (ascii "SAE Hash to Element u1 P1")
    let p2 ← ptPoint H ec group hashLen pwdSeed (ascii "SAE Hash to Element u2 P2")
    return ec.pointAdd p1 p2

/-- `sae_derive_pt_ffc` -/
def saeDerivePtFfc (H : HashFns) (dh : DhGroup) (ssid password : Bytes) (identifier : Option Bytes) : Option ℤ := do
  let primeLen := dh.prime.length
  let prime : ℤ := Bytes.ofBe dh.prime
  let pwdValueLen := primeLen + (primeLen + 1) / 2
  if primeLen > saeMaxPrimeLen then none
  else if pwdValueLen > saeMaxPrimeLen + saeMaxPrimeLen / 2 then none
  else
    let hashLen := saeFfcPrimeLen2HashLen primeLen
    let pwdSeed ← saePwdSeed H hashLen ssid password identifier
    let pwdValue ← H.hkdfExpand hashLen pwdSeed (ascii "SAE Hash to Element") pwdValueLen
    let bn := bnMod (Bytes.ofBe pwdValue) (prime - 2) + 2
    let _ ← bnToBin bn primeLen
    return bnModExp bn ((Bytes.ofBe dh.prime - 1) / Bytes.ofBe dh.order) prime

/-- `sae_derive_pt_group` -/
def saeDerivePtGroup (host : Host) (ssid password : Bytes) (identifier : Option Bytes) (group : ℕ) : Option SaePt :=
  if ssid.length > 32 then none
  else
    match host.ecInit group with
    | some ec => (saeDerivePtEcc host.hash ec.toEcParams group ssid password identifier).map (.ecc group ec)
    | none =>
      match host.dhGet group with
      | none => none
      | some dh => (saeDerivePtFfc host.hash dh ssid password identifier).map (.ffc group dh)

/-- The groups of an array that ends with a value that is not positive. -/
def listedGroups (groups : List ℤ) : List ℕ := (groups.takeWhile (0 < ·)).map Int.toNat

/-- `sae_derive_pt`; a group that fails is left out. -/
def saeDerivePt (host : Host) (groups : Option (List ℤ)) (ssid password : Bytes) (identifier : Option Bytes) : List SaePt :=
  (listedGroups (groups.getD [19, 0])).filterMap (saeDerivePtGroup host ssid password identifier)

/-! ## Seeds and remainders -/

theorem saePwdSeed_some {H : HashFns} {hashLen : ℕ} (hlen : hashLen = 32 ∨ hashLen = 48 ∨ hashLen = 64)
    (ssid password : Bytes) (identifier : Option Bytes) :
    saePwdSeed H hashLen ssid password identifier = some (H.hmac hashLen ssid (password ++ identifier.getD [])) :=
  if_pos hlen

theorem bnMod_natCast_range {p : ℤ} (hp : 0 < p) (n : ℕ) : 0 ≤ bnMod n p ∧ bnMod n p < p := by
  rw [bnMod, Int.tmod_eq_emod_of_nonneg (Int.natCast_nonneg n)]
  exact ⟨Int.emod_nonneg _ hp.ne', Int.emod_lt_of_pos _ hp⟩

/-! ## The PT of a group -/

/-- An FFC group: its order divides the order of the multiplicative group of a prime field. -/
structure DhGroup.Sound (dh : DhGroup) : Prop where
  prime_prime : (Bytes.ofBe dh.prime).Prime
  prime_ne_two : Bytes.ofBe dh.prime ≠ 2
  order_prime : (Bytes.ofBe dh.order).Prime
  order_dvd : Bytes.ofBe dh.order ∣ Bytes.ofBe dh.prime - 1

/-- The groups of a configuration fit the derivation: a parameter of the map is valid for its curve, and an FFC group is a
subgroup of a prime field. -/
structure Host.FitsPt (host : Host) (groups : List ℕ) : Prop where
  ecc : ∀ g ∈ groups, ∀ ec z, host.ecInit g = some ec → sswuCurveParam g = some z →
    Scripts.SwuParams ec.prime (ec.a : ZMod ec.prime) ec.b z
  ffc : ∀ g ∈ groups, ∀ dh, host.ecInit g = none → host.dhGet g = some dh → dh.Sound

/-- The groups that get a PT: the curves with a parameter of the map, and the FFC groups with a prime of at most 512
bytes. -/
def Host.hasPt (host : Host) (group : ℕ) : Bool :=
  match host.ecInit group with
  | some _ => (sswuCurveParam group).isSome
  | none => (host.dhGet group).any fun dh => dh.prime.length ≤ saeMaxPrimeLen

/-- A PT of a group of the host: a point of the curve, or an element of the subgroup of the order. -/
def SaePt.InGroup (host : Host) : SaePt → Prop
  | .ecc group ec pt => host.ecInit group = some ec ∧ ec.Valid pt
  | .ffc group dh pt => host.ecInit group = none ∧ host.dhGet group = some dh ∧ (0 < pt ∧ pt < Bytes.ofBe dh.prime) ∧
      (pt : ZMod (Bytes.ofBe dh.prime)) ^ Bytes.ofBe dh.order = 1

section Group

variable {host : Host} {H : HashFns}

theorem ptPoint_some {ec : EcParams} {group hashLen : ℕ} {z : ℤ} (hlen : Bytes.numBytes ec.prime ≤ saeMaxEccPrimeLen)
    (hhash : hashLen = 32 ∨ hashLen = 48 ∨ hashLen = 64) (hz : sswuCurveParam group = some z)
    (hparams : Scripts.SwuParams ec.prime (ec.a : ZMod ec.prime) ec.b z) (pwdSeed info : Bytes) :
    ∃ P, ptPoint H ec group hashLen pwdSeed info = some P := by
  unfold saeMaxEccPrimeLen at hlen
  obtain ⟨value, hvalue, -⟩ := H.hkdfExpand_some hhash
    (show Bytes.numBytes ec.prime + (Bytes.numBytes ec.prime + 1) / 2 ≤ 255 * hashLen by omega) pwdSeed info
  have hu := bnMod_natCast_range (cast_pos (p := ec.prime)) (Bytes.ofBe value)
  obtain ⟨x, y, -, hsswu, -⟩ := sswu_eq_simplifiedSwu hz hparams hu
  refine ⟨.affine x y, ?_⟩
  simp only [ptPoint, hvalue, Option.bind_eq_bind, Option.bind_some, bnToBin_of_lt_prime ⟨hu.1, hu.2.le⟩, hsswu]

theorem saeDerivePtEcc_some {ec : EcGroup} {group : ℕ} {z : ℤ} (hz : sswuCurveParam group = some z)
    (hparams : Scripts.SwuParams ec.prime (ec.a : ZMod ec.prime) ec.b z) (ssid password : Bytes)
    (identifier : Option Bytes) :
    ∃ P, saeDerivePtEcc H ec.toEcParams group ssid password identifier = some P ∧ ec.Valid P := by
  have hhash := saeEccPrimeLen2HashLen_cases (Bytes.numBytes ec.prime)
  have hpoint := fun info => @ptPoint_some H ec.toEcParams _ _ _ ec.numBytes_prime_le hhash hz hparams
    (H.hmac (saeEccPrimeLen2HashLen (Bytes.numBytes ec.prime)) ssid (password ++ identifier.getD [])) info
  obtain ⟨p1, hp1⟩ := hpoint (ascii "SAE Hash to Element u1 P1")
  obtain ⟨p2, hp2⟩ := hpoint (ascii "SAE Hash to Element u2 P2")
  refine ⟨ec.pointAdd p1 p2, ?_, EcParams.valid_pointAdd _ _⟩
  have hlen : ¬Bytes.numBytes ec.prime > saeMaxEccPrimeLen := Nat.not_lt.2 ec.numBytes_prime_le
  simp only [saeDerivePtEcc]
  rw [if_neg hlen, saePwdSeed_some hhash]
  simp only [Option.bind_eq_bind, Option.bind_some, hp1, hp2, Option.pure_def]

/-- The power with the cofactor is in the subgroup. -/
theorem saeDerivePtFfc_some {dh : DhGroup} (hdh : dh.Sound) (hlen : dh.prime.length ≤ saeMaxPrimeLen)
    (ssid password : Bytes) (identifier : Option Bytes) :
    ∃ pt, saeDerivePtFfc H dh ssid password identifier = some pt ∧ (0 < pt ∧ pt < Bytes.ofBe dh.prime) ∧
      (pt : ZMod (Bytes.ofBe dh.prime)) ^ Bytes.ofBe dh.order = 1 := by
  have hprime := hdh.prime_prime
  have := Fact.mk hprime
  have h3 : 3 ≤ Bytes.ofBe dh.prime := by
    have := hprime.two_le
    have := hdh.prime_ne_two
    omega
  have hhash := saeFfcPrimeLen2HashLen_cases dh.prime.length
  unfold saeMaxPrimeLen at hlen
  obtain ⟨value, hvalue, -⟩ := H.hkdfExpand_some hhash
    (show dh.prime.length + (dh.prime.length + 1) / 2 ≤ 255 * saeFfcPrimeLen2HashLen dh.prime.length by omega)
    (H.hmac (saeFfcPrimeLen2HashLen dh.prime.length) ssid (password ++ identifier.getD [])) (ascii "SAE Hash to Element")
  have hrange := bnMod_natCast_range (show (0 : ℤ) < Bytes.ofBe dh.prime - 2 by omega) (Bytes.ofBe value)
  set bn := bnMod (Bytes.ofBe value) ((Bytes.ofBe dh.prime : ℤ) - 2) + 2 with hbn
  have hbn0 : (bn : ZMod (Bytes.ofBe dh.prime)) ≠ 0 := by
    rw [Ne, ZMod.intCast_zmod_eq_zero_iff_dvd]
    intro hdvd
    have := Int.le_of_dvd (by omega) hdvd
    omega
  have hbin : bnToBin bn dh.prime.length = some (Bytes.toBe dh.prime.length bn.toNat) := by
    have hlt : (Bytes.ofBe dh.prime : ℤ) < 256 ^ dh.prime.length := by exact_mod_cast Bytes.ofBe_lt dh.prime
    exact if_pos (by omega)
  have hpow := bnModExp_range (cast_pos (p := Bytes.ofBe dh.prime)) bn ((Bytes.ofBe dh.prime - 1) / Bytes.ofBe dh.order)
  have hcast := cast_bnModExp (p := Bytes.ofBe dh.prime) bn ((Bytes.ofBe dh.prime - 1) / Bytes.ofBe dh.order)
  refine ⟨bnModExp bn ((Bytes.ofBe dh.prime - 1) / Bytes.ofBe dh.order) (Bytes.ofBe dh.prime), ?_, ⟨?_, hpow.2⟩, ?_⟩
  · simp only [saeDerivePtFfc]
    rw [if_neg (by unfold saeMaxPrimeLen; omega), if_neg (by unfold saeMaxPrimeLen; omega), saePwdSeed_some hhash]
    simp only [Option.bind_eq_bind, Option.bind_some, hvalue, ← hbn, hbin, Option.pure_def]
  · refine lt_of_le_of_ne hpow.1 fun h => ?_
    rw [← h, Int.cast_zero] at hcast
    exact pow_ne_zero _ hbn0 hcast.symm
  · rw [hcast, ← pow_mul, Nat.div_mul_cancel hdh.order_dvd, ZMod.pow_card_sub_one_eq_one hbn0]

theorem saeDerivePtGroup_some {groups : List ℕ} (hfits : host.FitsPt groups) {ssid : Bytes} (hssid : ssid.length ≤ 32)
    (password : Bytes) (identifier : Option Bytes) {group : ℕ} (hmem : group ∈ groups) (h : host.hasPt group = true) :
    ∃ pt, saeDerivePtGroup host ssid password identifier group = some pt ∧ pt.group = group ∧ pt.InGroup host := by
  simp only [saeDerivePtGroup]
  rw [if_neg (Nat.not_lt.2 hssid)]
  cases hec : host.ecInit group with
  | some ec =>
    obtain ⟨z, hz⟩ := Option.isSome_iff_exists.1 (show (sswuCurveParam group).isSome by simpa [Host.hasPt, hec] using h)
    obtain ⟨P, hP, hvalid⟩ := saeDerivePtEcc_some (H := host.hash) hz (hfits.ecc group hmem ec z hec hz) ssid password
      identifier
    exact ⟨.ecc group ec P, by simp only [hP, Option.map_some], rfl, hec, hvalid⟩
  | none =>
    cases hdh : host.dhGet group with
    | none => simp [Host.hasPt, hec, hdh] at h
    | some dh =>
      have hlen : dh.prime.length ≤ saeMaxPrimeLen := by simpa [Host.hasPt, hec, hdh] using h
      obtain ⟨pt, hpt, hrange, hpow⟩ := saeDerivePtFfc_some (H := host.hash) (hfits.ffc group hmem dh hec hdh) hlen ssid
        password identifier
      exact ⟨.ffc group dh pt, by simp only [hpt, Option.map_some], rfl, hec, hdh, hrange, hpow⟩

/-- A curve without a parameter of the map has no PT. -/
theorem saeDerivePtEcc_none {ec : EcParams} {group : ℕ} (hz : sswuCurveParam group = none) (ssid password : Bytes)
    (identifier : Option Bytes) : saeDerivePtEcc H ec group ssid password identifier = none := by
  have hsswu : ∀ u, sswu ec group u = none := fun u => by simp only [sswu, hz, Option.bind_eq_bind, Option.bind_none]
  have hpoint : ∀ hashLen pwdSeed info, ptPoint H ec group hashLen pwdSeed info = none := fun hashLen pwdSeed info => by
    simp only [ptPoint, hsswu, Option.bind_eq_bind, Option.bind_fun_none]
  simp only [saeDerivePtEcc, hpoint, Option.bind_eq_bind, Option.bind_none, Option.bind_fun_none, ite_self]

theorem saeDerivePtGroup_none {ssid password : Bytes} {identifier : Option Bytes} {group : ℕ}
    (h : host.hasPt group = false) : saeDerivePtGroup host ssid password identifier group = none := by
  unfold saeDerivePtGroup
  split
  · rfl
  · cases hec : host.ecInit group with
    | some ec =>
      have hz : sswuCurveParam group = none := by simpa [Host.hasPt, hec] using h
      simp only [saeDerivePtEcc_none hz, Option.map_none]
    | none =>
      cases hdh : host.dhGet group with
      | none => rfl
      | some dh =>
        have hlen : ¬dh.prime.length ≤ saeMaxPrimeLen := by simpa [Host.hasPt, hec, hdh] using h
        simp only [saeDerivePtFfc]
        rw [if_pos (Nat.not_le.1 hlen), Option.map_none]

end Group

/-- **The list of PTs is complete.** It has a PT for every listed group of the crypto library that `sswu_curve_param` knows
or that is an FFC group with a prime of at most 512 bytes, in the order of the list, and every PT is an element of its
group. -/
theorem derivePt_complete {host : Host} {groups : Option (List ℤ)} (hfits : host.FitsPt (listedGroups (groups.getD [19, 0])))
    {ssid : Bytes} (hssid : ssid.length ≤ 32) (password : Bytes) (identifier : Option Bytes) :
    (saeDerivePt host groups ssid password identifier).map SaePt.group =
        (listedGroups (groups.getD [19, 0])).filter host.hasPt ∧
      ∀ pt ∈ saeDerivePt host groups ssid password identifier, pt.InGroup host := by
  unfold saeDerivePt
  have hlisted : ∀ g ∈ listedGroups (groups.getD [19, 0]), host.hasPt g = true →
      ∃ pt, saeDerivePtGroup host ssid password identifier g = some pt ∧ pt.group = g ∧ pt.InGroup host :=
    fun g hg h => saeDerivePtGroup_some hfits hssid password identifier hg h
  generalize listedGroups (groups.getD [19, 0]) = listed at hlisted ⊢
  induction listed with
  | nil => exact ⟨rfl, nofun⟩
  | cons g gs ih =>
    obtain ⟨hgroups, hvalid⟩ := ih fun g' hg' => hlisted g' (List.mem_cons_of_mem g hg')
    cases h : host.hasPt g with
    | true =>
      obtain ⟨pt, hpt, hgroup, hin⟩ := hlisted g List.mem_cons_self h
      rw [List.filterMap_cons_some hpt, List.filter_cons_of_pos h, List.map_cons, hgroup, hgroups]
      exact ⟨rfl, List.forall_mem_cons.2 ⟨hin, hvalid⟩⟩
    | false =>
      rw [List.filterMap_cons_none (saeDerivePtGroup_none h), List.filter_cons_of_neg (by simp [h])]
      exact ⟨hgroups, hvalid⟩

namespace Small

/-- The parameter of group 20 is valid for the small curve. -/
theorem swuParams :
    Scripts.SwuParams params.prime (params.a : ZMod params.prime) params.b (-12 : ℤ) where
  a_ne_zero := params.cast_a_ne_zero
  no_root := by
    have h : ∀ x : ZMod 23, x ^ 3 + ((1 : ℕ) : ZMod 23) * x + ((4 : ℕ) : ZMod 23) ≠ 0 := by decide
    exact h
  not_isSquare := by
    have h : ¬∃ y : ZMod 23, ((-12 : ℤ) : ZMod 23) = y * y := by decide
    exact h
  isSquare_exceptional := by
    have h : ∃ y : ZMod 23, (((4 : ℕ) : ZMod 23) * (((-12 : ℤ) : ZMod 23) * ((1 : ℕ) : ZMod 23))⁻¹) ^ 3 +
        ((1 : ℕ) : ZMod 23) * (((4 : ℕ) : ZMod 23) * (((-12 : ℤ) : ZMod 23) * ((1 : ℕ) : ZMod 23))⁻¹) +
          ((4 : ℕ) : ZMod 23) = y * y := by
      decide +kernel
    exact h

/-- The squares modulo 23. -/
def dhGroup : DhGroup := ⟨[23], [11], true⟩

theorem sound_dhGroup : dhGroup.Sound :=
  ⟨show Nat.Prime 23 by norm_num, by decide, show Nat.Prime 11 by norm_num, by decide⟩

/-- A host with the small curve as the groups 20 and 27, of which only the first has a parameter, and the squares modulo 23
as group 15. -/
def ptHost : Host := { host with
  ecInit := fun g => if g = 20 ∨ g = 27 then some group else none
  dhGet := fun g => if g = 15 then some dhGroup else none }

theorem fitsPt_ptHost (groups : List ℕ) : ptHost.FitsPt groups where
  ecc := by
    intro g _ ec z h hz
    simp only [ptHost] at h
    split at h
    · next hg =>
      cases h
      rcases hg with rfl | rfl
      · cases hz
        exact swuParams
      · cases hz
    · cases h
  ffc := by
    intro g _ dh _ h
    simp only [ptHost] at h
    split at h
    · cases h
      exact sound_dhGroup
    · cases h

end Small

/-- Of five groups two get a PT: the host does not have 21 and 22, and 27 has no parameter of the map. A group behind the
end of the list is not looked at. -/
theorem derivePt_complete_small :
    (saeDerivePt Small.ptHost (some [20, 21, 27, 15, 22, 0, 20]) [1, 2, 3] [97, 98, 99] none).map SaePt.group = [20, 15] :=
  (derivePt_complete (Small.fitsPt_ptHost _) (by decide) [97, 98, 99] none).1

end DecoyAuth
