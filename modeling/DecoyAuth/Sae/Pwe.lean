import DecoyAuth.Sae.Data

/-!
# The password element

Hunting and pecking for ECC and FFC groups (`sae_derive_pwe_ecc`, `sae_derive_pwe_ffc`), the blinded residue test and
the random scalars of `dragonfly.c`, and the password element from a PT. Random draws are arguments; a draw that is
missing is a failed call of the generator.
-/

namespace DecoyAuth

/-! ## Dragonfly -/

def dragonflyMinPweLoopIter (group : ℕ) : ℕ :=
  if group = 22 ∨ group = 23 ∨ group = 24 then 40
  else if group = 1 ∨ group = 2 ∨ group = 5 ∨ group = 14 ∨ group = 15 ∨ group = 16 ∨ group = 17 ∨ group = 18 then 1
  else 40

/-- `crypto_bignum_legendre` -/
def legendre (a : ℤ) (p : ℕ) : ℤ :=
  let tmp := bnModExp a ((p - 1) / 2) p
  if tmp = 0 then 0 else if tmp = 1 then 1 else -1

/-- `dragonfly_get_random_qr_qnr`, from the residues found so far. -/
def dragonflyGetRandomQrQnr (prime : ℕ) : List ℕ → Option ℤ → Option ℤ → Option (ℤ × ℤ)
  | _, some qr, some qnr => some (qr, qnr)
  | [], _, _ => none
  | draw :: draws, qr, qnr =>
    let tmp : ℤ := ((draw % prime : ℕ) : ℤ)
    if legendre tmp prime = 1 ∧ qr.isNone then dragonflyGetRandomQrQnr prime draws (some tmp) qnr
    else if legendre tmp prime = -1 ∧ qnr.isNone then dragonflyGetRandomQrQnr prime draws qr (some tmp)
    else dragonflyGetRandomQrQnr prime draws qr qnr

/-- `dragonfly_is_quadratic_residue_blind`, with the draw of `dragonfly_get_rand_1_to_p_1`. -/
def dragonflyIsQuadraticResidueBlind (prime : ℕ) (qr qnr val : ℤ) (draw : Option ℕ) : Option Bool := do
  let r : ℤ := (((← draw) % (prime - 1) : ℕ) : ℤ) + 1
  let num := bnModMul (bnModMul val r prime) r prime
  let (qrOrQnr, check) := if r % 2 = 1 then (qr, 1) else (qnr, -1)
  return legendre (bnModMul num qrOrQnr prime) prime = check

/-- `dragonfly_get_rand_2_to_r_1`: the value drawn, and whether it is in range. -/
def dragonflyGetRand2ToR1 (val order : ℤ) : Option ℕ → ℤ × Bool
  | none => (val, false)
  | some draw => (draw % order, draw % order ≠ 0 ∧ draw % order ≠ 1)

/-- The output arguments of `dragonfly_generate_scalar`. -/
structure Scalars where
  rand : ℤ
  mask : ℤ
  scalar : ℤ

/-- `dragonfly_generate_scalar` with `left` rounds to go. The outputs are written also when it fails. -/
def dragonflyGenerateScalar (order : ℤ) (draws : ℕ → Option ℕ × Option ℕ) : ℕ → ℕ → Scalars → Scalars × Bool
  | 0, _, out => (out, false)
  | left + 1, i, out =>
    let (rand, ok) := dragonflyGetRand2ToR1 out.rand order (draws i).1
    if !ok then dragonflyGenerateScalar order draws left (i + 1) { out with rand := rand }
    else
      let (mask, ok) := dragonflyGetRand2ToR1 out.mask order (draws i).2
      if !ok then dragonflyGenerateScalar order draws left (i + 1) { out with rand := rand, mask := mask }
      else
        let scalar := bnMod (rand + mask) order
        if scalar = 0 ∨ scalar = 1 then dragonflyGenerateScalar order draws left (i + 1) ⟨rand, mask, scalar⟩
        else (⟨rand, mask, scalar⟩, true)

/-- `dragonfly_sqrt` -/
def dragonflySqrt (prime : ℕ) (val : ℤ) : Option ℤ :=
  if prime % 4 = 3 then some (bnModExp val ((prime + 1) / 4) prime) else none

/-! ## Hunting and pecking -/

/-- A MAC address. -/
abbrev MacAddr := { b : Bytes // b.length = 6 }

/-- `sae_pwd_seed_key` and `sae_max_min_addr`: the larger address first. -/
def saePwdSeedKey (addr1 addr2 : MacAddr) : Bytes :=
  if Bytes.ofBe addr1.1 > Bytes.ofBe addr2.1 then addr1.1 ++ addr2.1 else addr2.1 ++ addr1.1

/-- What a derivation of a password element draws: the residues, the stub password and one blinding factor per
iteration. -/
structure PweDraws where
  qrQnr : List ℕ
  stubPassword : Bytes
  blind : ℕ → Option ℕ

/-- `crypto_ec_point_compute_y_sqr` -/
def computeYSqr (ec : EcParams) (x : ℤ) : ℤ :=
  bnModAdd (bnModMul (bnModAdd ec.a (bnModSqr x ec.prime) ec.prime) x ec.prime) ec.b ec.prime

/-- `buf_shift_right` -/
def bufShiftRight (buf : Bytes) (bits : ℕ) : Bytes := Bytes.toBe buf.length (Bytes.ofBe buf / 2 ^ bits)

section Ecc

variable (H : HashFns) (ec : EcParams)

/-- The candidate of `sae_test_pwd_seed_ecc`: KDF of the seed, with the bits of the prime. -/
def pwdValueEcc (pwdSeed : Bytes) : Bytes :=
  let primeLen := Bytes.numBytes ec.prime
  let bits := ec.prime.log2 + 1
  let value := H.prfBits 32 pwdSeed (ascii "SAE Hunting and Pecking") (Bytes.toBe primeLen ec.prime) bits
  if bits % 8 = 0 then value else bufShiftRight value (8 - bits % 8)

/-- `sae_test_pwd_seed_ecc`; the residue test is made also for a candidate that is out of range. -/
def saeTestPwdSeedEcc (pwdSeed : Bytes) (qr qnr : ℤ) (draw : Option ℕ) : Option (Bool × Bytes) := do
  let pwdValue := pwdValueEcc H ec pwdSeed
  let inRange := Bytes.ofBe pwdValue < ec.prime
  let res ← dragonflyIsQuadraticResidueBlind ec.prime qr qnr (computeYSqr ec (Bytes.ofBe pwdValue)) draw
  return (inRange && res, pwdValue)

/-- The variables of the loop of `sae_derive_pwe_ecc`. -/
structure PweSearch where
  found : Bool
  xBin : Bytes
  pwdSeedOdd : Bool

/-- `pwd-seed` of one iteration: the stub password takes the place of the password once a candidate was found. -/
def pwdSeed (addrs password : Bytes) (counter : ℕ) : Bytes := H.hmac 32 addrs (password ++ [UInt8.ofNat counter])

/-- One iteration of the loop of `sae_derive_pwe_ecc`. -/
def pweIteration (addrs password : Bytes) (qr qnr : ℤ) (draws : PweDraws) (counter : ℕ) (st : PweSearch) :
    Option PweSearch := do
  let seed := pwdSeed H addrs (if st.found then draws.stubPassword else password) counter
  let (res, xCandBin) ← saeTestPwdSeedEcc H ec seed qr qnr (draws.blind counter)
  return {
    found := st.found || res
    xBin := if st.found then st.xBin else xCandBin
    pwdSeedOdd := if st.found then st.pwdSeedOdd else (seed.getD 31 0).toNat % 2 = 1 }

/-- The loop, at least `k` and at most 200 iterations. -/
def pweLoop (k : ℕ) (addrs password : Bytes) (qr qnr : ℤ) (draws : PweDraws) : ℕ → ℕ → PweSearch → Option PweSearch
  | 0, _, st => some st
  | fuel + 1, counter, st =>
    if (counter ≤ k ∨ !st.found) ∧ counter ≤ 200 then do
      let st ← pweIteration H ec addrs password qr qnr draws counter st
      pweLoop k addrs password qr qnr draws fuel (counter + 1) st
    else some st

/-- The point with the abscissa that was found and the ordinate of the parity of the seed. -/
def pweFromSearch (st : PweSearch) : Option EcPoint := do
  if !st.found then none
  else
    let x : ℤ := Bytes.ofBe st.xBin
    let y ← dragonflySqrt ec.prime (computeYSqr ec x)
    ec.pointSetAffine x (if st.pwdSeedOdd = (y % 2 = 1) then y else ec.prime - y)

/-- `sae_derive_pwe_ecc` -/
def saeDerivePweEcc (group : ℕ) (addr1 addr2 : MacAddr) (password : Bytes) (draws : PweDraws) : Option EcPoint := do
  let (qr, qnr) ← dragonflyGetRandomQrQnr ec.prime draws.qrQnr none none
  let st ← pweLoop H ec (dragonflyMinPweLoopIter group) (saePwdSeedKey addr1 addr2) password qr qnr draws 201 1
    ⟨false, List.replicate (Bytes.numBytes ec.prime) 0, false⟩
  pweFromSearch ec st

end Ecc

section Ffc

variable (H : HashFns) (dh : DhGroup)

/-- `sae_test_pwd_seed_ffc`: whether the candidate is valid, and the candidate. -/
def saeTestPwdSeedFfc (pwdSeed : Bytes) : Bool × ℤ :=
  let prime := Bytes.ofBe dh.prime
  let pwdValue := H.prfBits 32 pwdSeed (ascii "SAE Hunting and Pecking") dh.prime (dh.prime.length * 8)
  let valid := Bytes.ofBe pwdValue < prime
  -- a value that is too large is made smaller, and its result ignored
  let pwdValue := if valid then pwdValue else pwdValue.set 0 0
  let exp := if dh.safePrime then 2 else (prime - 1) / Bytes.ofBe dh.order
  let pwe := bnModExp (Bytes.ofBe pwdValue) exp prime
  (valid && pwe ≠ 0 && pwe ≠ 1, pwe)

/-- The loop of `sae_derive_pwe_ffc`, with the selected element. -/
def pweLoopFfc (k : ℕ) (addrs password : Bytes) : ℕ → ℕ → Option ℤ → Option ℤ
  | 0, _, found => found
  | fuel + 1, counter, found =>
    if (counter ≤ k ∨ found.isNone) ∧ counter ≤ 200 then
      let (res, pwe) := saeTestPwdSeedFfc H dh (pwdSeed H addrs password counter)
      pweLoopFfc k addrs password fuel (counter + 1) (found.orElse fun _ => if res then some pwe else none)
    else found

/-- `sae_derive_pwe_ffc` -/
def saeDerivePweFfc (group : ℕ) (addr1 addr2 : MacAddr) (password : Bytes) : Option ℤ :=
  pweLoopFfc H dh (dragonflyMinPweLoopIter group) (saePwdSeedKey addr1 addr2) password 201 1 none

end Ffc

/-! ## The password element from a PT -/

def saeEccPrimeLen2HashLen (primeLen : ℕ) : ℕ := if primeLen ≤ 32 then 32 else if primeLen ≤ 48 then 48 else 64

theorem saeEccPrimeLen2HashLen_cases (primeLen : ℕ) :
    saeEccPrimeLen2HashLen primeLen = 32 ∨ saeEccPrimeLen2HashLen primeLen = 48 ∨ saeEccPrimeLen2HashLen primeLen = 64 := by
  unfold saeEccPrimeLen2HashLen
  split
  · exact .inl rfl
  · split
    · exact .inr (.inl rfl)
    · exact .inr (.inr rfl)

def saeFfcPrimeLen2HashLen (primeLen : ℕ) : ℕ := if primeLen ≤ 256 then 32 else if primeLen ≤ 384 then 48 else 64

theorem saeFfcPrimeLen2HashLen_cases (primeLen : ℕ) :
    saeFfcPrimeLen2HashLen primeLen = 32 ∨ saeFfcPrimeLen2HashLen primeLen = 48 ∨ saeFfcPrimeLen2HashLen primeLen = 64 := by
  unfold saeFfcPrimeLen2HashLen
  split
  · exact .inl rfl
  · split
    · exact .inr (.inl rfl)
    · exact .inr (.inr rfl)

/-- `val` of `sae_derive_pwe_from_pt_ecc` and `sae_derive_pwe_from_pt_ffc`, between 1 and `order - 1`. -/
def ptFactor (H : HashFns) (hashLen : ℕ) (order : ℤ) (addr1 addr2 : MacAddr) : ℤ :=
  bnMod (Bytes.ofBe (H.hmac hashLen (List.replicate hashLen 0) (saePwdSeedKey addr1 addr2))) (order - 1) + 1

/-- `enum sae_pwe` -/
inductive SaePwe
  | huntAndPeck
  | hashToElement
  | both
  | forceHuntAndPeck
  | notSet
deriving DecidableEq, Repr

/-- An element of the list of `sae_derive_pt`: a PT for an ECC or for an FFC group. -/
inductive SaePt
  | ecc (group : ℕ) (ec : EcGroup) (pt : EcPoint)
  | ffc (group : ℕ) (dh : DhGroup) (pt : ℤ)

def SaePt.group : SaePt → ℕ
  | .ecc g _ _ => g
  | .ffc g _ _ => g

/-- `sae_derive_pwe_from_pt_ecc`; neither the PT nor the result may be the point at infinity. -/
def saeDerivePweFromPtEcc (H : HashFns) (ec : EcGroup) (pt : EcPoint) (addr1 addr2 : MacAddr) : Option EcPoint :=
  let hashLen := saeEccPrimeLen2HashLen (Bytes.numBytes ec.prime)
  let pwe := ec.pointMul pt (ptFactor H hashLen ec.order addr1 addr2)
  if pt.isAtInfinity || pwe.isAtInfinity then none else some pwe

/-- `sae_derive_pwe_from_pt_ffc` -/
def saeDerivePweFromPtFfc (H : HashFns) (dh : DhGroup) (pt : ℤ) (addr1 addr2 : MacAddr) : ℤ :=
  let hashLen := saeFfcPrimeLen2HashLen dh.prime.length
  bnModExp pt (ptFactor H hashLen (Bytes.ofBe dh.order) addr1 addr2).toNat (Bytes.ofBe dh.prime)

end DecoyAuth
