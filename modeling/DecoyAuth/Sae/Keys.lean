import DecoyAuth.Sae.Commit

/-!
# Keys and confirms

`sae_process_commit` and `sae_write_confirm` derive and use the one key of a client. The access point has a key per
password: `sae_ap_process_commit` fills the tables index by index, and `sae_ap_check_confirm` searches them for the first
key whose verifier is in the confirm, and frees them when it finds one.
-/

namespace DecoyAuth

/-! ## The shared secret -/

/-- The point of `sae_derive_k_ecc` and `sae_ap_derive_k_ecc`. -/
def sharedPoint (ec : EcParams) (pwe : EcPoint) (peerScalar : ℤ) (peerElement : EcPoint) (rand : ℤ) : EcPoint :=
  ec.pointMul (ec.pointAdd (ec.pointMul pwe peerScalar) peerElement) rand

/-- What `sae_derive_k_ecc` and `sae_ap_derive_k_ecc` compute: the abscissa of the shared point, which must not be at
infinity. -/
def deriveKEcc (ec : EcParams) (pwe : EcPoint) (peerScalar : ℤ) (peerElement : EcPoint) (rand : ℤ) : Option Bytes :=
  (pointToBin ec (sharedPoint ec pwe peerScalar peerElement rand)).map Prod.fst

/-- What `sae_derive_k_ffc` computes. -/
def deriveKFfc (prime : ℤ) (primeLen : ℕ) (pwe peerScalar peerElement rand : ℤ) : Option Bytes :=
  let k := bnModExp (bnModMul (bnModExp pwe peerScalar.toNat prime) peerElement prime) rand.toNat prime
  if k = 1 then none else bnToBin k primeLen

/-- `sae_derive_k_ecc`, with the element of the one password. -/
def saeDeriveKEcc (ec : EcGroup) (sae : SaeData) (tmp : SaeTmp) : Option Bytes := do
  deriveKEcc ec.toEcParams (← tmp.pweEcc) (← sae.peerCommitScalar) (← tmp.peerCommitElementEcc) (← tmp.saeRand)

/-- `sae_ap_derive_k_ecc`, with the element of the password `index`. -/
def saeApDeriveKEcc (ec : EcGroup) (sae : SaeData) (tmp : SaeTmp) (index : ℕ) : Except Fault (Option Bytes) := do
  let pwe ← need (← tmp.pweEccs.slot .pweEccs index)
  return deriveKEcc ec.toEcParams pwe (← need sae.peerCommitScalar) (← need tmp.peerCommitElementEcc) (← need tmp.saeRand)

/-- `sae_derive_k_ffc` -/
def saeDeriveKFfc (sae : SaeData) (tmp : SaeTmp) : Except Fault (Option Bytes) := do
  return deriveKFfc tmp.prime tmp.primeLen (← need tmp.pweFfc) (← need sae.peerCommitScalar)
    (← need tmp.peerCommitElementFfc) (← need tmp.saeRand)

/-! ## Keys -/

/-- The digest length of the key derivation. -/
def keyHashLen (sae : SaeData) (tmp : SaeTmp) : ℕ :=
  if !sae.h2e then 32
  else if tmp.dh.isSome then saeFfcPrimeLen2HashLen tmp.primeLen
  else saeEccPrimeLen2HashLen tmp.primeLen

/-- The salt of the key seed: the rejected groups of both sides if there are any, and otherwise zeros. -/
def keySalt (sae : SaeData) (tmp : SaeTmp) : Bytes :=
  if sae.h2e ∧ (tmp.ownRejectedGroups.isSome ∨ tmp.peerRejectedGroups.isSome) then
    let own := tmp.ownRejectedGroups.getD []
    let peer := tmp.peerRejectedGroups.getD []
    if tmp.ownAddrHigher then own ++ peer else peer ++ own
  else List.replicate (keyHashLen sae tmp) 0

/-- What `sae_derive_keys` and `sae_ap_derive_keys` compute before they copy it into the instance. -/
def deriveKeys (H : HashFns) (sae : SaeData) (tmp : SaeTmp) (ownScalar peerScalar : ℤ) (k : Bytes) : Option KeyEntry := do
  let hashLen := keyHashLen sae tmp
  let pmkLen := if sae.akmp.isSaeExtKey then hashLen else 32
  let keyseed ← H.hkdfExtract hashLen (keySalt sae tmp) k
  let val ← bnToBin (bnMod (ownScalar + peerScalar) tmp.order) tmp.orderLen
  let keys ← H.saeKdfHash hashLen keyseed (ascii "SAE KCK and PMK") val (hashLen + pmkLen)
  return { kck := keys.take hashLen, pmk := (keys.drop hashLen).take pmkLen, pmkid := val.take 16 }

/-- `sae_derive_keys` -/
def saeDeriveKeys (host : Host) (sae : SaeData) (tmp : SaeTmp) (k : Bytes) : Option SaeData := do
  let key ← deriveKeys host.hash sae tmp (← tmp.ownCommitScalar) (← sae.peerCommitScalar) k
  return { sae with pmk := key.pmk, pmkid := key.pmkid, tmp := some { tmp with kck := key.kck } }

/-- `sae_ap_derive_keys` up to its stores, which follow in `processEntries`. -/
def saeApDeriveKeys (host : Host) (sae : SaeData) (tmp : SaeTmp) (k : Bytes) : Except Fault (Option KeyEntry) := do
  return deriveKeys host.hash sae tmp (← need tmp.ownCommitScalar) (← need sae.peerCommitScalar) k

/-- `sae_process_commit`; `none` is `-1`. -/
def saeProcessCommit (host : Host) (sae : SaeData) : Option SaeData := do
  let tmp ← sae.tmp
  let k ← match tmp.ec with
    | some ec => saeDeriveKEcc ec sae tmp
    | none => (saeDeriveKFfc sae tmp).toOption.join
  saeDeriveKeys host sae tmp k

/-- `k` of one index of `sae_ap_process_commit`. -/
def apSharedSecret (sae : SaeData) (tmp : SaeTmp) (i : ℕ) : Except Fault (Option Bytes) :=
  match tmp.ec with
  | some ec => saeApDeriveKEcc ec sae tmp i
  | none =>
    match tmp.dh with
    | some _ => saeDeriveKFfc sae tmp
    | none => .error .nullEc

/-- The keys of one index, or `none` where `sae_ap_process_commit` returns `-1`. -/
def apDeriveKeys (host : Host) (sae : SaeData) (tmp : SaeTmp) (i : ℕ) : Except Fault (Option KeyEntry) := do
  match ← apSharedSecret sae tmp i with
  | none => return none
  | some k => saeApDeriveKeys host sae tmp k

/-- The tables are allocated for the first keys, and never again. -/
def allocKeys (tmp : SaeTmp) : Table KeyEntry :=
  match tmp.keys with
  | .unset => .alloc tmp.numPasswords.toNat
  | keys => keys

/-- `sae_ap_process_commit` from the index `i` on. A failure leaves the keys of the indexes before it in the tables. -/
def processEntries (host : Host) (sae : SaeData) : ℕ → ℕ → SaeTmp → Except Fault (SaeTmp × Bool)
  | 0, _, tmp => return (tmp, true)
  | left + 1, i, tmp => do
    match ← apDeriveKeys host sae tmp i with
    | none => return (tmp, false)
    | some key =>
      let keys ← (allocKeys tmp).write .keys i (some key)
      processEntries host sae left (i + 1) { tmp with keys := keys }

/-- `sae_ap_process_commit`, with the history variable. -/
def saeApProcessCommit (host : Host) (sae : SaeData) : ApRun (SaeData × Bool) := do
  match sae.tmp with
  | none => Run.fault .nullTmp
  | some tmp =>
    let (tmp, ok) ← Run.lift (processEntries host sae tmp.numPasswords.toNat 0 tmp)
    Run.emit (.processCommit ok)
    return ({ sae with tmp := some tmp, processed := sae.processed || ok }, ok)

/-! ## Confirms -/

/-- `sae_cn_confirm` -/
def saeCnConfirm (H : HashFns) (primeLen : ℕ) (kck sc : Bytes) (scalar1 : ℤ) (element1 : Bytes) (scalar2 : ℤ)
    (element2 : Bytes) : Option Bytes := do
  let b1 ← bnToBin scalar1 primeLen
  let b2 ← bnToBin scalar2 primeLen
  H.hkdfExtract kck.length kck (sc ++ b1 ++ element1 ++ b2 ++ element2)

/-- `sae_cn_confirm_ecc` -/
def saeCnConfirmEcc (H : HashFns) (ec : EcParams) (primeLen : ℕ) (kck sc : Bytes) (scalar1 : ℤ) (element1 : EcPoint)
    (scalar2 : ℤ) (element2 : EcPoint) : Option Bytes := do
  let (x1, y1) ← pointToBin ec element1
  let (x2, y2) ← pointToBin ec element2
  saeCnConfirm H primeLen kck sc scalar1 (x1 ++ y1) scalar2 (x2 ++ y2)

/-- `sae_cn_confirm_ffc` -/
def saeCnConfirmFfc (H : HashFns) (primeLen : ℕ) (kck sc : Bytes) (scalar1 element1 scalar2 element2 : ℤ) :
    Option Bytes := do
  let b1 ← bnToBin element1 primeLen
  let b2 ← bnToBin element2 primeLen
  saeCnConfirm H primeLen kck sc scalar1 b1 scalar2 b2

/-- The confirm of this side, under the send-confirm counter `sc`. -/
def ownConfirm (host : Host) (sae : SaeData) (tmp : SaeTmp) (sc : Bytes) : Except Fault (Option Bytes) := do
  let ownScalar ← need tmp.ownCommitScalar
  let peerScalar ← need sae.peerCommitScalar
  match tmp.ec with
  | some ec =>
    return saeCnConfirmEcc host.hash ec.toEcParams tmp.primeLen tmp.kck sc ownScalar (← need tmp.ownCommitElementEcc)
      peerScalar (← need tmp.peerCommitElementEcc)
  | none =>
    return saeCnConfirmFfc host.hash tmp.primeLen tmp.kck sc ownScalar (← need tmp.ownCommitElementFfc) peerScalar
      (← need tmp.peerCommitElementFfc)

/-- `sae_write_confirm` -/
def saeWriteConfirm (host : Host) (sae : SaeData) : Except Fault (SaeData × Option Bytes) :=
  match sae.tmp with
  | none => return (sae, none)
  | some tmp => do
    let sae := { sae with sendConfirm := if sae.sendConfirm < 0xffff then sae.sendConfirm + 1 else sae.sendConfirm }
    let sc := Bytes.le16 sae.sendConfirm
    let confirm ← ownConfirm host sae tmp sc
    return (sae, confirm.map (sc ++ ·))

/-- The verifier of one index of `sae_ap_check_confirm`, on the instance with the keys and elements of that index; `none`
where something is missing. -/
def apVerifier (host : Host) (sae : SaeData) (tmp : SaeTmp) (data : Bytes) : Option Bytes := do
  let peerScalar ← sae.peerCommitScalar
  let ownScalar ← tmp.ownCommitScalar
  match tmp.ec with
  | some ec =>
    saeCnConfirmEcc host.hash ec.toEcParams tmp.primeLen tmp.kck (data.take 2) peerScalar (← tmp.peerCommitElementEcc)
      ownScalar (← tmp.ownCommitElementEcc)
  | none =>
    saeCnConfirmFfc host.hash tmp.primeLen tmp.kck (data.take 2) peerScalar (← tmp.peerCommitElementFfc) ownScalar
      (← tmp.ownCommitElementFfc)

/-- The instance after the copies of one index of `sae_ap_check_confirm`. -/
def loadEntry (sae : SaeData) (tmp : SaeTmp) (key : KeyEntry) (pwe element : Option EcPoint) : SaeData × SaeTmp :=
  ({ sae with pmk := key.pmk, pmkid := key.pmkid },
    { tmp with
      kck := key.kck
      pweEcc := tmp.ec.map fun ec => clonePoint ec.toEcParams pwe
      ownCommitElementEcc := tmp.ec.map fun ec => clonePoint ec.toEcParams element })

/-- What the first matching index frees. -/
def releaseTables (tmp : SaeTmp) : SaeTmp :=
  { tmp with keys := .released, pweEccs := .released, ownCommitElementEccs := .released }

/-- `sae_ap_check_confirm` from the index `i` on: where it returns 0, what it stores in `*ie_offset`. -/
def searchEntries (host : Host) (data : Bytes) :
    ℕ → ℕ → SaeData → SaeTmp → Except Fault (SaeData × SaeTmp × Option ℕ)
  | 0, _, sae, tmp => return (sae, tmp, none)
  | left + 1, i, sae, tmp => do
    let key ← tmp.keys.read .keys i
    if data.length < 2 + key.kck.length then searchEntries host data left (i + 1) sae tmp
    else
      let pwe ← tmp.pweEccs.slot .pweEccs i
      let element ← tmp.ownCommitElementEccs.slot .ownCommitElementEccs i
      let (sae, tmp) := loadEntry sae tmp key pwe element
      match apVerifier host sae tmp data with
      | some verifier =>
        if verifier = (data.drop 2).take key.kck.length then return (sae, releaseTables tmp, some (2 + key.kck.length))
        else searchEntries host data left (i + 1) sae tmp
      | none =>
        -- the FFC branch gives up where the ECC branch goes on
        if tmp.ec.isNone ∧ sae.peerCommitScalar.isSome ∧ tmp.ownCommitScalar.isSome then return (sae, tmp, none)
        else searchEntries host data left (i + 1) sae tmp

/-- `sae_ap_check_confirm` with the value that it stores in `*ie_offset`; `none` is `-1`. -/
def saeApCheckConfirmIe (host : Host) (data : Bytes) (sae : SaeData) : Except Fault (SaeData × Option ℕ) :=
  match sae.tmp with
  | none => .error .nullTmp
  | some tmp => do
    let (sae, tmp, offset) ← searchEntries host data tmp.numPasswords.toNat 0 sae tmp
    return ({ sae with tmp := some tmp }, offset)

/-- `sae_ap_check_confirm` as `handle_auth_sae` calls it, without an `ie_offset`. -/
def saeApCheckConfirm (host : Host) (data : Bytes) (sae : SaeData) : ApRun (SaeData × Bool) := do
  let (sae, offset) ← Run.lift (saeApCheckConfirmIe host data sae)
  Run.emit (.checkConfirm offset.isSome)
  return (sae, offset.isSome)

end DecoyAuth
