import DecoyAuth.Encode.Defs
import DecoyAuth.Sae.Pwe
import DecoyAuth.Weaver.Defs

/-!
# Preparing and writing a commit

The ordinary commit of `sae.c` (`sae_prepare_commit`, `sae_prepare_commit_pt`, `sae_write_commit`) and the commit of the
access point: `sae_ap_prepare_commit` derives one password element and one commit element per password and weaves the
encodings of the commit elements into two lists of coefficients, which `sae_ap_write_commit` sends and frees.
-/

namespace DecoyAuth

/-! ## Binary forms -/

/-- `crypto_bignum_to_bin` with padding. -/
def bnToBin (a : ℤ) (padLen : ℕ) : Option Bytes := if a < 256 ^ padLen then some (Bytes.toBe padLen a.toNat) else none

/-- `crypto_ec_point_to_bin`: both coordinates, padded to the length of the prime. -/
def pointToBin (ec : EcParams) (point : EcPoint) : Option (Bytes × Bytes) := do
  let (x, y) ← point.getAffine
  let len := Bytes.numBytes ec.prime
  return (← bnToBin x len, ← bnToBin y len)

/-- `crypto_ec_point_from_bin` -/
def pointFromBin (ec : EcParams) (val : Bytes) : Option EcPoint :=
  let len := Bytes.numBytes ec.prime
  ec.pointSetAffine (Bytes.ofBe (val.take len)) (Bytes.ofBe ((val.drop len).take len))

def saeMaxEccPrimeLen : ℕ := 66

/-- `crypto_ec_point_clone` into a fresh point. A failure leaves the copy at infinity, and no caller looks at it. -/
def clonePoint (ec : EcParams) (point : Option EcPoint) : EcPoint :=
  match point with
  | none => .infinity
  | some point =>
    if Bytes.numBytes ec.prime > saeMaxEccPrimeLen then .infinity
    else
      match pointToBin ec point with
      | none => .infinity
      | some (x, y) => if (pointFromBin ec (x ++ y)).isSome then point else .infinity

/-! ## Commit elements -/

/-- `sae_derive_commit_element_ecc`: the inverse of `mask * PWE`. -/
def commitElementEcc (ec : EcParams) (pwe : EcPoint) (mask : ℤ) : EcPoint := ec.pointInvert (ec.pointMul pwe mask)

/-- `sae_derive_commit_element_ffc` -/
def commitElementFfc (prime : ℤ) (pwe mask : ℤ) : Option ℤ := bnModInverse (bnModExp pwe mask.toNat prime) prime

/-- What a commit draws: pairs for the scalar, and for each password the draws of its password element and of the encoding
of its commit element. -/
structure CommitDraws where
  scalar : ℕ → Option ℕ × Option ℕ
  pwe : ℕ → PweDraws
  encode : ℕ → ℕ → Encode.Draw

/-- `dragonfly_generate_scalar` on the fields of the instance and a fresh mask. -/
def generateScalar (tmp : SaeTmp) (draws : CommitDraws) : Scalars × Bool :=
  dragonflyGenerateScalar tmp.order draws.scalar 100 0 ⟨tmp.saeRand.getD 0, 0, tmp.ownCommitScalar.getD 0⟩

/-- `sae_derive_commit` -/
def saeDeriveCommit (tmp : SaeTmp) (draws : CommitDraws) : SaeTmp × Bool :=
  let (out, ok) := generateScalar tmp draws
  let tmp := { tmp with saeRand := some out.rand, ownCommitScalar := some out.scalar }
  if !ok then (tmp, false)
  else
    match tmp.ec, tmp.dh with
    | some ec, _ =>
      ({ tmp with ownCommitElementEcc := tmp.pweEcc.map fun pwe => commitElementEcc ec.toEcParams pwe out.mask }, true)
    | none, some _ =>
      let element := tmp.pweFfc.bind fun pwe => commitElementFfc tmp.prime pwe out.mask
      ({ tmp with ownCommitElementFfc := element }, element.isSome)
    | none, none => (tmp, true)

/-- `sae_prepare_commit` -/
def saePrepareCommit (host : Host) (addr1 addr2 : MacAddr) (password : Bytes) (draws : CommitDraws) (sae : SaeData) :
    SaeData × Bool :=
  match sae.tmp with
  | none => (sae, false)
  | some tmp =>
    let pwe := tmp.ec.map fun ec => saeDerivePweEcc host.hash ec.toEcParams sae.group addr1 addr2 password (draws.pwe 0)
    let pweFfc := tmp.dh.map fun dh => saeDerivePweFfc host.hash dh sae.group addr1 addr2 password
    if pwe = some none ∨ pweFfc = some none then (sae, false)
    else
      let tmp := { tmp with pweEcc := pwe.getD tmp.pweEcc, pweFfc := pweFfc.getD tmp.pweFfc }
      let (tmp, ok) := saeDeriveCommit tmp draws
      ({ sae with h2e := false, pk := false, tmp := some tmp }, ok)

/-- The password element from a PT, as `sae_prepare_commit_pt` derives it. -/
def pweFromPt (H : HashFns) (pt : SaePt) (addr1 addr2 : MacAddr) (tmp : SaeTmp) : SaeTmp × Bool :=
  let tmp := { tmp with
    ownAddrHigher := Bytes.ofBe addr1.1 > Bytes.ofBe addr2.1
    ownRejectedGroups := none }
  match pt with
  | .ecc _ ec pt =>
    let pwe := saeDerivePweFromPtEcc H ec pt addr1 addr2
    ({ tmp with pweEcc := pwe }, pwe.isSome)
  | .ffc _ dh pt => ({ tmp with pweFfc := some (saeDerivePweFromPtFfc H dh pt addr1 addr2) }, true)

/-- `sae_prepare_commit_pt` without rejected groups, as the access point calls it. -/
def saePrepareCommitPt (host : Host) (pts : List SaePt) (addr1 addr2 : MacAddr) (draws : CommitDraws) (sae : SaeData) :
    SaeData × Bool :=
  match sae.tmp with
  | none => (sae, false)
  | some tmp =>
    match pts.find? fun pt => pt.group = sae.group with
    | none => (sae, false)
    | some pt =>
      let (tmp, derived) := pweFromPt host.hash pt addr1 addr2 tmp
      if !derived then ({ sae with tmp := some tmp }, false)
      else
        let (tmp, ok) := saeDeriveCommit tmp draws
        ({ sae with h2e := true, tmp := some tmp }, ok)

/-! ## The commit of the access point -/

section ApPrepare

variable (host : Host) (addr1 addr2 : MacAddr) (draws : CommitDraws) (mask : ℤ)

/-- The body of the first loop of `sae_ap_prepare_commit`, for an ECC group. -/
def prepareEntryEcc (ec : EcGroup) (i : ℕ) (sae : SaeData) (tmp : SaeTmp) : ApRun (SaeData × SaeTmp × Bool) :=
  match saeDerivePweEcc host.hash ec.toEcParams sae.group addr1 addr2 (host.passwords.getD i []) (draws.pwe i) with
  | none => return (sae, tmp, false)
  | some pwe => do
    let sae := { sae with h2e := false, pk := false }
    let element := commitElementEcc ec.toEcParams pwe mask
    let pweEccs ← Run.lift (tmp.pweEccs.write .pweEccs i (some (clonePoint ec.toEcParams (some pwe))))
    let elements ← Run.lift
      (tmp.ownCommitElementEccs.write .ownCommitElementEccs i (some (clonePoint ec.toEcParams (some element))))
    let tmp := { tmp with
      pweEcc := some pwe
      ownCommitElementEcc := some element
      pweEccs := pweEccs
      ownCommitElementEccs := elements }
    return (sae, tmp, true)

/-- The body of the loop without an ECC group: what `crypto_ec_point_init` returns for it is `NULL`. -/
def prepareEntryFfc (i : ℕ) (sae : SaeData) (tmp : SaeTmp) : ApRun (SaeData × SaeTmp × Bool) := do
  let pwe := tmp.dh.map fun dh => saeDerivePweFfc host.hash dh sae.group addr1 addr2 (host.passwords.getD i [])
  let tmp := { tmp with pweFfc := pwe.getD tmp.pweFfc }
  if pwe = some none then return (sae, tmp, false)
  else
    let sae := { sae with h2e := false, pk := false }
    let element := tmp.pweFfc.bind fun pwe => commitElementFfc tmp.prime pwe mask
    let tmp := { tmp with ownCommitElementFfc := element }
    let pweEccs ← Run.lift (tmp.pweEccs.write .pweEccs i none)
    let elements ← Run.lift (tmp.ownCommitElementEccs.write .ownCommitElementEccs i none)
    return (sae, { tmp with pweEccs := pweEccs, ownCommitElementEccs := elements }, true)

/-- The body of the loop. -/
def prepareEntry (i : ℕ) (sae : SaeData) (tmp : SaeTmp) : ApRun (SaeData × SaeTmp × Bool) :=
  match tmp.ec with
  | some ec => prepareEntryEcc host addr1 addr2 draws mask ec i sae tmp
  | none => prepareEntryFfc host addr1 addr2 mask i sae tmp

/-- The first loop of `sae_ap_prepare_commit`, from the index `i` on. -/
def prepareEntries : ℕ → ℕ → SaeData → SaeTmp → ApRun (SaeData × SaeTmp × Bool)
  | 0, _, sae, tmp => return (sae, tmp, true)
  | left + 1, i, sae, tmp => do
    let (sae, tmp, ok) ← prepareEntry host addr1 addr2 draws mask i sae tmp
    if !ok then return (sae, tmp, false) else prepareEntries left (i + 1) sae tmp

end ApPrepare

/-- The calls of `crypto_point_to_values` for the indexes from `i` on. -/
def encodeElements (ec : Option EcGroup) (elements : Table EcPoint) (draws : CommitDraws) :
    ℕ → ℕ → Except Fault (List (ℤ × ℤ))
  | 0, _ => .ok []
  | left + 1, i => do
    let element ← elements.slot .ownCommitElementEccs i
    match ec with
    | none => .error .nullEc
    | some ec =>
      match element.bind fun point => Encode.pointToValues ec.toEcParams point (draws.encode i) with
      | none => .error .noEncoding
      | some values => return values :: (← encodeElements (some ec) elements draws left (i + 1))

/-- The hashes of the passwords, the abscissae of the polynomials. -/
def passwordHash (H : HashFns) (password : Bytes) : ℤ := Bytes.ofBe (H.sha256 password)

def hashValues (host : Host) (n : ℕ) : List ℤ :=
  (List.range n).map fun i => passwordHash host.hash (host.passwords.getD i [])

/-- `crypto_weave` of the ordinates `ys` over the matrix of `crypto_precompute`. -/
def cryptoWeave (ec : EcParams) (hashes ys : List ℤ) : Table ℤ :=
  let n := hashes.length
  .live ((Weaver.Hostap.weave ys (Weaver.Hostap.precompute hashes n ec.prime) n ec.prime).map some)

/-- The end of `sae_ap_prepare_commit`: weave the values over the hashes of the passwords. -/
def storeCoefficients (host : Host) (n : ℕ) (values : List (ℤ × ℤ)) (tmp : SaeTmp) : SaeTmp :=
  match tmp.ec with
  | none => tmp
  | some ec => { tmp with
      uCoefficients := cryptoWeave ec.toEcParams (hashValues host n) (values.map Prod.fst)
      vCoefficients := cryptoWeave ec.toEcParams (hashValues host n) (values.map Prod.snd) }

/-- `sae_ap_prepare_commit`. The result of `dragonfly_generate_scalar` is overwritten before anyone looks at it. -/
def saeApPrepareCommit (host : Host) (addr1 addr2 : MacAddr) (draws : CommitDraws) (sae : SaeData) :
    ApRun (SaeData × Bool) := do
  match sae.tmp with
  | none => Run.fault .nullTmp
  | some tmp =>
    let n := tmp.numPasswords.toNat
    let (out, _) := generateScalar tmp draws
    let tmp := { tmp with saeRand := some out.rand, ownCommitScalar := some out.scalar }
    let (sae, tmp, ok) ← prepareEntries host addr1 addr2 draws out.mask n 0 sae tmp
    if !ok then return ({ sae with tmp := some tmp }, false)
    else
      let values ← Run.lift (encodeElements tmp.ec tmp.ownCommitElementEccs draws n 0)
      return ({ sae with tmp := some (storeCoefficients host n values tmp) }, true)

/-! ## Writing -/

def wlanEidExtension : UInt8 := 255
def wlanEidExtPasswordIdentifier : UInt8 := 33
def wlanEidExtRejectedGroups : UInt8 := 92
def wlanEidExtAntiCloggingToken : UInt8 := 93
def wlanEidExtAkmSuiteSelector : UInt8 := 114

/-- An extended element: its tag, the length of what follows, its extension tag and its content. -/
def extElement (ext : UInt8) (content : Bytes) : Bytes :=
  [wlanEidExtension, UInt8.ofNat (1 + content.length), ext] ++ content

/-- The elements after the commit element: the identifier, the rejected groups, the token container and the AKM suite
selector. -/
def commitElements (sae : SaeData) (tmp : SaeTmp) (token identifier : Option Bytes) : Bytes :=
  (identifier.map (extElement wlanEidExtPasswordIdentifier)).getD [] ++
  (if sae.h2e then (tmp.ownRejectedGroups.map (extElement wlanEidExtRejectedGroups)).getD [] else []) ++
  (if sae.h2e then (token.map (extElement wlanEidExtAntiCloggingToken)).getD [] else []) ++
  (if sae.akmp.isSaeExtKey then extElement wlanEidExtAkmSuiteSelector (Bytes.toBe 4 sae.akmp.toSuite) else [])

/-- What writing the AKM suite selector leaves in the instance. -/
def SaeData.noteAkmSuite (sae : SaeData) : SaeData :=
  if sae.akmp.isSaeExtKey then { sae with ownAkmSuiteSelector := sae.akmp.toSuite } else sae

/-- `sae_write_commit` -/
def saeWriteCommit (sae : SaeData) (token identifier : Option Bytes) : Option (SaeData × Bytes) := do
  let tmp ← sae.tmp
  let scalar ← bnToBin (← tmp.ownCommitScalar) tmp.primeLen
  let element ← match tmp.ec with
    | some ec => (tmp.ownCommitElementEcc.bind (pointToBin ec.toEcParams)).map fun (x, y) => x ++ y
    | none => tmp.ownCommitElementFfc.bind fun element => bnToBin element tmp.primeLen
  return (sae.noteAkmSuite, Bytes.le16 sae.group ++ (if sae.h2e then [] else token.getD []) ++ scalar ++ element ++
    commitElements sae tmp token identifier)

def saeCommitMaxLen : ℕ := 2 + 3 * saeMaxPrimeLen + 255

/-- `wpabuf_put` of `len` bytes on a buffer of the given size. -/
def wpabufPut (size : ℕ) (buf : Bytes) (len : ℕ) : Except Fault Unit :=
  if buf.length + len ≤ size then .ok () else .error .bufferOverflow

/-- One of the two loops of `sae_ap_write_commit`, from the index `i` on; `none` is `return -1`. -/
def writeCoefficients (size primeLen : ℕ) (id : TableId) (coefficients : Table ℤ) :
    ℕ → ℕ → Bytes → Except Fault (Option Bytes)
  | 0, _, buf => .ok (some buf)
  | left + 1, i, buf => do
    wpabufPut size buf primeLen
    let coefficient ← coefficients.read id i
    match bnToBin coefficient primeLen with
    | none => return none
    | some bin => writeCoefficients size primeLen id coefficients left (i + 1) (buf ++ bin)

/-- `sae_ap_write_commit` into a fresh buffer, without a token, which only a mesh instance has. The coefficients are freed
as they are written. -/
def saeApWriteCommit (host : Host) (size : ℕ) (identifier : Option Bytes) (sae : SaeData) :
    ApRun (SaeData × Option Bytes) := do
  match sae.tmp with
  | none => return (sae, none)
  | some tmp =>
    Run.emit (.writeCommit tmp.ec tmp.uCoefficients tmp.vCoefficients tmp.ownCommitElementEccs)
    let n := tmp.numPasswords.toNat
    match bnToBin (tmp.ownCommitScalar.getD 0) tmp.primeLen with
    | none => return (sae, none)
    | some scalar =>
      let buf := Bytes.le16 sae.group ++ scalar
      Run.lift (wpabufPut size buf 4)
      let buf := buf ++ Bytes.ofInt32 host.byteOrder tmp.numPasswords
      let buf ← Run.lift (writeCoefficients size tmp.primeLen .uCoefficients tmp.uCoefficients n 0 buf)
      let tmp := { tmp with uCoefficients := .released }
      match buf with
      | none => return ({ sae with tmp := some tmp }, none)
      | some buf =>
        let buf ← Run.lift (writeCoefficients size tmp.primeLen .vCoefficients tmp.vCoefficients n 0 buf)
        let tmp := { tmp with vCoefficients := .released }
        match buf with
        | none => return ({ sae with tmp := some tmp }, none)
        | some buf =>
          let elements := commitElements sae tmp none identifier
          Run.lift (wpabufPut size buf elements.length)
          return ({ sae.noteAkmSuite with tmp := some tmp }, some (buf ++ elements))

end DecoyAuth
