import DecoyAuth.Sae.Commit

/-!
# Parsing a commit

`sae_parse_commit`, which the access point runs on the commit of a station, and `sae_ap_parse_commit`, which a client runs
on the commit of an access point. The cursor of the source is the list of the bytes that are left. The client's parser
also reports where it reads, where it stores a coefficient and the count it evaluates with, because nothing in the source
keeps these in bounds.
-/

namespace DecoyAuth

/-! ## Fields and elements -/

/-- The instance, the status of the last field and the bytes that are left. -/
structure Parsed where
  sae : SaeData
  tmp : SaeTmp
  status : Status
  rest : Bytes

/-- Parse the next field, if the last one was right. -/
def Parsed.andThen (p : Parsed) (next : SaeData → SaeTmp → Bytes → Parsed) : Parsed :=
  if p.status = .success then next p.sae p.tmp p.rest else p

/-- `sae_parse_commit_token`: what is longer than the scalar and the element starts with a token, if it is as long as
one. -/
def saeParseCommitToken (tmp : SaeTmp) (h2e : Bool) (rest : Bytes) : Option Bytes × Bytes :=
  let scalarElemLen := (if tmp.ec.isSome then 3 else 2) * tmp.primeLen
  let tlen := rest.length - scalarElemLen
  if h2e ∨ scalarElemLen ≥ rest.length ∨ tlen < 32 then (none, rest) else (some (rest.take tlen), rest.drop tlen)

/-- `sae_parse_commit_scalar` -/
def saeParseCommitScalar (sae : SaeData) (tmp : SaeTmp) (rest : Bytes) : Parsed :=
  if tmp.primeLen > rest.length then ⟨sae, tmp, .unspecifiedFailure, rest⟩
  else
    let scalar : ℤ := Bytes.ofBe (rest.take tmp.primeLen)
    if sae.state = .accepted ∧ sae.peerCommitScalarAccepted = some scalar then ⟨sae, tmp, .unspecifiedFailure, rest⟩
    else if scalar = 0 ∨ scalar = 1 ∨ scalar ≥ tmp.order then ⟨sae, tmp, .unspecifiedFailure, rest⟩
    else ⟨{ sae with peerCommitScalar := some scalar }, tmp, .success, rest.drop tmp.primeLen⟩

/-- `sae_parse_commit_element_ecc` -/
def saeParseCommitElementEcc (ec : EcParams) (sae : SaeData) (tmp : SaeTmp) (rest : Bytes) : Parsed :=
  if 2 * tmp.primeLen > rest.length then ⟨sae, tmp, .unspecifiedFailure, rest⟩
  else if Bytes.ofBe (rest.take tmp.primeLen) ≥ ec.prime ∨
      Bytes.ofBe ((rest.drop tmp.primeLen).take tmp.primeLen) ≥ ec.prime then ⟨sae, tmp, .unspecifiedFailure, rest⟩
  else
    let element := pointFromBin ec rest
    let tmp := { tmp with peerCommitElementEcc := element }
    if element.isNone then ⟨sae, tmp, .unspecifiedFailure, rest⟩
    else ⟨sae, tmp, .success, rest.drop (2 * tmp.primeLen)⟩

/-- `sae_parse_commit_element_ffc` -/
def saeParseCommitElementFfc (sae : SaeData) (tmp : SaeTmp) (rest : Bytes) : Parsed :=
  if tmp.primeLen > rest.length then ⟨sae, tmp, .unspecifiedFailure, rest⟩
  else
    let element : ℤ := Bytes.ofBe (rest.take tmp.primeLen)
    let tmp := { tmp with peerCommitElementFfc := some element }
    if element = 0 ∨ element = 1 ∨ element ≥ tmp.prime - 1 ∨ bnModExp element tmp.order.toNat tmp.prime ≠ 1 then
      ⟨sae, tmp, .unspecifiedFailure, rest⟩
    else ⟨sae, tmp, .success, rest.drop tmp.primeLen⟩

/-- `sae_parse_commit_element`. An instance without a group does not get here: no scalar is below its order. -/
def saeParseCommitElement (sae : SaeData) (tmp : SaeTmp) (rest : Bytes) : Parsed :=
  if tmp.dh.isSome then saeParseCommitElementFfc sae tmp rest
  else
    match tmp.ec with
    | some ec => saeParseCommitElementEcc ec.toEcParams sae tmp rest
    | none => ⟨sae, tmp, .unspecifiedFailure, rest⟩

/-- The four tests `sae_is_*_elem`: at least `need` bytes are left and start with the extension `ext`, whose length is at
least `minLen` and does not run over the end. -/
def isElem (need minLen : ℕ) (ext : UInt8) (rest : Bytes) : Bool :=
  need ≤ rest.length && rest.getD 0 0 = wlanEidExtension && minLen ≤ (rest.getD 1 0).toNat &&
    (rest.getD 1 0).toNat ≤ rest.length - 2 && rest.getD 2 0 = ext

def saeIsPasswordIdElem : Bytes → Bool := isElem 3 1 wlanEidExtPasswordIdentifier
def saeIsRejectedGroupsElem : Bytes → Bool := isElem 3 2 wlanEidExtRejectedGroups
def saeIsTokenContainerElem : Bytes → Bool := isElem 3 1 wlanEidExtAntiCloggingToken
def saeIsAkmSuiteSelectorElem : Bytes → Bool := isElem 7 5 wlanEidExtAkmSuiteSelector

/-- The content of the element that the bytes start with, and what follows the element. -/
def elemContent (rest : Bytes) : Bytes := (rest.drop 3).take ((rest.getD 1 0).toNat - 1)

def afterElem (rest : Bytes) : Bytes := rest.drop (2 + (rest.getD 1 0).toNat)

/-- The string of a buffer, up to the first null byte. -/
def cString (bs : Bytes) : Bytes := bs.takeWhile (· ≠ 0)

/-- `sae_parse_password_identifier` -/
def saeParsePasswordIdentifier (h2e : Bool) (sae : SaeData) (tmp : SaeTmp) (rest : Bytes) : Parsed :=
  if !saeIsPasswordIdElem rest then
    if tmp.pwId.isSome then ⟨sae, tmp, .unknownPasswordIdentifier, rest⟩
    else ⟨sae, { tmp with parsedPwId := none }, .success, rest⟩
  else if !h2e || sae.noPwId || (tmp.pwId.map fun id => decide (elemContent rest ≠ cString id)).getD false then
    ⟨sae, tmp, .unknownPasswordIdentifier, rest⟩
  else ⟨sae, { tmp with parsedPwId := some (elemContent rest) }, .success, afterElem rest⟩

/-- `sae_parse_rejected_groups` -/
def saeParseRejectedGroups (sae : SaeData) (tmp : SaeTmp) (rest : Bytes) : Parsed :=
  if !saeIsRejectedGroupsElem rest then ⟨sae, { tmp with peerRejectedGroups := none }, .success, rest⟩
  else if (elemContent rest).length % 2 = 1 then ⟨sae, tmp, .unspecifiedFailure, rest⟩
  else ⟨sae, { tmp with peerRejectedGroups := some (elemContent rest) }, .success, afterElem rest⟩

/-- `sae_parse_token_container`, which does not move the cursor. -/
def saeParseTokenContainer (rest : Bytes) (token : Option Bytes) : Option Bytes :=
  if saeIsTokenContainerElem rest then some (elemContent rest) else token

/-- `sae_parse_akm_suite_selector` -/
def saeParseAkmSuiteSelector (sae : SaeData) (tmp : SaeTmp) (rest : Bytes) : Parsed :=
  if !saeIsAkmSuiteSelectorElem rest then ⟨sae, tmp, .success, rest⟩
  else
    ⟨{ sae with peerAkmSuiteSelector := Bytes.ofBe ((elemContent rest).take 4) }, tmp, .success, afterElem rest⟩

/-! ## The end of a commit -/

/-- The peer sent back the scalar and the element that this instance sent. -/
def isReflection (sae : SaeData) (tmp : SaeTmp) : Bool :=
  tmp.ownCommitScalar.isSome && tmp.ownCommitScalar = sae.peerCommitScalar &&
    (tmp.dh.isNone || (tmp.ownCommitElementFfc.isSome && tmp.ownCommitElementFfc = tmp.peerCommitElementFfc)) &&
    (tmp.ec.isNone || (tmp.ownCommitElementEcc.isSome && tmp.ownCommitElementEcc = tmp.peerCommitElementEcc))

/-- The AKM that the peer's selector asks for, if none was set. -/
def SaeData.noteAkmp (sae : SaeData) : SaeData :=
  if sae.akmp ≠ .unset then sae
  else if sae.peerAkmSuiteSelector = rsnAuthKeyMgmtSaeExtKey then { sae with akmp := .saeExtKey }
  else if sae.peerAkmSuiteSelector = rsnAuthKeyMgmtFtSaeExtKey then { sae with akmp := .ftSaeExtKey }
  else sae

/-- The rest of both parsers after the elements: the selectors, the AKM and the reflection check. -/
def finishCommit (sae : SaeData) (tmp : SaeTmp) (rest : Bytes) : Parsed :=
  if sae.ownAkmSuiteSelector ≠ 0 ∧ sae.ownAkmSuiteSelector ≠ sae.peerAkmSuiteSelector then
    ⟨sae, tmp, .unspecifiedFailure, rest⟩
  else ⟨sae.noteAkmp, tmp, if isReflection sae tmp then .saeSilentlyDiscard else .success, rest⟩

/-- Both parsers from the password identifier on. -/
def parseElements (h2e : Bool) (sae : SaeData) (tmp : SaeTmp) (rest : Bytes) : Parsed :=
  (((saeParsePasswordIdentifier h2e sae tmp rest).andThen fun sae tmp rest =>
    if h2e then saeParseRejectedGroups sae tmp rest
    else ⟨sae, { tmp with peerRejectedGroups := none }, .success, rest⟩).andThen fun sae tmp rest =>
    if h2e then saeParseAkmSuiteSelector sae tmp rest else ⟨sae, tmp, .success, rest⟩).andThen finishCommit

/-- The bytes at which `sae_parse_token_container` looks: those after the identifier and the rejected groups, if these were
right. -/
def tokenContainerAt (sae : SaeData) (tmp : SaeTmp) (rest : Bytes) : Option Bytes :=
  let p := (saeParsePasswordIdentifier true sae tmp rest).andThen saeParseRejectedGroups
  if p.status = .success then some p.rest else none

/-- A group that the peer rejected is one of the enabled groups, or the list of the peer is malformed. -/
def rejectedGroupEnabled (enabled : List ℤ) (sae : SaeData) : Bool :=
  match sae.tmp.bind (·.peerRejectedGroups) with
  | none => false
  | some groups =>
    groups.length % 2 = 1 || (List.range (groups.length / 2)).any fun i =>
      (enabled.takeWhile (0 < ·)).contains (Bytes.getLe16 (groups.drop (2 * i)) : ℤ)

/-! ## The access point's parser -/

/-- What `sae_parse_commit` leaves: the instance, the status and the token. -/
structure CommitParse where
  sae : SaeData
  status : Status
  token : Option Bytes

/-- `sae_parse_commit` -/
def saeParseCommit (host : Host) (sae : SaeData) (data : Bytes) (allowedGroups : Option (List ℤ)) (h2e : Bool) :
    CommitParse :=
  if data.length < 2 then ⟨sae, .unspecifiedFailure, none⟩
  else
    let (sae, status) := saeGroupAllowed host sae allowedGroups (Bytes.getLe16 data)
    match status, sae.tmp with
    | 0, some tmp =>
      let (token, rest) := saeParseCommitToken tmp h2e (data.drop 2)
      let p := (saeParseCommitScalar sae tmp rest).andThen saeParseCommitElement
      if p.status ≠ .success then ⟨{ p.sae with tmp := some p.tmp }, p.status, token⟩
      else
        let token := if h2e then (tokenContainerAt p.sae p.tmp p.rest).elim token (saeParseTokenContainer · token) else token
        let p := parseElements h2e p.sae p.tmp p.rest
        ⟨{ p.sae with tmp := some p.tmp }, p.status, token⟩
    | _, _ => ⟨sae, status, none⟩

/-! ## The client's parser -/

/-- The slot of a coefficient when `debug_print_bignum` is called on it. -/
inductive Slot
  | stored
  | neverStored
  | freed
deriving DecidableEq, Repr

/-- What the client's parser does to memory: it reads `len` bytes from the offset `off` of the frame, stores a coefficient
at `index` of an array of `size` entries and loads it from there again, prints what it has loaded, and evaluates a
polynomial of `count` coefficients. -/
inductive Access
  | read (off len : ℕ)
  | store (size index : ℕ)
  | load (size index : ℕ)
  | print (slot : Slot)
  | evaluate (count : ℤ)
deriving DecidableEq, Repr

/-- A store or a load through the `NULL` of a failed allocation, `poly[num_elements - 1]` for a count below one, and a
`NULL` group. -/
inductive ParserFault
  | nullArray
  | negativeIndex
  | nullEc
deriving DecidableEq, Repr

abbrev ParserRun := Run Access ParserFault

/-- What the parser takes from its surroundings: the bytes in memory after the frame, and whether the allocations of the
two arrays succeed. -/
structure Surroundings where
  beyond : Bytes
  mallocU : Bool
  mallocV : Bool

/-- A read of `len` bytes at the cursor. -/
def readAt (data rest : Bytes) (len : ℕ) : Access := .read (data.length - rest.length) len

/-- `sae_parse_coefficient`, with the store through its output argument: `none` if there are not enough bytes, and
otherwise the coefficient and whether it is between 1 and the order. -/
def saeParseCoefficient (primeLen : ℕ) (order : ℤ) (rest : Bytes) : Option (ℤ × Bool) :=
  if primeLen > rest.length then none
  else
    let coefficient : ℤ := Bytes.ofBe (rest.take primeLen)
    some (coefficient, !(coefficient = 0 || coefficient = 1 || coefficient ≥ order))

/-- A coefficient is parsed through the slot `index` of an array of `size` entries and printed: the coefficient, if it was
accepted. `array` says whether the allocation of the array succeeded. -/
def parseSlot (data : Bytes) (primeLen : ℕ) (order : ℤ) (size : ℕ) (array : Bool) (index : ℕ) (rest : Bytes) :
    ParserRun (Option ℤ) :=
  match saeParseCoefficient primeLen order rest, array with
  -- without the bytes of a coefficient nothing is stored, and the caller prints what the slot points to all the same
  | none, false => ⟨[.load 0 index], .error .nullArray⟩
  | none, true => ⟨[.load size index, .print .neverStored], .ok none⟩
  | some _, false => ⟨[readAt data rest primeLen, .store 0 index], .error .nullArray⟩
  | some (coefficient, ok), true =>
    ⟨[readAt data rest primeLen, .store size index, .load size index, .print (if ok then .stored else .freed)],
      .ok (if ok then some coefficient else none)⟩

/-- The entries of the array that `os_malloc(num_passwords * sizeof(struct crypto_bignum *))` returns, where `size_t` has
64 bits and a pointer 8 bytes. -/
def arrayEntries (count : ℕ) : ℕ := count * 8 % 2 ^ 64 / 8

/-- One of the two loops over the coefficients: the coefficients that were stored, the status and the bytes that are
left. -/
def parseCoefficients (data : Bytes) (primeLen : ℕ) (order : ℤ) (count : ℕ) (array : Bool) :
    ℕ → Bytes → List ℤ → ParserRun (List ℤ × Status × Bytes)
  | 0, rest, acc => return (acc, .success, rest)
  | left + 1, rest, acc => do
    match ← parseSlot data primeLen order (arrayEntries count) array (count - (left + 1)) rest with
    | none => return (acc, .unspecifiedFailure, rest)
    | some coefficient =>
      parseCoefficients data primeLen order count array left (rest.drop primeLen) (acc ++ [coefficient])

/-- The reads of one element test and of the content, if the test succeeds. -/
def elemAccesses (data : Bytes) (need : ℕ) (test : Bytes → Bool) (rest : Bytes) : List Access :=
  (if need ≤ rest.length then [readAt data rest 3] else []) ++
    if test rest then [readAt data (rest.drop 3) (elemContent rest).length] else []

/-- The reads of `parseElements` and of the token container between the rejected groups and the AKM suite selector. -/
def elementsAccesses (h2e : Bool) (data : Bytes) (sae : SaeData) (tmp : SaeTmp) (rest : Bytes) : List Access :=
  let id := saeParsePasswordIdentifier h2e sae tmp rest
  elemAccesses data 3 saeIsPasswordIdElem rest ++
    if !h2e ∨ id.status ≠ .success then []
    else
      let groups := saeParseRejectedGroups id.sae id.tmp id.rest
      elemAccesses data 3 saeIsRejectedGroupsElem id.rest ++
        if groups.status ≠ .success then []
        else elemAccesses data 3 saeIsTokenContainerElem groups.rest ++
          elemAccesses data 7 saeIsAkmSuiteSelectorElem groups.rest

/-- A run that only makes accesses. -/
def accesses (as : List Access) : ParserRun Unit := ⟨as, .ok ()⟩

/-- `crypto_evaluate` -/
def cryptoEvaluate (ec : EcParams) (poly : List ℤ) (x count : ℤ) : ParserRun ℤ := do
  Run.emit (.evaluate count)
  if count < 1 then Run.fault .negativeIndex
  else return Weaver.Hostap.evaluate poly x count.toNat ec.prime

/-- The client's parser from the coefficients on: decode the element that belongs to the client's own password. -/
def decodeElement (host : Host) (password : Bytes) (ec : EcParams) (u v : List ℤ) (count : ℤ) : ParserRun EcPoint := do
  let hash := passwordHash host.hash password
  let uValue ← cryptoEvaluate ec u hash count
  let vValue ← cryptoEvaluate ec v hash count
  return clonePoint ec (Encode.valuesToPoint ec uValue vValue)

/-- `sae_ap_parse_commit` from the decoding on. -/
def decodeApCommit (host : Host) (password data : Bytes) (h2e : Bool) (sae : SaeData) (tmp : SaeTmp) (u v : List ℤ)
    (rest : Bytes) : ParserRun (SaeData × Status) :=
  match tmp.ec with
  | none => Run.fault .nullEc
  | some ec => do
    let element ← decodeElement host password ec.toEcParams u v tmp.numPasswords
    let tmp := { tmp with peerCommitElementEcc := some element }
    accesses (elementsAccesses h2e data sae tmp rest)
    let p := parseElements h2e sae tmp rest
    return ({ p.sae with tmp := some p.tmp }, p.status)

/-- The count, in the byte order of the client, from the four bytes at the cursor, which may lie beyond the frame. -/
def parseCount (host : Host) (env : Surroundings) (rest : Bytes) : ℤ :=
  Bytes.toInt32 host.byteOrder ((rest ++ env.beyond).take 4)

/-- The count and the coefficients that were parsed. -/
def withCoefficients (count : ℤ) (u v : List ℤ) (tmp : SaeTmp) : SaeTmp :=
  { tmp with numPasswords := count, uCoefficients := .live (u.map some), vCoefficients := .live (v.map some) }

/-- `sae_ap_parse_commit` from the count on. -/
def parseApCommitBody (host : Host) (env : Surroundings) (password data : Bytes) (h2e : Bool) (sae : SaeData)
    (tmp : SaeTmp) (rest : Bytes) : ParserRun (SaeData × Status) := do
  Run.emit (readAt data rest 4)
  let count := parseCount host env rest
  let (u, status, rest) ←
    parseCoefficients data tmp.primeLen tmp.order count.toNat env.mallocU count.toNat (rest.drop 4) []
  if status ≠ .success then return ({ sae with tmp := some (withCoefficients count u [] tmp) }, status)
  else
    let (v, status, rest) ← parseCoefficients data tmp.primeLen tmp.order count.toNat env.mallocV count.toNat rest []
    let tmp := withCoefficients count u v tmp
    if status ≠ .success then return ({ sae with tmp := some tmp }, status)
    else decodeApCommit host password data h2e sae tmp u v rest

/-- `sae_ap_parse_commit` up to the count: the instance and the bytes that are left, or what it returns. -/
def parseApCommitHead (host : Host) (sae : SaeData) (data : Bytes) (allowedGroups : Option (List ℤ)) :
    Except (SaeData × Status) (SaeData × SaeTmp × Bytes) :=
  if data.length < 2 then .error (sae, .unspecifiedFailure)
  else
    let (sae, status) := saeGroupAllowed host sae allowedGroups (Bytes.getLe16 data)
    match status, sae.tmp with
    | 0, some tmp =>
      let p := saeParseCommitScalar sae tmp (data.drop 2)
      if p.status ≠ .success then .error ({ p.sae with tmp := some p.tmp }, p.status) else .ok (p.sae, p.tmp, p.rest)
    | _, _ => .error (sae, status)

/-- The reads of `parseApCommitHead`. -/
def headAccesses (host : Host) (sae : SaeData) (data : Bytes) (allowedGroups : Option (List ℤ)) : List Access :=
  if data.length < 2 then []
  else
    let (sae, status) := saeGroupAllowed host sae allowedGroups (Bytes.getLe16 data)
    .read 0 2 :: match status, sae.tmp with
      | 0, some tmp => if tmp.primeLen ≤ (data.drop 2).length then [readAt data (data.drop 2) tmp.primeLen] else []
      | _, _ => []

/-- `sae_ap_parse_commit`. The token output is left out: only its container is parsed, by the same code as above. -/
def saeApParseCommit (host : Host) (env : Surroundings) (password : Bytes) (sae : SaeData) (data : Bytes)
    (allowedGroups : Option (List ℤ)) (h2e : Bool) : ParserRun (SaeData × Status) := do
  accesses (headAccesses host sae data allowedGroups)
  match parseApCommitHead host sae data allowedGroups with
  | .error r => return r
  | .ok (sae, tmp, rest) => parseApCommitBody host env password data h2e sae tmp rest

end DecoyAuth
