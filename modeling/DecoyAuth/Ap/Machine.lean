import DecoyAuth.Sae.Keys
import DecoyAuth.Sae.Parse

/-!
# The state machine of the access point

`handle_auth_sae` and `sae_sm_step` of `ieee802_11.c` for one station of an access point that is not in a mesh, with the
functions under them. One step (`handleAuthSae`) takes a received frame together with everything else the code asks for
while it handles the frame: random draws, the time, and the answers of the driver and of the rest of hostapd.

A commit goes through `commitGate`, which is everything up to the call of `sae_sm_step`, so that what reaches the state
machine can be told from what is answered or dropped before.
-/

namespace DecoyAuth

/-! ## Configuration and inputs -/

/-- An entry of `sae_passwords`; an entry without an address is for every station. The password itself is left out: the
access point only asks whether there is one. -/
structure SaePasswordEntry where
  peerAddr : Option MacAddr
  identifier : Option Bytes
  pts : List SaePt
  vlanId : ℕ

/-- The configuration of the BSS. `wpaPassphrase` holds the PTs of the passphrase, if one is set; `extKeyMgmt` says that
one of the key managements of the BSS is an extended SAE one, and `wpaExtKeyMgmt` that one of `wpa_key_mgmt` is. -/
structure Conf where
  saeGroups : Option (List ℤ) := none
  extKeyMgmt : Bool := false
  wpaExtKeyMgmt : Bool := false
  saePwe : SaePwe := .huntAndPeck
  saePasswords : List SaePasswordEntry := []
  wpaPassphrase : Option (List SaePt) := none
  saeConfirmImmediate : Bool := false
  saeSync : ℕ := 5

/-- The access point and the station that the instance belongs to. -/
structure Ap where
  host : Host
  conf : Conf
  ownAddr : MacAddr
  staAddr : MacAddr
  staHasPassphrase : Bool

/-- A received authentication frame. -/
structure Frame where
  transaction : ℕ
  status : Status
  body : Bytes

/-- A frame and what the code asks for while it handles it: draws, the time in seconds, the results of
`check_comeback_token` and `use_anti_clogging` with the token request of `auth_build_token_req`, whether the driver sends
the commit and the confirm, and whether a VLAN can be assigned. -/
structure Input extends Frame where
  draws : CommitDraws
  now : ℕ
  tokenOk : Bool
  antiClogging : Bool
  tokenRequest : Bytes
  commitSent : Bool
  confirmSent : Bool
  vlanOk : Bool

/-- The allowed groups: those of the configuration, or 19 and, with an extended key management, 20. -/
def Conf.groups (conf : Conf) : List ℤ := conf.saeGroups.getD [19, if conf.extKeyMgmt then 20 else 0, 0]

/-- `hostapd_sae_pw_id_in_use`: 2 if all passwords have an identifier, 1 if some have. -/
def Conf.saePwIdInUse (conf : Conf) : ℕ :=
  let withId := conf.saePasswords.any fun pw => pw.identifier.isSome
  let withoutId := conf.wpaPassphrase.isSome || conf.saePasswords.any fun pw => pw.identifier.isNone
  if withId && !withoutId then 2 else if withId then 1 else 0

/-- `sae_status_success` -/
def saeStatusSuccess (conf : Conf) (status : Status) : Bool :=
  let saePwe :=
    if conf.saePwIdInUse = 2 ∧ conf.saePwe ≠ .forceHuntAndPeck then .hashToElement
    else if conf.saePwIdInUse = 1 ∧ conf.saePwe = .huntAndPeck then .both
    else conf.saePwe
  let saePwe := if saePwe = .huntAndPeck ∧ conf.wpaExtKeyMgmt then .both else saePwe
  match saePwe with
  | .huntAndPeck | .forceHuntAndPeck => status = .success
  | .hashToElement => status = .saeHashToElement
  | .both => status = .success || status = .saeHashToElement
  | .notSet => false

/-- The statuses of a commit that uses hash-to-element. -/
def isH2e (status : Status) : Bool := status = .saeHashToElement || status = .saePk

/-- `sae_get_password`: the VLAN and the PTs that come with the password. -/
def saeGetPassword (ap : Ap) (rxId : Option Bytes) : Option (ℕ × List SaePt) :=
  let entry := ap.conf.saePasswords.find? fun pw =>
    (pw.peerAddr = none ∨ pw.peerAddr = some ap.staAddr) ∧ pw.identifier.map cString = rxId.map cString
  match entry with
  | some pw => some (pw.vlanId, pw.pts)
  | none =>
    if rxId.isSome then none
    else
      match ap.conf.wpaPassphrase with
      | some pts => some (0, pts)
      | none => if ap.staHasPassphrase then some (0, []) else none

/-! ## Sending -/

/-- The password identifier of the station. -/
def rxPwId (sae : SaeData) : Option Bytes := sae.tmp.bind fun tmp => tmp.parsedPwId.orElse fun _ => tmp.pwId

/-- Whether the commit is built from a PT. -/
def usePt (conf : Conf) (sae : SaeData) (status : Status) : Bool :=
  if (rxPwId sae).isSome ∧ conf.saePwe ≠ .forceHuntAndPeck then true
  else if status = .success then false
  else if isH2e status then true
  else sae.tmp.isSome && sae.h2e

/-- The part of `auth_build_sae_commit` that prepares the commit. -/
def prepareForSend (ap : Ap) (update : Bool) (status : Status) (pts : List SaePt) (draws : CommitDraws) (sae : SaeData) :
    ApRun (SaeData × Bool) :=
  if !update then return (sae, true)
  else if usePt ap.conf sae status then return saePrepareCommitPt ap.host pts ap.ownAddr ap.staAddr draws sae
  else saeApPrepareCommit ap.host ap.ownAddr ap.staAddr draws sae

/-- The VLAN of the password, for `sae_accept_sta`. -/
def noteVlan (vlanId : ℕ) (sae : SaeData) : SaeData :=
  if vlanId ≠ 0 then { sae with tmp := sae.tmp.map fun tmp => { tmp with vlanId := vlanId } } else sae

/-- `auth_build_sae_commit` -/
def authBuildSaeCommit (ap : Ap) (update : Bool) (status : Status) (draws : CommitDraws) (sae : SaeData) :
    ApRun (SaeData × Option Bytes) :=
  let rxId := (rxPwId sae).map cString
  match saeGetPassword ap rxId with
  | none => return (sae, none)
  | some (vlanId, pts) =>
    if usePt ap.conf sae status ∧ pts.isEmpty then return (sae, none)
    else do
      let (sae, ok) ← prepareForSend ap update status pts draws sae
      if !ok then return (sae, none)
      else
        saeApWriteCommit ap.host (saeCommitMaxLen + (rxId.map (3 + ·.length)).getD 0) rxId (noteVlan vlanId sae)

/-- The status of the commit that is sent. -/
def commitStatus (sae : SaeData) : Status :=
  if sae.tmp.isSome && sae.pk then .saePk else if sae.tmp.isSome && sae.h2e then .saeHashToElement else .success

/-- `auth_sae_send_commit` -/
def authSaeSendCommit (ap : Ap) (inp : Input) (update : Bool) (sae : SaeData) : ApRun (SaeData × Status) := do
  let (sae, data) ← authBuildSaeCommit ap update inp.status inp.draws sae
  match data with
  | none => return (sae, if (rxPwId sae).isSome then .unknownPasswordIdentifier else .unspecifiedFailure)
  | some data =>
    Run.emit (.reply 1 (commitStatus sae) data)
    return (sae, if inp.commitSent then .success else .unspecifiedFailure)

/-- `auth_sae_send_confirm` -/
def authSaeSendConfirm (ap : Ap) (inp : Input) (sae : SaeData) : ApRun (SaeData × Status) := do
  let (sae, data) ← Run.lift (saeWriteConfirm ap.host sae)
  match data with
  | none => return (sae, .unspecifiedFailure)
  | some data =>
    Run.emit (.reply 2 .success data)
    return (sae, if inp.confirmSent then .success else .unspecifiedFailure)

/-! ## The state machine -/

/-- `sae_accept_sta`; a VLAN that cannot be assigned leaves the station as it was. -/
def saeAcceptSta (inp : Input) (sae : SaeData) : ApRun SaeData :=
  if (sae.tmp.map (·.vlanId)).getD 0 > 0 ∧ !inp.vlanOk then return sae
  else do
    let sae := { sae with
      state := .accepted
      peerCommitScalarAccepted := sae.peerCommitScalar
      peerCommitScalar := none }
    Run.emit (.pmksaAdd sae.pmk sae.pmkid)
    return sae

/-- `sae_check_big_sync`: too many retries disable the instance for ten seconds. -/
def saeCheckBigSync (ap : Ap) (inp : Input) (sae : SaeData) : SaeData × Bool :=
  if sae.sync > ap.conf.saeSync then
    ({ sae with
      state := .nothing
      sync := 0
      tmp := sae.tmp.map ({ · with disabledUntil := some (inp.now + 10) }) }, true)
  else (sae, false)

/-- `sae_proto_instance_disabled` -/
def saeProtoInstanceDisabled (inp : Input) (sae : SaeData) : Bool :=
  match sae.tmp.bind (·.disabledUntil) with
  | some t => inp.now < t
  | none => false

/-- A password identifier that was parsed is bound to the station with the first commit that is sent. -/
def bindPwId (sae : SaeData) : SaeData :=
  { sae with tmp := sae.tmp.map fun tmp =>
      if tmp.parsedPwId.isSome ∧ tmp.pwId.isNone then { tmp with pwId := tmp.parsedPwId, parsedPwId := none } else tmp }

/-- Send the confirm and go to Confirmed, as several transitions do. -/
def confirmAndAdvance (ap : Ap) (inp : Input) (sae : SaeData) : ApRun (SaeData × Status) := do
  let (sae, ret) ← authSaeSendConfirm ap inp sae
  if ret ≠ .success then return (sae, ret) else return ({ sae with state := .confirmed }, .success)

/-- `sae_sm_step` for a commit in the state Nothing. -/
def commitInNothing (ap : Ap) (inp : Input) (allowReuse : Bool) (sae : SaeData) : ApRun (SaeData × Status) := do
  let sae := if sae.tmp.isSome then { sae with h2e := isH2e inp.status, pk := inp.status = .saePk } else sae
  let (sae, ret) ← authSaeSendCommit ap inp (!allowReuse) sae
  if ret ≠ .success then return (sae, ret)
  else
    let sae := { bindPwId sae with state := .committed }
    let (sae, ok) ← saeApProcessCommit ap.host sae
    if !ok then return (sae, .unspecifiedFailure)
    else if ap.conf.saeConfirmImmediate then do
      let (sae, ret) ← confirmAndAdvance ap inp sae
      return (if ret ≠ .success then sae else { sae with sync := 0 }, ret)
    else return ({ sae with sync := 0 }, .success)

/-- `sae_sm_step` for a commit in the state Committed; `handle_auth_sae` leaves that state first. -/
def commitInCommitted (ap : Ap) (inp : Input) (sae : SaeData) : ApRun (SaeData × Status) := do
  let (sae, ok) ← saeApProcessCommit ap.host sae
  if !ok then return (sae, .unspecifiedFailure)
  else
    let (sae, ret) ← confirmAndAdvance ap inp sae
    return (if ret ≠ .success then sae else { sae with sync := 0 }, ret)

/-- `sae_sm_step` for a commit in the state Confirmed. -/
def commitInConfirmed (ap : Ap) (inp : Input) (sae : SaeData) : ApRun (SaeData × Status) := do
  let (sae, big) := saeCheckBigSync ap inp sae
  if big then return (sae, .success)
  else
    let (sae, ret) ← authSaeSendCommit ap inp true { sae with sync := sae.sync + 1 }
    if ret ≠ .success then return (sae, ret)
    else
      let (sae, ok) ← saeApProcessCommit ap.host sae
      if !ok then return (sae, .unspecifiedFailure) else authSaeSendConfirm ap inp sae

/-- `sae_sm_step` for a commit in the state Accepted: reauthentication. -/
def commitInAccepted (ap : Ap) (inp : Input) (sae : SaeData) : ApRun (SaeData × Status) := do
  let (sae, ret) ← authSaeSendCommit ap inp true sae
  if ret ≠ .success then return (sae, ret)
  else
    let (sae, ok) ← saeApProcessCommit ap.host { sae with state := .committed }
    if !ok then return (sae, .unspecifiedFailure) else return ({ sae with sync := 0 }, .success)

/-- `sae_sm_step` for a commit. -/
def smStepCommit (ap : Ap) (inp : Input) (allowReuse : Bool) (sae : SaeData) : ApRun (SaeData × Status) :=
  if saeProtoInstanceDisabled inp sae then return (sae, .success)
  else
    match sae.state with
    | .nothing => commitInNothing ap inp allowReuse sae
    | .committed => commitInCommitted ap inp sae
    | .confirmed => commitInConfirmed ap inp sae
    | .accepted => commitInAccepted ap inp sae

/-- `sae_sm_step` for a confirm in the state Confirmed. -/
def confirmInConfirmed (inp : Input) (sae : SaeData) : ApRun (SaeData × Status) := do
  let sae ← saeAcceptSta inp { sae with sendConfirm := 0xffff }
  return (sae, .success)

/-- `sae_sm_step` for a confirm in the state Committed: send the confirm and step again. -/
def confirmInCommitted (ap : Ap) (inp : Input) (sae : SaeData) : ApRun (SaeData × Status) := do
  let (sae, ret) ← confirmAndAdvance ap inp sae
  if ret ≠ .success then return (sae, ret) else confirmInConfirmed inp sae

/-- `sae_sm_step` for a confirm in the state Accepted. -/
def confirmInAccepted (ap : Ap) (inp : Input) (sae : SaeData) : ApRun (SaeData × Status) := do
  let (sae, big) := saeCheckBigSync ap inp sae
  if big then return (sae, .success)
  else
    let (sae, ret) ← authSaeSendConfirm ap inp { sae with sync := sae.sync + 1 }
    return (sae.clearTempData, ret)

/-- `sae_sm_step` for a confirm. -/
def smStepConfirm (ap : Ap) (inp : Input) (sae : SaeData) : ApRun (SaeData × Status) :=
  match sae.state with
  | .nothing => return (sae, .success)
  | .committed => confirmInCommitted ap inp sae
  | .confirmed => confirmInConfirmed inp sae
  | .accepted => confirmInAccepted ap inp sae

/-! ## Received frames -/

/-- `sae_is_group_enabled` and `check_sae_rejected_groups` -/
def checkSaeRejectedGroups (conf : Conf) (sae : SaeData) : Bool := rejectedGroupEnabled conf.groups sae

/-- A commit in the state Committed restarts the instance: it stays as it is if the frame asks for the same group, which
lets the password elements be used again, and is cleared otherwise. -/
def restart (ap : Ap) (body : Bytes) (sae : SaeData) : SaeData × Bool :=
  if sae.state ≠ .committed then (sae, false)
  else
    let (sae', status) := saeGroupAllowed ap.host sae ap.conf.groups (Bytes.getLe16 body)
    if body.length ≥ 2 ∧ status = .success then ({ sae' with state := .nothing }, true)
    else ((if body.length ≥ 2 then sae' else sae).clearData, false)

/-- What becomes of a commit before `sae_sm_step`: it is dropped, answered with a status, or handed over. -/
inductive Gate
  | drop (sae : SaeData)
  | reply (sae : SaeData) (status : Status) (data : Bytes)
  | step (sae : SaeData) (allowReuse : Bool)

def Gate.sae : Gate → SaeData
  | .drop sae => sae
  | .reply sae _ _ => sae
  | .step sae _ => sae

/-- `handle_auth_sae` for a commit, after the parser. -/
def gateParsed (ap : Ap) (inp : Input) (allowReuse : Bool) (p : CommitParse) : Gate :=
  if p.status = .saeSilentlyDiscard then .drop p.sae
  else if p.status = .unknownPasswordIdentifier then .reply { p.sae with state := .nothing } p.status []
  else if p.token.isSome ∧ !inp.tokenOk then .drop p.sae
  else if p.status ≠ .success then .reply p.sae p.status []
  else if checkSaeRejectedGroups ap.conf p.sae then .reply p.sae .unspecifiedFailure []
  else if p.token.isNone ∧ inp.antiClogging ∧ !allowReuse then .reply p.sae .antiCloggingTokenReq inp.tokenRequest
  else .step p.sae allowReuse

/-- `handle_auth_sae` for a commit, up to the call of `sae_sm_step`. -/
def commitGate (ap : Ap) (inp : Input) (sae : SaeData) : Gate :=
  if !saeStatusSuccess ap.conf inp.status then .drop sae
  else if saeProtoInstanceDisabled inp sae then .drop sae
  else
    let (sae, allowReuse) := restart ap inp.body sae
    gateParsed ap inp allowReuse (saeParseCommit ap.host sae inp.body ap.conf.groups (isH2e inp.status))

/-- The label `reply` of `handle_auth_sae`. An unsupported group is copied into the answer. -/
def sendReply (inp : Input) (status : Status) (data : Bytes) : ApRun Unit :=
  if status = .success then return ()
  else
    let data := if status = .finiteCyclicGroupNotSupported ∧ data = [] then inp.body.take 2 else data
    Run.emit (.reply inp.transaction status data)

/-- `handle_auth_sae` for a commit. -/
def handleCommit (ap : Ap) (inp : Input) (sae : SaeData) : ApRun SaeData :=
  match commitGate ap inp sae with
  | .drop sae => return sae
  | .reply sae status data => do
    sendReply inp status data
    return sae
  | .step sae allowReuse => do
    let (sae, status) ← smStepCommit ap inp allowReuse sae
    sendReply inp status []
    return sae

/-- A confirm reaches `sae_ap_check_confirm`: it reports success, has a counter, and in the state Accepted the counter is
new. -/
def confirmReachesCheck (inp : Input) (sae : SaeData) : Bool :=
  let peerSendConfirm := Bytes.getLe16 inp.body
  inp.status = .success && inp.body.length ≥ 2 &&
    !(sae.state = .accepted && (peerSendConfirm ≤ sae.rc || peerSendConfirm = 0xffff))

/-- `handle_auth_sae` for a confirm. -/
def handleConfirm (ap : Ap) (inp : Input) (sae : SaeData) : ApRun SaeData :=
  if confirmReachesCheck inp sae then do
    let (sae, ok) ← saeApCheckConfirm ap.host inp.body sae
    if !ok then
      sendReply inp .challengeFail []
      return sae
    else
      let (sae, status) ← smStepConfirm ap inp { sae with rc := Bytes.getLe16 inp.body }
      sendReply inp status []
      return sae
  else if inp.status = .success ∧ inp.body.length < 2 then do
    sendReply inp .unspecifiedFailure []
    return sae
  else return sae

/-- The station's instance for a frame: it is `NULL` before the first commit, which creates it. -/
def openInstance (ap : Ap) (sta : Option SaeData) (inp : Input) : Option SaeData :=
  match sta with
  | some sae => some sae
  | none =>
    if inp.transaction = 1 ∧ saeStatusSuccess ap.conf inp.status then some { noPwId := ap.conf.saePwIdInUse = 0 }
    else none

/-- `handle_auth_sae`: one step of the station's instance. -/
def handleAuthSae (ap : Ap) (sta : Option SaeData) (inp : Input) : ApRun (Option SaeData) :=
  match openInstance ap sta inp with
  | none => do
    sendReply inp .unspecifiedFailure []
    return none
  | some sae =>
    if inp.transaction = 1 then return some (← handleCommit ap inp sae)
    else if inp.transaction = 2 then return some (← handleConfirm ap inp sae)
    else do
      sendReply inp (if inp.status = .success then .unknownAuthTransaction else .success) []
      return some sae

/-- A run of the station's instance, from its creation. -/
def runStation (ap : Ap) (inputs : List Input) : ApRun (Option SaeData) := Run.steps (handleAuthSae ap) none inputs

end DecoyAuth
