import DecoyAuth.Sae.Keys
import DecoyAuth.Sae.Parse

/-!
# The state machine of the client

`sme_event_auth` of `sme.c` with the functions under it, for a client that has selected a network and whose driver leaves
the authentication to wpa_supplicant. One step takes an authentication frame, or starts a new attempt to connect, together
with everything else the code asks for on the way. The copy of the password and the anti-clogging token are pointers to
memory that the code frees, so they can dangle.

Left out: external authentication, multi-link operation, SAE-PK, and the authentication algorithms other than SAE, of which
only the state that they leave is kept.
-/

namespace DecoyAuth.Sme

/-! ## State and inputs -/

inductive WpaState
  | disconnected
  | authenticating
  | associating
deriving DecidableEq, Repr

/-- A pointer to a buffer: `NULL`, a live buffer, or one that was freed. -/
inductive Pointer
  | null
  | live (data : Bytes)
  | released
deriving DecidableEq, Repr

/-- The network that the client has selected. `password` is the first of `sae_password`, `passphrase` and the external
password that is there. -/
structure Network where
  password : Option Bytes
  passwordId : Option Bytes := none
  saePwe : SaePwe := .huntAndPeck
  pts : List SaePt := []
  saeGroups : Option (List ℤ) := none
  keyMgmt : Akmp := .sae

structure Client where
  host : Host
  ownAddr : MacAddr
  network : Network

/-- The fields of `struct wpa_supplicant` that the functions read or change; `currentBss` is the address of the BSS. -/
structure State where
  wpaState : WpaState := .disconnected
  currentBss : Option MacAddr := none
  pendingBssid : Option MacAddr := none
  password : Pointer := .null
  sae : SaeData := {}
  saeToken : Pointer := .null
  saeRejectedGroups : Option (List ℕ) := none
  saeGroupIndex : ℕ := 0

/-- What `sme_send_authentication` decides before its SAE part: it gives up, because there is no scan result or no cipher
suite, it skips the authentication of a reassociation, it takes another algorithm, because there is a cached PMKSA or the
BSS does not offer SAE, or it takes SAE. -/
inductive Preamble
  | abandoned
  | skipsAuth
  | otherAlg
  | sae
deriving DecidableEq, Repr

/-- What the code asks for: the draws, the memory around the frame, whether the temporary data belongs to the BSS, what the
BSS offers, the answers of the driver and of the rest of wpa_supplicant. `after` is the state that an association leaves,
or an authentication with another algorithm, and `restarts` says that the latter starts a new attempt. -/
structure Env where
  preamble : Preamble
  draws : CommitDraws
  surroundings : Surroundings
  sameBss : Bool
  h2eCapable : Bool
  sixGhz : Bool
  channelConflict : Bool
  driverOk : Bool
  networkDisabled : Bool
  pmkSet : Bool
  after : WpaState
  restarts : Bool

/-- The data of the event: a received authentication frame. -/
structure AuthFrame where
  peer : MacAddr
  authType : ℕ
  transaction : ℕ
  status : Status
  ies : Bytes

inductive Input
  | auth (frame : AuthFrame) (env : Env)
  | connect (bssid : MacAddr) (env : Env)

/-- What a run reports: the password pointer with which `sae_ap_parse_commit` is called, and the data given to the driver
to authenticate with. -/
inductive Event
  | parseCommit (password : Pointer)
  | authenticate (data : Option Bytes)
deriving DecidableEq, Repr

/-- A dangling or `NULL` password, a dangling token, and the faults of `sae.c`. -/
inductive Fault
  | nullPassword
  | releasedPassword
  | releasedToken
  | parser (f : ParserFault)
  | data (f : DecoyAuth.Fault)
deriving DecidableEq, Repr

abbrev SmeRun := Run Event Fault

def wlanAuthSae : ℕ := 3

/-! ## Building a commit -/

section Build

variable (cl : Client) (env : Env)

/-- The configured groups, or the default ones. -/
def Network.groups (net : Network) : List ℤ :=
  match net.saeGroups with
  | some (g :: gs) => if g ≤ 0 then [19, 20, 21, 0] else g :: gs
  | _ => [19, 20, 21, 0]

def indexWithinArray (groups : List ℤ) (idx : ℕ) : Bool := (List.range idx).all fun i => 0 < groups.getD i 0

/-- The loop of `sme_set_sae_group`, which ends at a group that is not positive. -/
def setSaeGroupFrom : ℕ → State → State × Bool
  | 0, s => (s, false)
  | fuel + 1, s =>
    let group := cl.network.groups.getD s.saeGroupIndex 0
    if group ≤ 0 then (s, false)
    else
      let rejected := (s.saeRejectedGroups.getD []).contains group.toNat
      let (sae, ok) := if rejected then (s.sae, false) else saeSetGroup cl.host s.sae group.toNat
      if ok then ({ s with sae := { sae with akmp := cl.network.keyMgmt } }, true)
      else setSaeGroupFrom fuel { s with sae := sae, saeGroupIndex := s.saeGroupIndex + 1 }

/-- `sme_set_sae_group` -/
def smeSetSaeGroup (s : State) : State × Bool :=
  if !indexWithinArray cl.network.groups s.saeGroupIndex then (s, false)
  else setSaeGroupFrom cl (cl.network.groups.length + 1) s

/-- Whether the commit is built from a PT; `none` if it has to be and the BSS cannot. -/
def choosePt : Option Bool :=
  let net := cl.network
  let forced := net.saePwe = .forceHuntAndPeck
  let usePt := !forced && (net.passwordId.isSome || net.keyMgmt.isSaeExtKey || env.sixGhz)
  if !usePt && net.saePwe ≠ .hashToElement && net.saePwe ≠ .both then some false
  else if (net.saePwe = .hashToElement || net.passwordId.isSome || net.keyMgmt.isSaeExtKey) && !forced &&
      !env.h2eCapable then none
  else some env.h2eCapable

/-- The rejected groups as `sae_prepare_commit_pt` stores them, once it has found the PT of the group. -/
def noteRejectedGroups (rejected : Option (List ℕ)) (sae : SaeData) : SaeData :=
  if cl.network.pts.any fun pt => pt.group = sae.group then
    { sae with tmp := sae.tmp.map ({ · with ownRejectedGroups := rejected.map (·.flatMap Bytes.le16) }) }
  else sae

/-- The part of `sme_auth_build_sae_commit` that prepares the commit. -/
def prepare (bssid : MacAddr) (password : Bytes) (s : State) : State × Bool :=
  let (s, selected) := smeSetSaeGroup cl s
  if !selected then (s, false)
  else
    match choosePt cl env with
    | none => (s, false)
    | some true =>
      let (sae, ok) := saePrepareCommitPt cl.host cl.network.pts cl.ownAddr bssid env.draws s.sae
      ({ s with sae := noteRejectedGroups cl s.saeRejectedGroups sae }, ok)
    | some false =>
      let (sae, ok) := saePrepareCommit cl.host cl.ownAddr bssid password env.draws s.sae
      ({ s with sae := sae }, ok)

/-- The token that goes into a commit. -/
def readToken (s : State) : SmeRun (Option Bytes) :=
  match s.saeToken with
  | .null => return none
  | .live token => return some token
  | .released => Run.fault .releasedToken

/-- `sme_auth_build_sae_commit`. The password of the network is copied first; the old copy is not freed. -/
def smeAuthBuildSaeCommit (bssid : MacAddr) (reuse : Bool) (s : State) : SmeRun (State × Option Bytes) :=
  match cl.network.password with
  | none => return (s, none)
  | some password => do
    let s := { s with password := .live password }
    let (s, ok) := if reuse && s.sae.tmp.isSome && env.sameBss then (s, true) else prepare cl env bssid password s
    if !ok then return (s, none)
    else
      let token ← readToken s
      match saeWriteCommit s.sae token cl.network.passwordId with
      | none => return (s, none)
      | some (sae, data) =>
        let status := if sae.h2e then Status.saeHashToElement else Status.success
        return ({ s with sae := sae }, some (Bytes.le16 1 ++ Bytes.le16 status ++ data))

/-- What `sae_write_confirm` leaves in the buffer where it fails. -/
def unwrittenConfirm (sae : SaeData) : Bytes :=
  match sae.tmp with
  | none => []
  | some tmp => Bytes.le16 sae.sendConfirm ++ List.replicate tmp.kck.length 0

/-- `sme_auth_build_sae_confirm`, which does not look at the result of `sae_write_confirm`. -/
def smeAuthBuildSaeConfirm (s : State) : SmeRun (State × Option Bytes) := do
  let (sae, confirm) ← Run.lift ((saeWriteConfirm cl.host s.sae).mapError .data)
  return ({ s with sae := sae }, some (Bytes.le16 2 ++ Bytes.le16 Status.success ++ confirm.getD (unwrittenConfirm sae)))

end Build

/-! ## Sending -/

/-- The argument `start` of `sme_send_authentication`: 0, 1 and 2. -/
inductive Start
  | confirm
  | commit
  | retry
deriving DecidableEq, Repr

section Send

variable (cl : Client) (env : Env)

/-- `sme_send_authentication` after its SAE part. -/
def authenticate (bssid : MacAddr) (data : Option Bytes) (s : State) : SmeRun State :=
  let s := { s with pendingBssid := some bssid, wpaState := .authenticating }
  if env.channelConflict then return { s with wpaState := .disconnected }
  else do
    Run.emit (.authenticate data)
    return if env.driverOk then s else { s with wpaState := .disconnected }

/-- The SAE part of `sme_send_authentication` and what follows it. -/
def sendSae (bssid : MacAddr) (start : Start) (s : State) : SmeRun State := do
  let (s, resp) ← if start = .confirm then smeAuthBuildSaeConfirm cl s
    else smeAuthBuildSaeCommit cl env bssid (start = .retry) s
  match resp with
  | none => return s
  | some data =>
    let state := if start = .confirm then SaeState.confirmed else .committed
    authenticate env bssid (some data) { s with sae := { s.sae with state := state } }

/-- `sme_send_authentication` -/
def smeSendAuthentication (bss : Option MacAddr) (start : Start) (s : State) : SmeRun State :=
  match bss with
  | none => return s
  | some bssid =>
    let s := { s with currentBss := some bssid }
    match env.preamble with
    | .abandoned => return s
    | .skipsAuth => return { s with pendingBssid := some bssid, wpaState := env.after }
    | .otherAlg => authenticate env bssid none s
    | .sae => sendSae cl env bssid start s

/-- `sme_authenticate` -/
def smeAuthenticate (s : State) : State :=
  { s with sae := { s.sae with state := .nothing, sendConfirm := 0 }, saeGroupIndex := 0 }

end Send

/-! ## Received frames -/

section Receive

variable (cl : Client) (env : Env)

/-- The token is freed; the pointer to it stays. -/
def freeToken (s : State) : SmeRun State :=
  match s.saeToken with
  | .null => return s
  | .live _ => return { s with saeToken := .released }
  | .released => Run.fault .releasedToken

/-- `sme_sae_auth` for a request of an anti-clogging token. -/
def tokenRequested (data : Bytes) (s : State) : SmeRun (State × ℤ) :=
  if data.length < 2 then return (s, -1)
  else
    let (sae, status) := saeGroupAllowed cl.host s.sae (some cl.network.groups) (Bytes.getLe16 data)
    let s := { s with sae := sae }
    if status ≠ .success then return (s, -1)
    else do
      let s ← freeToken s
      let rest := data.drop 2
      if s.sae.h2e && !saeIsTokenContainerElem rest then return (s, -1)
      else
        let token := if s.sae.h2e then elemContent rest else rest
        let s ← smeSendAuthentication cl env s.currentBss .retry { s with saeToken := .live token }
        return (s, 0)

/-- `sme_sae_auth` for a group that the access point does not support. -/
def groupRejected (s : State) : SmeRun (State × ℤ) :=
  let rejected := s.saeRejectedGroups.getD []
  let rejected := if rejected.contains s.sae.group then rejected else rejected ++ [s.sae.group]
  let (s, ok) := smeSetSaeGroup cl { s with saeRejectedGroups := some rejected, saeGroupIndex := s.saeGroupIndex + 1 }
  if !ok then return (s, -1)
  else do
    let s ← smeSendAuthentication cl env s.currentBss .commit s
    return (s, 0)

/-- The groups that `sme_sae_auth` lets the parser accept. -/
def Network.allowedGroups (net : Network) : Option (List ℤ) := net.saeGroups.filter fun groups => 0 < groups.headD 0

/-- The groups of `sme_sae_is_group_enabled`. -/
def Network.enabledGroups (net : Network) : List ℤ := net.saeGroups.getD [19, 20, 21, 0]

def isH2eStatus (status : Status) : Bool := status = .saeHashToElement || status = .saePk

/-- The call of `sae_ap_parse_commit`, after which the password is freed. -/
def parseCommit (frame : AuthFrame) (s : State) : SmeRun (State × Status) := do
  Run.emit (.parseCommit s.password)
  match s.password with
  | .null => Run.fault .nullPassword
  | .released => Run.fault .releasedPassword
  | .live password =>
    let (sae, status) ← Run.lift ((saeApParseCommit cl.host env.surroundings password s.sae frame.ies
      cl.network.allowedGroups (isH2eStatus frame.status)).result.mapError .parser)
    return ({ s with sae := sae, password := .released }, status)

/-- The status of a commit fits the kind of commit that was sent. -/
def statusFits (sae : SaeData) (status : Status) : Bool :=
  !(sae.h2e && status = .success) && !((!sae.h2e || sae.pk) && status = .saeHashToElement) &&
    !(!sae.pk && status = .saePk)

/-- `sme_sae_auth` for a commit, after the parser. -/
def commitParsed (status : Status) (s : State) : SmeRun (State × ℤ) :=
  if status = .saeSilentlyDiscard then return (s, 0)
  else if status ≠ .success then return (s, -1)
  else if rejectedGroupEnabled cl.network.enabledGroups s.sae then return (s, -1)
  else
    match saeProcessCommit cl.host s.sae with
    | none => return (s, -1)
    | some sae => do
      let s ← freeToken { s with sae := sae }
      let s ← smeSendAuthentication cl env s.currentBss .confirm { s with saeToken := .null }
      return (s, 0)

/-- `sme_sae_auth` for a commit. -/
def commitReceived (frame : AuthFrame) (s : State) : SmeRun (State × ℤ) :=
  if s.currentBss.isNone then return (s, -1)
  else if s.sae.state ≠ .committed then return (s, 0)
  else if !statusFits s.sae frame.status then return (s, -1)
  else do
    let (s, status) ← parseCommit cl env frame s
    commitParsed cl env status s

/-- `sae_check_confirm` -/
def saeCheckConfirm (host : Host) (data : Bytes) (sae : SaeData) : Bool :=
  match sae.tmp with
  | none => false
  | some tmp =>
    2 + tmp.kck.length ≤ data.length && apVerifier host sae tmp data = some ((data.drop 2).take tmp.kck.length)

/-- `sme_sae_auth` for a confirm. -/
def confirmReceived (frame : AuthFrame) (s : State) : State × ℤ :=
  if frame.status ≠ .success ∨ s.sae.state ≠ .confirmed ∨ !saeCheckConfirm cl.host frame.ies s.sae then (s, -1)
  else ({ s with sae := { s.sae with state := .accepted }.clearTempData, saeRejectedGroups := none }, 1)

/-- `sme_sae_auth` -/
def smeSaeAuth (frame : AuthFrame) (s : State) : SmeRun (State × ℤ) :=
  let retries := frame.transaction = 1 ∧ s.sae.state = .committed ∧ s.currentBss.isSome
  if retries ∧ frame.status = .antiCloggingTokenReq then tokenRequested cl env frame.ies s
  else if retries ∧ frame.status = .finiteCyclicGroupNotSupported then groupRejected cl env s
  else if frame.transaction = 1 ∧ frame.status = .unknownPasswordIdentifier then return (s, -1)
  else if frame.status ≠ .success ∧ !isH2eStatus frame.status then return (s, -2)
  else if frame.transaction = 1 then commitReceived cl env frame s
  else if frame.transaction = 2 then return confirmReceived cl frame s
  else return (s, -1)

/-- What `sme_event_auth` does after its SAE part: it associates, or handles another algorithm. -/
def afterSae (s : State) : State :=
  let s := { s with wpaState := env.after }
  if env.restarts then smeAuthenticate s else s

/-- `sme_event_auth` with the result of `sme_sae_auth`. -/
def saeAnswered (res : ℤ) (s : State) : State :=
  if res < 0 then
    let clear := s.saeRejectedGroups.isSome && env.networkDisabled
    { s with wpaState := .disconnected, saeRejectedGroups := if clear then none else s.saeRejectedGroups }
  else if res ≠ 1 ∨ !env.pmkSet then s
  else afterSae env s

/-- `sme_event_auth` -/
def smeEventAuth (frame : AuthFrame) (s : State) : SmeRun State :=
  if s.wpaState ≠ .authenticating ∨ s.pendingBssid ≠ some frame.peer then return s
  else if frame.authType ≠ wlanAuthSae then return afterSae env s
  else do
    let (s, res) ← smeSaeAuth cl env frame s
    return saeAnswered env res s

end Receive

/-- One step of the client: a frame, or `sme_authenticate` with the start of the attempt. -/
def step (cl : Client) (s : State) : Input → SmeRun State
  | .auth frame env => smeEventAuth cl env frame s
  | .connect bssid env => smeSendAuthentication cl env (some bssid) .commit (smeAuthenticate s)

def runClient (cl : Client) (s : State) (inputs : List Input) : SmeRun State := Run.steps (step cl) s inputs

end DecoyAuth.Sme
