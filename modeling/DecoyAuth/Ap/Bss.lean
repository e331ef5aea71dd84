import DecoyAuth.Ap.Accept
import DecoyAuth.Ap.Comeback
import DecoyAuth.Lib.KeyedQueue
import Mathlib.Data.List.AList

/-!
# The access point with all its stations

`handle_auth` of `ieee802_11.c` for SAE authentication frames: the queue in which commits wait, the list of stations with
their instances, and the anti-clogging tokens. One step takes a received frame, the timeout of the queue or the removal of
a station. The frame of a station goes into the machine of its instance (`handleAuthSae`), whose inputs about tokens are
computed here from the state of the whole access point.

Left out: the other authentication algorithms, meshes, multi-link operation, PASN, and `no_auth_if_seen_on`. The passphrase
that a RADIUS server has for a station does not change during a run. The allocation of a queue entry succeeds.
-/

namespace DecoyAuth

def Status.apUnableToHandleNewSta : Status := 17

/-! ## State and inputs -/

/-- `struct ieee80211_mgmt` of an SAE authentication frame. -/
structure Mgmt extends Frame where
  sa : MacAddr
  retry : Bool := false
  seqCtrl : ℕ := 0

/-- The result of `ieee802_11_allowed_address`. -/
inductive Acl
  | reject
  | pending
  | accept
deriving DecidableEq, Repr

/-- What the code asks for while it handles a frame: TKIP countermeasures, the access control list, whether a station can
be added besides the room for it, the results of `ieee802_11_set_radius_info` and of `ap_sta_re_add`, the draws, the time, a
new key for tokens, and the answers of the driver. -/
structure Answers where
  tkipCountermeasures : Bool
  acl : Acl
  staAllocated : Bool
  radiusOk : Bool
  reAddOk : Bool
  draws : CommitDraws
  now : ℕ
  freshKey : Option Bytes
  commitSent : Bool
  confirmSent : Bool
  vlanOk : Bool

/-- What does not change. -/
structure Bss where
  host : Host
  conf : Conf
  ownAddr : MacAddr
  staHasPassphrase : MacAddr → Bool
  antiCloggingThreshold : ℕ
  maxNumSta : ℕ

/-- The access point as the instance of one station sees it. -/
def Bss.ap (bss : Bss) (addr : MacAddr) : Ap where
  host := bss.host
  conf := bss.conf
  ownAddr := bss.ownAddr
  staAddr := addr
  staHasPassphrase := bss.staHasPassphrase addr

def wlanInvalidMgmtSeq : ℕ := 0xffff

/-- `struct sta_info` -/
structure Sta where
  sae : Option SaeData := none
  lastSeqCtrl : ℕ := wlanInvalidMgmtSeq

/-- `struct hostapd_data`. `queueTimer` says that a timeout of `auth_sae_process_commit` is registered. -/
structure BssState where
  stas : AList (fun _ : MacAddr => Sta) := ∅
  queue : List Mgmt := []
  queueTimer : Bool := false
  comeback : Comeback := {}

inductive BssInput
  | rx (frame : Mgmt) (answers : Answers)
  | queueTimeout (answers : Answers)
  | freeSta (addr : MacAddr)

/-- What a run reports: a call of `handle_auth_sae` for a frame, with what it gets to know, the events of the station's
instance, a frame that `handle_auth` refuses itself, a frame that goes into the queue or comes out of it, an accepted token,
and the removal of a station. -/
inductive BssEvent
  | served (frame : Mgmt) (inp : Input)
  | station (addr : MacAddr) (e : Event)
  | refused (addr : MacAddr) (transaction : ℕ) (status : Status)
  | queued (frame : Mgmt)
  | dequeued (frame : Mgmt)
  | tokenAccepted (addr : MacAddr) (token : Bytes)
  | freed (addr : MacAddr)

abbrev BssRun := Run BssEvent Fault

/-! ## Anti-clogging -/

/-- The station has an open SAE session. -/
def Sta.isOpen (sta : Sta) : Bool := (sta.sae.map SaeData.isWaiting).getD false

/-- The loop of `use_anti_clogging` over the stations; `none` if it reaches the threshold. -/
def countOpen (threshold : ℕ) : List Sta → ℕ → Option ℕ
  | [], count => some count
  | sta :: stas, count =>
    let count := if sta.isOpen then count + 1 else count
    if count ≥ threshold then none else countOpen threshold stas count

def BssState.staList (s : BssState) : List Sta := s.stas.entries.map Sigma.snd

/-- `use_anti_clogging` -/
def useAntiClogging (threshold : ℕ) (s : BssState) : Bool :=
  if threshold = 0 then true
  else
    match countOpen threshold s.staList 0 with
    | none => true
    | some count => count + s.queue.length ≥ threshold

def BssState.setSta (s : BssState) (addr : MacAddr) (sta : Sta) : BssState := { s with stas := s.stas.insert addr sta }

section Tokens

variable (ap : Ap) (inp : Input) (sae : SaeData)

/-- What `sae_parse_commit` makes of a commit. -/
def commitParse : CommitParse :=
  saeParseCommit ap.host (restart ap inp.body sae).1 inp.body ap.conf.groups (isH2e inp.status)

/-- `handle_auth_sae` looks at the token of the commit. -/
def reachesToken : Bool :=
  inp.transaction = 1 && saeStatusSuccess ap.conf inp.status && !saeProtoInstanceDisabled inp sae &&
    (commitParse ap inp sae).status ≠ .saeSilentlyDiscard &&
    (commitParse ap inp sae).status ≠ .unknownPasswordIdentifier

/-- `handle_auth_sae` requests a token if `use_anti_clogging` tells it to. -/
def reachesClogging : Bool :=
  (commitParse ap inp sae).status = .success && !checkSaeRejectedGroups ap.conf (commitParse ap inp sae).sae &&
    !(restart ap inp.body sae).2

end Tokens

/-- What `handle_auth_sae` learns about tokens, with the state of the mechanism after it. -/
structure TokenAnswers where
  comeback : Comeback
  accepted : Option Bytes := none
  antiClogging : Bool := false
  tokenRequest : Bytes := []

section Handle

variable (bss : Bss) (env : Answers)

/-- The input of the station's machine, without the answers about tokens. -/
def Mgmt.input (frame : Mgmt) (env : Answers) : Input where
  toFrame := frame.toFrame
  draws := env.draws
  now := env.now
  tokenOk := false
  antiClogging := false
  tokenRequest := []
  commitSent := env.commitSent
  confirmSent := env.confirmSent
  vlanOk := env.vlanOk

def TokenAnswers.input (t : TokenAnswers) (inp : Input) : Input :=
  { inp with tokenOk := t.accepted.isSome, antiClogging := t.antiClogging, tokenRequest := t.tokenRequest }

/-- A commit with a token: `check_comeback_token`. -/
def checkToken (comeback : Comeback) (addr : MacAddr) (token : Bytes) : TokenAnswers :=
  let (comeback, ok) := checkComebackToken bss.host.hash comeback addr token
  { comeback := comeback, accepted := if ok then some token else none }

/-- A commit without a token: `use_anti_clogging`, and the token request. -/
def requestToken (frame : Mgmt) (sta : Sta) (sae : SaeData) (s : BssState) : TokenAnswers :=
  let ap := bss.ap frame.sa
  let inp := frame.input env
  let sae' := (commitParse ap inp sae).sae
  let clogged := useAntiClogging bss.antiCloggingThreshold (s.setSta frame.sa { sta with sae := some sae' })
  if clogged && reachesClogging ap inp sae then
    let h2e := (sae'.tmp.isSome && sae'.h2e) || isH2e frame.status
    let (comeback, body) :=
      authBuildTokenReq bss.host.hash s.comeback env.now env.freshKey sae'.group frame.sa h2e
    { comeback := comeback, antiClogging := true, tokenRequest := body.getD [] }
  else { comeback := s.comeback, antiClogging := clogged }

def tokenAnswers (frame : Mgmt) (sta : Sta) (s : BssState) : TokenAnswers :=
  let ap := bss.ap frame.sa
  let inp := frame.input env
  match openInstance ap sta.sae inp with
  | none => { comeback := s.comeback }
  | some sae =>
    if !reachesToken ap inp sae then { comeback := s.comeback }
    else
      match (commitParse ap inp sae).token with
      | some token => checkToken bss s.comeback frame.sa token
      | none => requestToken bss env frame sta sae s

/-! ## Frames -/

/-- The label `fail` of `handle_auth`. -/
def refuse (frame : Mgmt) (status : Status) (s : BssState) : BssRun BssState := do
  Run.emit (.refused frame.sa frame.transaction status)
  return s

/-- The event of an accepted token. -/
def noteToken (addr : MacAddr) : Option Bytes → BssRun Unit
  | some token => Run.emit (.tokenAccepted addr token)
  | none => return ()

/-- `handle_auth_sae` for a station. -/
def authenticateSta (frame : Mgmt) (sta : Sta) (s : BssState) : BssRun BssState := do
  let t := tokenAnswers bss env frame sta s
  noteToken frame.sa t.accepted
  let inp := t.input (frame.input env)
  Run.emit (.served frame inp)
  let sae ← (handleAuthSae (bss.ap frame.sa) sta.sae inp).mapLog (.station frame.sa)
  return { s.setSta frame.sa { sta with sae := sae } with comeback := t.comeback }

/-- `handle_auth` once it has found the station. -/
def authenticateKnown (frame : Mgmt) (sta : Sta) (s : BssState) : BssRun BssState :=
  let sta := { sta with lastSeqCtrl := frame.seqCtrl }
  let s := s.setSta frame.sa sta
  if !env.radiusOk then refuse frame .unspecifiedFailure s
  else if !env.reAddOk then refuse frame .apUnableToHandleNewSta s
  else authenticateSta bss env frame sta s

/-- `handle_auth` for a frame that does not go into the queue. -/
def handleNow (frame : Mgmt) (s : BssState) : BssRun BssState :=
  match s.stas.lookup frame.sa with
  | some sta =>
    if frame.retry && sta.lastSeqCtrl ≠ wlanInvalidMgmtSeq && sta.lastSeqCtrl = frame.seqCtrl then return s
    else authenticateKnown bss env frame sta s
  | none =>
    if s.stas.keys.length ≥ bss.maxNumSta || !env.staAllocated then refuse frame .apUnableToHandleNewSta s
    else authenticateKnown bss env frame {} s

/-! ## The queue -/

/-- What `auth_sae_queue` compares. -/
def Mgmt.queueKey (frame : Mgmt) : MacAddr × ℕ := (frame.sa, frame.transaction)

/-- `auth_sae_queue` -/
def authSaeQueue (frame : Mgmt) (s : BssState) : BssRun BssState :=
  if s.queue.length ≥ 15 then return s
  else do
    Run.emit (.queued frame)
    return { s with queue := KeyedQueue.put Mgmt.queueKey frame s.queue, queueTimer := true }

/-- `auth_sae_queued_addr` -/
def authSaeQueuedAddr (s : BssState) (addr : MacAddr) : Bool := s.queue.any fun frame => frame.sa = addr

/-- `handle_auth` -/
def handleAuth (fromQueue : Bool) (frame : Mgmt) (s : BssState) : BssRun BssState :=
  if env.tkipCountermeasures then refuse frame .unspecifiedFailure s
  else if frame.sa = bss.ownAddr then refuse frame .unspecifiedFailure s
  else
    match env.acl with
    | .reject => refuse frame .unspecifiedFailure s
    | .pending => return s
    | .accept =>
      if !fromQueue && (frame.transaction = 1 || (frame.transaction = 2 && authSaeQueuedAddr s frame.sa)) then
        authSaeQueue frame s
      else handleNow bss env frame s

/-- `auth_sae_process_commit`. Its timeout is no longer registered when it runs. -/
def authSaeProcessCommit (s : BssState) : BssRun BssState :=
  match s.queue with
  | [] => return { s with queueTimer := false }
  | frame :: rest => do
    Run.emit (.dequeued frame)
    let s ← handleAuth bss env true frame { s with queue := rest, queueTimer := false }
    return { s with queueTimer := true }

end Handle

/-- One step of the access point. A timeout that is not registered does not happen. -/
def Bss.step (bss : Bss) (s : BssState) : BssInput → BssRun BssState
  | .rx frame env => handleAuth bss env false frame s
  | .queueTimeout env => if s.queueTimer then authSaeProcessCommit bss env s else return s
  | .freeSta addr => do
    Run.emit (.freed addr)
    return { s with stas := s.stas.erase addr }

def Bss.run (bss : Bss) (inputs : List BssInput) : BssRun BssState := Run.steps bss.step {} inputs

/-- What holds at the start and is kept by every step holds in every run, of the state and of the events so far. -/
theorem Bss.run_invariant {bss : Bss} {inputs : List BssInput} {s : BssState} {J : List BssEvent → BssState → Prop}
    (hnew : J [] {}) (hstep : ∀ l s i s', J l s → (bss.step s i).result = .ok s' → J (l ++ (bss.step s i).log) s')
    (h : (bss.run inputs).result = .ok s) : J (bss.run inputs).log s :=
  Run.steps_invariant (l := []) (C := fun _ _ => True) (fun l s i s' hJ _ => hstep l s i s' hJ) hnew
    (Run.allSteps_of_forall fun _ _ => trivial) h

/-! ## A small access point -/

namespace Small

/-- The small access point for all stations, with room for one session without a token. -/
def bss : Bss where
  host := host
  conf := ap.conf
  ownAddr := ap.ownAddr
  staHasPassphrase _ := false
  antiCloggingThreshold := 1
  maxNumSta := 4

/-- Nothing around the access point fails. -/
def answers : Answers where
  tkipCountermeasures := false
  acl := .accept
  staAllocated := true
  radiusOk := true
  reAddOk := true
  draws := draws 1
  now := 1
  freshKey := some [1, 2, 3, 4, 5, 6, 7, 8]
  commitSent := true
  confirmSent := true
  vlanOk := true

/-- A commit of the station with the given last byte of its address, which may have a token. -/
def mgmt (sta : UInt8) (token : Bytes) : Mgmt where
  transaction := 1
  status := .success
  body := Bytes.le16 19 ++ token ++ [5, 0, 2]
  sa := addr sta

/-- The commit goes into the queue and comes out of it. -/
def served (sta : UInt8) (token : Bytes) : List BssInput :=
  [.rx (mgmt sta token) answers, .queueTimeout answers]

end Small

end DecoyAuth
