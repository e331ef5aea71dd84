import DecoyAuth.Handshake.Air
import DecoyAuth.Sme.Password

/-!
# The turns of the client

`Joins` is a client that is configured as a setting says, in an attempt where nothing around it fails. Its three turns in
a handshake whose calls succeed are `Joins.connect_yields`, `Joins.commit_yields` and `Joins.confirm_yields`.
-/

namespace DecoyAuth

open Sme (Client Env State Start)

/-- The attempt takes SAE, and the driver takes the frame. -/
structure Sme.Env.Sends (env : Env) : Prop where
  preamble : env.preamble = .sae
  channelConflict : env.channelConflict = false
  driverOk : env.driverOk = true

/-- The client is configured as the setting says, for a commit without a PT. The last three arguments are what the code
asks for when it connects and when it handles the two frames of the access point. -/
structure Joins (s : Setting) (cl : Client) (connect commit confirm : Env) : Prop where
  host : cl.host = s.client
  ownAddr : cl.ownAddr = s.clientAddr
  password : cl.network.password = some s.password
  passwordId : cl.network.passwordId = none
  keyMgmt : cl.network.keyMgmt = s.clientAkmp
  group : cl.network.groups.getD 0 0 = s.group
  allowed : cl.network.allowedGroups = s.clientAllowed
  noPt : Sme.choosePt cl connect = some false
  draws : connect.draws = s.clientDraws
  surroundings : commit.surroundings = s.env
  connectSends : connect.Sends
  commitSends : commit.Sends
  pmkSet : confirm.pmkSet = true
  settled : confirm.restarts = false

/-- A state from which the client can start: no group was rejected, no token is held, and identifiers play no role. -/
structure Idle (c : State) : Prop where
  saeToken : c.saeToken = .null
  saeRejectedGroups : c.saeRejectedGroups = none
  noPwId : c.sae.noPwId = false

section Turns

variable {s : Setting} {t : Trace} {cl : Client} {connect commit confirm : Env} {c : State}

/-! ## Connecting -/

/-- The client after it has sent its commit. -/
def Trace.connecting (s : Setting) (t : Trace) (c : State) : State :=
  { c with
    wpaState := .authenticating
    currentBss := some s.apAddr
    pendingBssid := some s.apAddr
    password := .live s.password
    sae := t.clientSent.label .committed false
    saeGroupIndex := 0 }

/-- The client selects the first group of the network. -/
theorem Joins.smeSetSaeGroup_eq (hj : Joins s cl connect commit confirm) (hindex : c.saeGroupIndex = 0)
    (hrejected : c.saeRejectedGroups = none) (hid : c.sae.noPwId = false) :
    Sme.smeSetSaeGroup cl c = ({ c with sae := newInstance s.client s.group s.clientAkmp }, true) := by
  have hpos : ¬(s.group : ℤ) ≤ 0 := by
    have hne := suitable_ne_zero s.suitable
    omega
  unfold Sme.smeSetSaeGroup
  rw [if_neg (by simp [Sme.indexWithinArray, hindex])]
  unfold Sme.setSaeGroupFrom
  simp only [hindex, hj.group, if_neg hpos, hrejected, Option.getD_none, List.contains_nil, Bool.false_eq_true, if_false,
    Int.toNat_natCast, hj.host, hj.keyMgmt, saeSetGroup_newTmp s.suitable s.client_ec, if_true, hid,
    newInstance_eq s.suitable s.client_ec]

/-- A frame goes to the driver. -/
theorem authenticate_yields {env : Env} (henv : env.Sends) (bssid : MacAddr) (data : Bytes) (c : State) :
    (Sme.authenticate env bssid (some data) c).Yields Sme.Event.output
      { c with pendingBssid := some bssid, wpaState := .authenticating }
      [⟨Bytes.getLe16 data, Bytes.getLe16 (data.drop 2), data.drop 4⟩] := by
  unfold Sme.authenticate
  simp only [henv.channelConflict, henv.driverOk, Bool.false_eq_true, if_false, if_true]
  exact (Run.Yields.emit _).bind (Run.Yields.pure _)

/-- The client with a commit or a confirm on its way. -/
def Sme.State.sent (c : State) (bssid : MacAddr) (state : SaeState) : State :=
  { c with
    wpaState := .authenticating
    pendingBssid := some bssid
    sae := { c.sae with state := state } }

section Send

variable {env : Env} {bssid : MacAddr} {c c' : State} {data : Bytes} (henv : env.Sends)
include henv

/-- A commit that was built is sent. -/
theorem sendSae_commit_yields
    (h : (Sme.smeAuthBuildSaeCommit cl env bssid false c).Yields Sme.Event.output (c', some data) []) :
    (Sme.sendSae cl env bssid .commit c).Yields Sme.Event.output (c'.sent bssid .committed)
      [⟨Bytes.getLe16 data, Bytes.getLe16 (data.drop 2), data.drop 4⟩] := by
  unfold Sme.sendSae
  rw [if_neg (by decide)]
  exact h.bind (authenticate_yields henv bssid data { c' with sae := { c'.sae with state := .committed } })

/-- A confirm that was built is sent. -/
theorem sendSae_confirm_yields
    (h : (Sme.smeAuthBuildSaeConfirm cl c).Yields Sme.Event.output (c', some data) []) :
    (Sme.sendSae cl env bssid .confirm c).Yields Sme.Event.output (c'.sent bssid .confirmed)
      [⟨Bytes.getLe16 data, Bytes.getLe16 (data.drop 2), data.drop 4⟩] := by
  unfold Sme.sendSae
  rw [if_pos rfl]
  exact h.bind (authenticate_yields henv bssid data { c' with sae := { c'.sae with state := .confirmed } })

end Send

/-- The client builds its commit. -/
theorem Joins.smeAuthBuildSaeCommit_yields (hj : Joins s cl connect commit confirm) (h : Runs s t)
    (hindex : c.saeGroupIndex = 0) (htoken : c.saeToken = .null) (hrejected : c.saeRejectedGroups = none)
    (hid : c.sae.noPwId = false) : (Sme.smeAuthBuildSaeCommit cl connect s.apAddr false c).Yields Sme.Event.output
      ({ c with password := .live s.password, sae := t.clientSent },
        some (Bytes.le16 1 ++ Bytes.le16 Status.success ++ t.clientCommit)) [] := by
  obtain ⟨pwe, out, hc⟩ := h.clientCommit
  have hh2e : t.clientSent.h2e = false := by rw [hc.sent]
  have hprepare : Sme.prepare cl connect s.apAddr s.password { c with password := .live s.password } =
      ({ c with password := .live s.password, sae := t.clientPrepared }, true) := by
    unfold Sme.prepare
    rw [hj.smeSetSaeGroup_eq (c := { c with password := .live s.password }) hindex hrejected hid]
    simp only [hj.noPt, hj.host, hj.ownAddr, hj.draws, h.clientPrepares, Bool.not_true, Bool.false_eq_true, if_false]
  unfold Sme.smeAuthBuildSaeCommit
  simp only [hj.password, Bool.false_and, Bool.false_eq_true, if_false, hprepare, Bool.not_true]
  have hread : (Sme.readToken { c with password := .live s.password, sae := t.clientPrepared }).Yields Sme.Event.output
      none [] := by
    simp only [Sme.readToken, htoken]
    exact Run.Yields.pure _
  refine hread.bind_silent ?_
  simp only [hj.passwordId, h.clientWrites, hh2e, Bool.false_eq_true, if_false]
  exact Run.Yields.pure _

/-- **The client connects** and sends its commit. -/
theorem Joins.connect_yields (hj : Joins s cl connect commit confirm) (h : Runs s t) (hc : Idle c) :
    (Sme.step cl c (.connect s.apAddr connect)).Yields Sme.Event.output (t.connecting s c)
      [⟨1, .success, t.clientCommit⟩] := by
  obtain ⟨pwe, out, hcommit⟩ := h.clientCommit
  have hlabel : { t.clientSent with state := .committed } = t.clientSent.label .committed false := by
    rw [hcommit.sent]
    rfl
  have hstep : Sme.step cl c (.connect s.apAddr connect) =
      Sme.sendSae cl connect s.apAddr .commit { Sme.smeAuthenticate c with currentBss := some s.apAddr } := by
    simp only [Sme.step, Sme.smeSendAuthentication, hj.connectSends.preamble]
  rw [hstep]
  have hsent := sendSae_commit_yields hj.connectSends (hj.smeAuthBuildSaeCommit_yields
    (c := { Sme.smeAuthenticate c with currentBss := some s.apAddr }) h rfl hc.saeToken hc.saeRejectedGroups hc.noPwId)
  have hstate : Sme.State.sent { Sme.smeAuthenticate c with
      currentBss := some s.apAddr
      password := .live s.password
      sae := t.clientSent } s.apAddr .committed = t.connecting s c := by
    rw [Trace.connecting, ← hlabel]
    rfl
  rw [← hstate]
  exact hsent

/-! ## The commit of the access point -/

/-- The client after it has sent its confirm. -/
def Trace.confirming (s : Setting) (t : Trace) (c : State) : State :=
  { t.connecting s c with
    password := .released
    sae := t.clientConfirmed.label .confirmed false
    saeToken := .null }

/-- A frame of the access point. -/
def Setting.frame (s : Setting) (transaction : ℕ) (body : Bytes) : Sme.AuthFrame :=
  ⟨s.apAddr, Sme.wlanAuthSae, transaction, .success, body⟩

/-- The client parses the commit in the state Committed as in a new instance. -/
theorem Runs.saeApParseCommit_label (h : Runs s t) {values : List (ℤ × ℤ)} {pwe element : EcPoint} {out out' : Scalars}
    {tmp : SaeTmp} (hc : ClientCommit s t pwe out) (ha : ApCommit s t element tmp out' values) :
    (saeApParseCommit s.client s.env s.password (t.clientSent.label .committed false) t.apCommit s.clientAllowed
      false).result = .ok (t.clientReceived.label .committed false, .success) := by
  have hnew := selected_newTmp s.suitable s.client s.ec s.clientAkmp
  have hgroup : (t.clientSent.label .committed false).group = s.group := by
    rw [hc.sent]
    rfl
  have hsel : Selected s.ec (t.clientSent.label .committed false) (s.clientTmp pwe out) := by
    rw [hc.sent]
    exact ⟨rfl, rfl, rfl, rfl, rfl, rfl, hnew.group_lt, nofun⟩
  obtain ⟨hlt, hframe⟩ := ha.frame_eq
  have hframe : t.apCommit = Bytes.le16 (t.clientSent.label .committed false).group ++
      (Bytes.toBe (s.clientTmp pwe out).primeLen out'.scalar.toNat ++ s.afterScalar values) := by
    rw [hgroup]
    exact hframe
  have hhead : parseApCommitHead s.client (t.clientSent.label .committed false) t.apCommit s.clientAllowed =
      .ok (SaeData.label .committed false { t.clientSent with peerCommitScalar := some out'.scalar }, s.clientTmp pwe out,
        s.afterScalar values) := by
    rw [hframe]
    exact parseApCommitHead_written s.client (s.afterScalar values) hsel (by rw [hgroup]; exact s.client_allows)
      ha.prepared.drawn.isScalar hlt
  rw [saeApParseCommit_of_head s.env s.password false hhead, parseApCommitBody_label]
  exact Run.mapValue_ok _ (h.clientBody hc ha)

/-- The client parses a commit and frees its password. -/
theorem parseCommit_yields {env : Env} {frame : Sme.AuthFrame} {sae : SaeData} {status : Status} {password : Bytes}
    (hpw : c.password = .live password) (h : (saeApParseCommit cl.host env.surroundings password c.sae frame.ies
      cl.network.allowedGroups (Sme.isH2eStatus frame.status)).result = .ok (sae, status)) :
    (Sme.parseCommit cl env frame c).Yields Sme.Event.output ({ c with sae := sae, password := .released }, status)
      [] := by
  unfold Sme.parseCommit
  refine (Run.Yields.emit _).bind ?_
  simp only [hpw, h]
  exact (Run.Yields.lift rfl).bind (Run.Yields.pure _)

/-- The client builds its confirm. -/
theorem smeAuthBuildSaeConfirm_yields {sae : SaeData} {body : Bytes}
    (h : saeWriteConfirm cl.host c.sae = .ok (sae, some body)) :
    (Sme.smeAuthBuildSaeConfirm cl c).Yields Sme.Event.output
      ({ c with sae := sae }, some (Bytes.le16 2 ++ Bytes.le16 Status.success ++ body)) [] := by
  unfold Sme.smeAuthBuildSaeConfirm
  rw [h]
  exact (Run.Yields.lift rfl).bind (Run.Yields.pure _)

/-- The client answers a commit that it has parsed with its confirm. -/
theorem commitParsed_yields {env : Env} {bssid : MacAddr} {sae sae' : SaeData} {body : Bytes} (henv : env.Sends)
    (hbss : c.currentBss = some bssid) (htoken : c.saeToken = .null)
    (hrejected : rejectedGroupEnabled cl.network.enabledGroups c.sae = false)
    (hprocess : saeProcessCommit cl.host c.sae = some sae)
    (hwrite : saeWriteConfirm cl.host sae = .ok (sae', some body)) :
    (Sme.commitParsed cl env .success c).Yields Sme.Event.output
      (Sme.State.sent { c with sae := sae', saeToken := .null } bssid .confirmed, 0) [⟨2, .success, body⟩] := by
  have hbuild := smeAuthBuildSaeConfirm_yields (c := { c with sae := sae, saeToken := .null }) hwrite
  have hsend : (Sme.smeSendAuthentication cl env c.currentBss .confirm { c with sae := sae, saeToken := .null }).Yields
      Sme.Event.output (Sme.State.sent { c with sae := sae', saeToken := .null } bssid .confirmed)
        [⟨2, .success, body⟩] := by
    simp only [Sme.smeSendAuthentication, hbss, henv.preamble]
    rw [← hbss]
    exact sendSae_confirm_yields henv hbuild
  have hfree : (Sme.freeToken { c with sae := sae }).Yields Sme.Event.output { c with sae := sae } [] := by
    simp only [Sme.freeToken, htoken]
    exact Run.Yields.pure _
  unfold Sme.commitParsed
  rw [if_neg (by decide), if_neg (by decide), if_neg (by simp [hrejected]), hprocess]
  exact hfree.bind (hsend.bind_silent (Run.Yields.pure _))

/-- **The client takes the commit of the access point** and sends its confirm. -/
theorem Joins.commit_yields (hj : Joins s cl connect commit confirm) (h : Runs s t) (hidle : Idle c) :
    (Sme.step cl (t.connecting s c) (.auth (s.frame 1 t.apCommit) commit)).Yields Sme.Event.output (t.confirming s c)
      [⟨2, .success, t.confirm⟩] := by
  obtain ⟨pwe, out, hc⟩ := h.clientCommit
  obtain ⟨tmp, out', values, ha⟩ := h.apCommit hc
  obtain ⟨P, -, hreceived⟩ := h.clientReceived_eq hc ha
  have hparse := h.saeApParseCommit_label hc ha
  rw [← hj.host, ← hj.allowed, ← hj.surroundings] at hparse
  have hprocess : saeProcessCommit cl.host (t.clientReceived.label .committed false) =
      some (t.clientProcessed.label .committed false) := by
    rw [hj.host, saeProcessCommit_label, h.clientProcesses]
    rfl
  have hwrite : saeWriteConfirm cl.host (t.clientProcessed.label .committed false) =
      .ok (t.clientConfirmed.label .committed false, some t.confirm) := by
    rw [hj.host, saeWriteConfirm_label, h.clientConfirms]
    rfl
  have hrejected : rejectedGroupEnabled cl.network.enabledGroups (t.clientReceived.label .committed false) = false := by
    rw [hreceived]
    rfl
  have hreach : Sme.ReachesParser (t.connecting s c) (s.frame 1 t.apCommit) := by
    refine ⟨rfl, rfl, rfl, rfl, .inl rfl, rfl, rfl, ?_⟩
    change Sme.statusFits (t.clientSent.label .committed false) .success = true
    rw [hc.sent]
    rfl
  have hanswered : (Sme.commitReceived cl commit (s.frame 1 t.apCommit) (t.connecting s c)).Yields Sme.Event.output
      (t.confirming s c, 0) [⟨2, .success, t.confirm⟩] := by
    unfold Sme.commitReceived
    rw [if_neg (by simp [Trace.connecting]), if_neg (not_not.2 hreach.committed), if_neg (by simp [hreach.fits])]
    refine (parseCommit_yields rfl hparse).bind ?_
    exact commitParsed_yields (c := { t.connecting s c with
      sae := t.clientReceived.label .committed false, password := .released })
      hj.commitSends rfl hidle.saeToken hrejected hprocess hwrite
  change (Sme.smeEventAuth cl commit (s.frame 1 t.apCommit) (t.connecting s c)).Yields _ _ _
  rw [hreach.smeEventAuth_eq]
  exact hanswered.bind_silent (Run.Yields.pure _)

/-! ## The confirm of the access point -/

/-- The client accepts a confirm that is made with its own key, over the elements of both parties. -/
theorem ClientProcessed.saeCheckConfirm_eq {pwe : EcPoint} {out out' : Scalars} {key : KeyEntry} {sae sae' : SaeData}
    {tmp : SaeTmp} {n : ℕ} {verifier : Bytes} (h : ClientProcessed s pwe out out' key sae tmp)
    (hkeeps : TailKeeps sae sae')
    (hv : saeCnConfirmEcc s.client.hash s.ec.toEcParams (Bytes.numBytes s.ec.prime) key.kck (Bytes.le16 n) out'.scalar
      (commitElementEcc s.ec.toEcParams pwe out'.mask) out.scalar (commitElementEcc s.ec.toEcParams pwe out.mask) =
        some verifier) : Sme.saeCheckConfirm s.client (Bytes.le16 n ++ verifier) sae' = true := by
  have h2 : (Bytes.le16 n).length = 2 := Bytes.length_le16 n
  have hlen := length_saeCnConfirmEcc hv
  have hverifier : apVerifier s.client sae' tmp (Bytes.le16 n ++ verifier) = some verifier := by
    simp only [apVerifier, hkeeps.peerCommitScalar, h.ready.peerCommitScalar, h.ready.ownCommitScalar, h.ready.ec_eq,
      h.ready.peerCommitElementEcc, h.element_eq, h.kck_eq, h.primeLen, List.take_left' h2, bind, Option.bind_some, hv]
  unfold Sme.saeCheckConfirm
  rw [hkeeps.tmp_eq, h.tmp_eq]
  simp [hverifier, h.kck_eq, h2, List.drop_left' h2, List.take_of_length_le hlen.le, hlen]

/-- The client after it has accepted the access point and started to associate. -/
def Trace.joined (s : Setting) (t : Trace) (c : State) (confirm : Env) : State :=
  { t.confirming s c with
    wpaState := confirm.after
    sae := (t.clientConfirmed.label .accepted false).clearTempData
    saeRejectedGroups := none }

/-- The temporary data is released, and the keys stay. -/
theorem Trace.joined_sae (s : Setting) (t : Trace) (c : State) (confirm : Env) :
    (t.joined s c confirm).sae.state = .accepted ∧ (t.joined s c confirm).sae.pmk = t.clientConfirmed.pmk ∧
      (t.joined s c confirm).sae.pmkid = t.clientConfirmed.pmkid := by
  simp only [Trace.joined, SaeData.clearTempData]
  split
  · exact ⟨rfl, rfl, rfl⟩
  · exact ⟨rfl, rfl, rfl⟩

/-- **The client accepts a confirm** that verifies. -/
theorem Joins.confirm_yields (hj : Joins s cl connect commit confirm) {body : Bytes}
    (h : Sme.saeCheckConfirm s.client body t.clientConfirmed = true) :
    (Sme.step cl (t.confirming s c) (.auth (s.frame 2 body) confirm)).Yields Sme.Event.output
      (t.joined s c confirm) [] := by
  have hcheck : Sme.saeCheckConfirm cl.host body (t.clientConfirmed.label .confirmed false) = true := by
    rw [hj.host]
    exact h
  have hreceived : Sme.confirmReceived cl (s.frame 2 body) (t.confirming s c) =
      ({ t.confirming s c with
        sae := (t.clientConfirmed.label .accepted false).clearTempData
        saeRejectedGroups := none }, 1) := by
    unfold Sme.confirmReceived
    rw [if_neg]
    · rfl
    · rintro (h | h | h)
      · exact h rfl
      · exact h rfl
      · rw [show (t.confirming s c).sae = t.clientConfirmed.label .confirmed false from rfl] at h
        simp [Setting.frame, hcheck] at h
  have hsae : Sme.smeSaeAuth cl confirm (s.frame 2 body) (t.confirming s c) =
      pure (Sme.confirmReceived cl (s.frame 2 body) (t.confirming s c)) := rfl
  change (Sme.smeEventAuth cl confirm (s.frame 2 body) (t.confirming s c)).Yields _ _ _
  unfold Sme.smeEventAuth
  rw [if_neg (by simp [Trace.confirming, Trace.connecting, Setting.frame]), if_neg (by simp [Setting.frame]), hsae,
    hreceived]
  refine (Run.Yields.pure _).bind ?_
  have hanswer : Sme.saeAnswered confirm 1 { t.confirming s c with
      sae := (t.clientConfirmed.label .accepted false).clearTempData
      saeRejectedGroups := none } = t.joined s c confirm := by
    simp [Sme.saeAnswered, Sme.afterSae, hj.pmkSet, hj.settled, Trace.joined]
  rw [← hanswer]
  exact Run.Yields.pure _

end Turns

end DecoyAuth
