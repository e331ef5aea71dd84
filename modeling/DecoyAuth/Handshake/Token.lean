import DecoyAuth.Ap.Clogging
import DecoyAuth.Sae.Exchange
import DecoyAuth.Sme.Password

/-!
# The exchange of an anti-clogging token

An access point that is asked too much answers a commit with a token (`auth_build_token_req`). The client keeps the token
and sends its commit again with it (`sme_sae_auth`), and the access point finds the token in the commit
(`sae_parse_commit`) and compares it with its own (`check_comeback_token`). The formats of the four fit:
**`token_exchange`** says that the access point accepts the token of every client that it has asked, as long as its key
and the index of the client stay the same.
-/

namespace DecoyAuth

variable {H : HashFns} {c c' : Comeback} {addr : MacAddr} {now group : ℕ} {freshKey : Option Bytes} {h2e : Bool}
  {body : Bytes} {G : SaeGroup} {tmp peerTmp : SaeTmp} {peer : SaeData}

/-! ## The request -/

/-- The token of an address with the index that is remembered for it. -/
def Comeback.token (H : HashFns) (c : Comeback) (addr : MacAddr) : Bytes :=
  tokenFor H c.key addr (c.pending (comebackTokenHash H c.key addr))

/-- The access point remembers an index that fits in the token. -/
def Comeback.Indexed (H : HashFns) (c : Comeback) (addr : MacAddr) : Prop :=
  c.pending (comebackTokenHash H c.key addr) ≠ 0 ∧ c.pending (comebackTokenHash H c.key addr) < 2 ^ 16

/-- A token request carries the token of the address, with an index. -/
theorem authBuildTokenReq_some (hc : c.Reachable H) (h : authBuildTokenReq H c now freshKey group addr h2e = (c', some body)) :
    body = tokenRequestBody group h2e (c'.token H addr) ∧ c'.Indexed H addr := by
  obtain ⟨calls, rfl⟩ := hc
  obtain ⟨o, ho⟩ := exists_represents H calls
  have hsome : (authBuildTokenReq H (Comeback.after H calls) now freshKey group addr h2e).2.isSome := by rw [h]; rfl
  obtain ⟨o', ho', hmem⟩ := ho.requested hsome
  have hc' : (Comeback.call H (Comeback.after H calls) (.request now freshKey group addr h2e)).1 = c' := by
    simp only [Comeback.call, h]
  rw [hc'] at ho'
  have hpending : c'.pending (comebackTokenHash H c'.key addr) = 1 := by
    rw [ho'.key, ho'.pending, if_pos hmem]
  refine ⟨?_, by rw [Comeback.Indexed, hpending]; omega⟩
  unfold authBuildTokenReq at h
  split at h
  · cases h
  · cases h
    simp [Comeback.token]

theorem length_token : (c.token H addr).length = 32 := length_tokenFor _ _ _

/-- `check_comeback_token` accepts the token under the same key and index. -/
theorem checkComebackToken_token {c₁ : Comeback} (h : c.Indexed H addr) (hkey : c₁.key = c.key)
    (hpending : c₁.pending (comebackTokenHash H c.key addr) = c.pending (comebackTokenHash H c.key addr)) :
    (checkComebackToken H c₁ addr (c.token H addr)).2 = true := by
  have hi : c₁.pending (comebackTokenHash H c₁.key addr) < 2 ^ 16 := by
    rw [hkey, hpending]
    exact h.2
  rw [checkComebackToken_eq hi, if_pos]
  rw [hkey, hpending]
  exact ⟨h.1, rfl⟩

/-! ## The client -/

open Sme in
/-- A client that has sent its commit and sends it again if it is asked to. -/
structure CanRetry (cl : Client) (env : Env) (s : State) (tmp : SaeTmp) (bssid : MacAddr) : Prop where
  wpaState : s.wpaState = .authenticating
  pending : s.pendingBssid = some bssid
  bss : s.currentBss = some bssid
  committed : s.sae.state = .committed
  tmp_eq : s.sae.tmp = some tmp
  token : s.saeToken ≠ .released
  password : cl.network.password.isSome
  group_lt : s.sae.group < 2 ^ 16
  group_pos : s.sae.group ≠ 0
  listed : groupListed s.sae.group cl.network.groups = true
  preamble : env.preamble = .sae
  sameBss : env.sameBss = true
  channel : env.channelConflict = false

namespace CanRetry

open Sme

variable {cl : Client} {env : Env} {s : State} {bssid : MacAddr} (h : CanRetry cl env s tmp bssid)
include h

theorem freeToken_eq : ∃ p, freeToken s = pure { s with saeToken := p } := by
  unfold freeToken
  cases htoken : s.saeToken with
  | null =>
    refine ⟨s.saeToken, ?_⟩
    rfl
  | live t => exact ⟨.released, rfl⟩
  | released => exact absurd htoken h.token

/-- The commit is built again from what the client has. -/
theorem build_eq {sae' : SaeData} {frame token : Bytes}
    (hwrite : saeWriteCommit s.sae (some token) cl.network.passwordId = some (sae', frame)) : ∃ s' : State,
    smeAuthBuildSaeCommit cl env bssid true { s with currentBss := some bssid, saeToken := .live token } =
      pure (s', some (Bytes.le16 1 ++
        Bytes.le16 (if sae'.h2e then Status.saeHashToElement else Status.success) ++ frame)) := by
  obtain ⟨password, hpassword⟩ := Option.isSome_iff_exists.1 h.password
  unfold smeAuthBuildSaeCommit
  simp only [hpassword, h.tmp_eq, h.sameBss, Option.isSome_some, Bool.and_self, if_true, Bool.not_true, Bool.false_eq_true,
    if_false, readToken]
  rw [Run.pure_bind_eq, hwrite]
  exact ⟨_, rfl⟩

/-- The commit that is sent with a token. -/
theorem retry_log {sae' : SaeData} {frame token : Bytes}
    (hwrite : saeWriteCommit s.sae (some token) cl.network.passwordId = some (sae', frame)) :
    (smeSendAuthentication cl env s.currentBss .retry { s with saeToken := .live token }).log =
      [.authenticate (some (Bytes.le16 1 ++
        Bytes.le16 (if sae'.h2e then Status.saeHashToElement else Status.success) ++ frame))] := by
  obtain ⟨s', hbuild⟩ := h.build_eq hwrite
  unfold smeSendAuthentication
  simp only [h.bss, h.preamble]
  unfold sendSae
  simp only [reduceCtorEq, if_false, decide_true]
  rw [hbuild, Run.pure_bind_eq]
  simp only [authenticate, h.channel, Bool.false_eq_true, if_false]
  rw [Run.bind_pure_eq]
  rfl

theorem saeGroupAllowed_eq : saeGroupAllowed cl.host s.sae (some cl.network.groups) s.sae.group = (s.sae, .success) := by
  unfold saeGroupAllowed
  rw [if_neg (by simp [h.listed]), if_neg (fun hc => hc.2 rfl), if_neg (fun hne => hne rfl)]
  simp [h.tmp_eq]

/-- The client takes the token out of the request. -/
theorem tokenRequested_log {sae' : SaeData} {frame token : Bytes} (htoken : token.length ≤ 254)
    (hwrite : saeWriteCommit s.sae (some token) cl.network.passwordId = some (sae', frame)) :
    (tokenRequested cl env (tokenRequestBody s.sae.group s.sae.h2e token) s).log =
      [.authenticate (some (Bytes.le16 1 ++
        Bytes.le16 (if sae'.h2e then Status.saeHashToElement else Status.success) ++ frame))] := by
  obtain ⟨p, hfree⟩ := h.freeToken_eq
  have hbody : tokenRequestBody s.sae.group s.sae.h2e token = Bytes.le16 s.sae.group ++
      if s.sae.h2e then extElement wlanEidExtAntiCloggingToken token else token := by
    rw [tokenRequestBody, if_pos h.group_pos]
  have hlog := h.retry_log hwrite
  rw [h.bss] at hlog
  unfold tokenRequested
  rw [hbody, if_neg (by simp; omega), Bytes.getLe16_le16_append h.group_lt, h.saeGroupAllowed_eq,
    List.drop_left' (Bytes.length_le16 _)]
  simp only [ne_eq, not_true_eq_false, if_false]
  rw [hfree, Run.pure_bind_eq]
  cases hh2e : s.sae.h2e with
  | false =>
    simp only [Bool.false_and, Bool.false_eq_true, if_false, h.bss]
    rw [Run.bind_pure_eq]
    exact hlog
  | true =>
    have helem : saeIsTokenContainerElem (extElement wlanEidExtAntiCloggingToken token) = true := by
      rw [← List.append_nil (extElement _ _)]
      exact (isElem_extElement htoken).2 ⟨by omega, by omega, rfl⟩
    have hcontent : elemContent (extElement wlanEidExtAntiCloggingToken token) = token := by
      rw [← List.append_nil (extElement _ _)]
      exact elemContent_extElement htoken
    simp only [helem, hcontent, if_true, Bool.not_true, Bool.and_false, Bool.false_eq_true, if_false, h.bss]
    rw [Run.bind_pure_eq]
    exact hlog

theorem smeEventAuth_log {sae' : SaeData} {frame token : Bytes} (htoken : token.length ≤ 254)
    (hwrite : saeWriteCommit s.sae (some token) cl.network.passwordId = some (sae', frame)) :
    (smeEventAuth cl env ⟨bssid, wlanAuthSae, 1, .antiCloggingTokenReq,
        tokenRequestBody s.sae.group s.sae.h2e token⟩ s).log =
      [.authenticate (some (Bytes.le16 1 ++
        Bytes.le16 (if sae'.h2e then Status.saeHashToElement else Status.success) ++ frame))] := by
  unfold smeEventAuth
  rw [if_neg (by simp [h.wpaState, h.pending]), if_neg (fun hne => hne rfl), Run.bind_pure_eq]
  unfold smeSaeAuth
  rw [if_pos ⟨⟨rfl, h.committed, by simp [h.bss]⟩, rfl⟩]
  exact h.tokenRequested_log htoken hwrite

end CanRetry

/-! ## The answer -/

/-- The status of a commit. -/
def commitStatusOf (sae : SaeData) : Status := if sae.h2e then .saeHashToElement else .success

/-- The access point takes a commit that is written from `sae`, whatever it thinks of its token. -/
structure ApTakes (bss : Bss) (inp : Input) (G : SaeGroup) (sae : SaeData) (tmp : SaeTmp) (token identifier : Option Bytes)
    (peer : SaeData) (peerTmp : SaeTmp) : Prop where
  awaits : Awaits G bss.conf.groups sae.group peer peerTmp
  takes : Takes sae peer peerTmp token identifier
  not_committed : peer.state ≠ .committed
  status : saeStatusSuccess bss.conf (commitStatusOf sae) = true
  enabled : saeProtoInstanceDisabled inp peer = false
  not_own : isReflection { peer with peerCommitScalar := tmp.ownCommitScalar } (peerTmp.receiveElement tmp G) = false

theorem isH2e_commitStatusOf (sae : SaeData) : isH2e (commitStatusOf sae) = sae.h2e := by
  unfold commitStatusOf
  cases sae.h2e <;> decide

theorem restart_of_ne {ap : Ap} {body : Bytes} (h : peer.state ≠ .committed) : restart ap body peer = (peer, false) := by
  unfold restart
  rw [if_pos h]

section Answer

variable {bss : Bss} {env : Answers} {mgmt : Mgmt} {sae sae' : SaeData} {token identifier : Option Bytes} {frame : Bytes}

/-- The access point reads the commit. -/
theorem ApTakes.commitParse_eq {ap : Ap} {inp : Input} (h : ApTakes bss inp G sae tmp token identifier peer peerTmp)
    (hp : Prepared G sae tmp) (hread : Readable sae tmp token identifier)
    (hwrite : saeWriteCommit sae token identifier = some (sae', frame)) (hconf : ap.conf = bss.conf)
    (hinp : inp.toFrame = ⟨1, commitStatusOf sae, frame⟩) :
    (commitParse ap inp peer).token = token ∧ (commitParse ap inp peer).status = .success := by
  have hbody : inp.body = frame := congrArg Frame.body hinp
  have hstatus : inp.status = commitStatusOf sae := congrArg Frame.status hinp
  have hparse : saeParseCommit ap.host peer frame _ _ = _ := saeParseCommit_bytes hp h.awaits hread h.takes hwrite
  rw [h.not_own] at hparse
  rw [commitParse, restart_of_ne h.not_committed, hbody, hstatus, isH2e_commitStatusOf, hconf, hparse]
  exact ⟨rfl, rfl⟩

/-- The token is compared with the one of the access point. -/
theorem ApTakes.tokenAnswers_eq {t : Bytes} {sta : Sta} {a : BssState}
    (h : ApTakes bss (mgmt.input env) G sae tmp (some t) identifier peer peerTmp) (hp : Prepared G sae tmp)
    (hread : Readable sae tmp (some t) identifier) (hwrite : saeWriteCommit sae (some t) identifier = some (sae', frame))
    (hframe : mgmt.toFrame = ⟨1, commitStatusOf sae, frame⟩) (hsta : sta.sae = some peer) :
    tokenAnswers bss env mgmt sta a = checkToken bss a.comeback mgmt.sa t := by
  have hparse : (commitParse (bss.ap mgmt.sa) (mgmt.input env) peer).token = some t ∧ _ :=
    h.commitParse_eq hp hread hwrite rfl hframe
  have htrans : (mgmt.input env).transaction = 1 := congrArg Frame.transaction hframe
  have hstatus : (mgmt.input env).status = commitStatusOf sae := congrArg Frame.status hframe
  have hne : Status.success ≠ .saeSilentlyDiscard ∧ Status.success ≠ .unknownPasswordIdentifier := by decide
  have hsuccess : saeStatusSuccess (bss.ap mgmt.sa).conf (commitStatusOf sae) = true := h.status
  have hreach : reachesToken (bss.ap mgmt.sa) (mgmt.input env) peer = true := by
    simp [reachesToken, hparse.2, htrans, hstatus, h.enabled, hne, hsuccess]
  have hopen : openInstance (bss.ap mgmt.sa) sta.sae (mgmt.input env) = some peer := by
    rw [hsta]
    rfl
  simp only [tokenAnswers, hopen, hreach, hparse.1, Bool.not_true, Bool.false_eq_true, if_false]

end Answer

theorem Readable.withToken {sae : SaeData} {identifier : Option Bytes} {t : Bytes} (h : Readable sae tmp none identifier)
    (ht : t.length = 32) : Readable sae tmp (some t) identifier := by
  unfold Readable at h ⊢
  split
  · next hh2e =>
    rw [if_pos hh2e] at h
    refine ⟨h.identifier, h.groups, ?_⟩
    rintro _ ⟨⟩
    omega
  · next hh2e =>
    rw [if_neg hh2e] at h
    refine ⟨h.1, h.2.1, ?_⟩
    rintro _ ⟨⟩
    omega

/-- **The token comes back.** A client that is sent a token request sends its commit again, and the access point accepts the
token in it, in every group, with hash-to-element or without it, unless its key or the index of the client has changed. -/
theorem token_exchange {cl : Sme.Client} {env : Sme.Env} {s : Sme.State} {bssid : MacAddr} {bss : Bss}
    (hretry : CanRetry cl env s tmp bssid) (hp : Prepared G s.sae tmp)
    (hread : Readable s.sae tmp none cl.network.passwordId)
    (hsent : (saeWriteCommit s.sae none cl.network.passwordId).isSome) (hc : c.Reachable bss.host.hash)
    (hrequest : authBuildTokenReq bss.host.hash c now freshKey s.sae.group cl.ownAddr s.sae.h2e = (c', some body)) :
    ∃ frame token, (Sme.smeEventAuth cl env ⟨bssid, Sme.wlanAuthSae, 1, .antiCloggingTokenReq, body⟩ s).log =
        [.authenticate (some (Bytes.le16 1 ++ Bytes.le16 (commitStatusOf s.sae) ++ frame))] ∧
      ∀ (mgmt : Mgmt) (answers : Answers) (sta : Sta) (a : BssState) (peer : SaeData) (peerTmp : SaeTmp),
        mgmt.toFrame = ⟨1, commitStatusOf s.sae, frame⟩ → mgmt.sa = cl.ownAddr → sta.sae = some peer →
        ApTakes bss (mgmt.input answers) G s.sae tmp (some token) cl.network.passwordId peer peerTmp →
        a.comeback.key = c'.key →
        a.comeback.pending (comebackTokenHash bss.host.hash c'.key cl.ownAddr) =
          c'.pending (comebackTokenHash bss.host.hash c'.key cl.ownAddr) →
        (tokenAnswers bss answers mgmt sta a).accepted = some token := by
  obtain ⟨rfl, hindexed⟩ := authBuildTokenReq_some hc hrequest
  obtain ⟨⟨sae₀, frame₀⟩, hfirst⟩ := Option.isSome_iff_exists.1 hsent
  obtain ⟨scalar, hscalar, hlt, -⟩ := saeWriteCommit_bytes hp hfirst
  obtain ⟨frame, hwrite⟩ := saeWriteCommit_of_lt hp hscalar hlt (some (c'.token bss.host.hash cl.ownAddr))
    cl.network.passwordId
  have hlen : (c'.token bss.host.hash cl.ownAddr).length = 32 := length_token
  have hh2e : s.sae.noteAkmSuite.h2e = s.sae.h2e := by
    unfold SaeData.noteAkmSuite
    split <;> rfl
  have hlog := hretry.smeEventAuth_log (by omega) hwrite
  rw [hh2e] at hlog
  refine ⟨frame, c'.token bss.host.hash cl.ownAddr, hlog, ?_⟩
  intro mgmt answers sta a peer peerTmp hframe hsa hsta htakes hkey hpending
  rw [htakes.tokenAnswers_eq hp (hread.withToken hlen) hwrite hframe hsta, hsa]
  have hok := checkComebackToken_token hindexed hkey hpending
  simp only [checkToken, hok, if_true]

/-- A client of the small access point that has sent a commit. -/
def Small.retrying : Sme.State where
  wpaState := .authenticating
  currentBss := some (Small.addr 1)
  pendingBssid := some (Small.addr 1)
  sae := { Small.sender false .sae with state := .committed }

/-- A client gets a token and sends it back. -/
theorem token_exchange_small : ∃ frame body token c',
    (Sme.smeEventAuth Sme.smallClient Sme.smallEnv
        ⟨Small.addr 1, Sme.wlanAuthSae, 1, .antiCloggingTokenReq, body⟩ Small.retrying).log =
      [.authenticate (some (Bytes.le16 1 ++ Bytes.le16 0 ++ frame))] ∧
    (tokenAnswers Small.bss Small.answers { toFrame := ⟨1, .success, frame⟩, sa := Small.addr 2 }
      { sae := some Small.receiver } { comeback := c' }).accepted = some token := by
  have hretry : CanRetry Sme.smallClient Sme.smallEnv Small.retrying Small.senderTmp (Small.addr 1) :=
    ⟨rfl, rfl, rfl, rfl, rfl, nofun, rfl, by decide, by decide, by decide, rfl, rfl, rfl⟩
  have hp : Prepared (.ecc Small.group) Small.retrying.sae Small.senderTmp :=
    ⟨rfl, (Small.prepared_sender false .sae).inGroup, (Small.prepared_sender false .sae).scalar,
      (Small.prepared_sender false .sae).element⟩
  have hread : Readable Small.retrying.sae Small.senderTmp none none := ⟨rfl, rfl, nofun⟩
  have hsent : (saeWriteCommit Small.retrying.sae none none).isSome := by decide +kernel
  have hrequest : authBuildTokenReq Small.bss.host.hash {} 1 (some [1, 2, 3, 4, 5, 6, 7, 8]) Small.retrying.sae.group
      Sme.smallClient.ownAddr Small.retrying.sae.h2e = _ := rfl
  obtain ⟨frame, token, hlog, hanswer⟩ := token_exchange hretry hp hread hsent ⟨[], rfl⟩ hrequest
  have htakes : ApTakes Small.bss (Mgmt.input { toFrame := ⟨1, .success, frame⟩, sa := Small.addr 2 } Small.answers)
      (.ecc Small.group) Small.retrying.sae Small.senderTmp (some token) none Small.receiver
      (newTmp Small.host Small.group) :=
    ⟨⟨rfl, Small.inGroup_newTmp, rfl, by decide, nofun, by decide, nofun⟩, ⟨⟨nofun, nofun⟩, .inl rfl⟩, nofun, by decide, rfl,
      by decide +kernel⟩
  exact ⟨frame, _, token, _, hlog, hanswer _ _ _ _ _ _ rfl rfl rfl htakes rfl rfl⟩

end DecoyAuth
