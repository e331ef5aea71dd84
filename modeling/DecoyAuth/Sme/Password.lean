import DecoyAuth.Sme.Invariant

/-!
# The lifetime of the client's password

The client is left waiting without the password when it discards a commit, because that is its own, and when it accepts one
but does not get to send its confirm, and only then (`kept_iff`). **In every run without these two, every commit is parsed
with a live password** (`parses_with_live_password`); after a reflected commit the next one is parsed with freed memory
(`reflection_releases`).
-/

namespace DecoyAuth.Sme

variable {cl : Client} {env : Env} {s s' : State} {frame : AuthFrame}

/-! ## The two ways to lose the password -/

section Lost

/-- The client waits for a commit without the password. -/
structure Lost (s : State) : Prop where
  authenticating : s.wpaState = .authenticating
  committed : s.sae.state = .committed
  released : s.password = .released

theorem Lost.not_kept (h : Lost s) : ¬Kept s := by
  intro hk
  have := hk h.authenticating h.committed
  rw [h.released] at this
  cases this

theorem parseCommit_result {password : Bytes} {sae : SaeData} {status : Status} (hpw : s.password = .live password)
    (h : (saeApParseCommit cl.host env.surroundings password s.sae frame.ies cl.network.allowedGroups
      (isH2eStatus frame.status)).result = .ok (sae, status)) :
    (parseCommit cl env frame s).result = .ok ({ s with sae := sae, password := .released }, status) := by
  unfold parseCommit
  rw [Run.bind_of_ok (Run.emit_result _), hpw]
  dsimp only
  rw [Run.bind_of_ok (a := (sae, status)) (by rw [Run.lift_result, h]; rfl)]
  rfl

/-- A commit that reaches the parser gets there through `sme_sae_auth`. -/
theorem ReachesParser.smeEventAuth_eq (h : ReachesParser s frame) : smeEventAuth cl env frame s =
    commitReceived cl env frame s >>= fun r => return saeAnswered env r.2 r.1 := by
  have hstatus : frame.status = .success ∨ frame.status = .saeHashToElement ∨ frame.status = .saePk := by
    simpa only [isH2eStatus, Bool.or_eq_true, decide_eq_true_eq] using h.status
  have hne : ∀ code, code ≠ Status.success → code ≠ Status.saeHashToElement → code ≠ Status.saePk → frame.status ≠ code := by
    rintro code h0 h1 h2 rfl
    rcases hstatus with h | h | h
    · exact h0 h
    · exact h1 h
    · exact h2 h
  have hsae : smeSaeAuth cl env frame s = commitReceived cl env frame s := by
    unfold smeSaeAuth
    dsimp only
    rw [if_neg fun h => hne _ (by decide) (by decide) (by decide) h.2,
      if_neg fun h => hne _ (by decide) (by decide) (by decide) h.2,
      if_neg fun h => hne _ (by decide) (by decide) (by decide) h.2, if_neg, if_pos h.transaction]
    rintro ⟨hne, hne'⟩
    rcases h.status with h | h
    · exact hne h
    · simp [h] at hne'
  unfold smeEventAuth
  rw [if_neg (by simp [h.authenticating, h.peer]), if_neg (not_not.2 h.authType), hsae]

theorem ReachesParser.commitReceived_result {password : Bytes} {sae : SaeData} {status : Status} (h : ReachesParser s frame)
    (hpw : s.password = .live password) (hparse : (saeApParseCommit cl.host env.surroundings password s.sae frame.ies
      cl.network.allowedGroups (isH2eStatus frame.status)).result = .ok (sae, status)) :
    (commitReceived cl env frame s).result =
      (commitParsed cl env status { s with sae := sae, password := .released }).result := by
  unfold commitReceived
  rw [if_neg (by simp [Option.isSome_iff_ne_none.1 h.bss]), if_neg (not_not.2 h.committed), if_neg (by simp [h.fits]),
    Run.bind_of_ok (parseCommit_result hpw hparse)]

/-- **The client's own commit** leaves it waiting without the password. -/
theorem reflection_lost {password : Bytes} (h : ReachesParser s frame) (hpw : s.password = .live password)
    (hreflects : Reflects cl.host env.surroundings password cl.network.allowedGroups (isH2eStatus frame.status) s.sae
      frame.ies) : ∃ s', (step cl s (.auth frame env)).result = .ok s' ∧ Lost s' := by
  obtain ⟨sae, hparse⟩ := (saeApParseCommit_discard_iff h.committed).2 hreflects
  refine ⟨{ s with sae := sae, password := .released }, ?_, h.authenticating, saeApParseCommit_state h.committed hparse, rfl⟩
  change (smeEventAuth cl env frame s).result = _
  rw [h.smeEventAuth_eq, Run.bind_of_ok (h.commitReceived_result hpw hparse)]
  rfl

theorem smeSendAuthentication_unsettled {bss : Option MacAddr} (henv : env.settles = false)
    (h : (smeSendAuthentication cl env bss .confirm s).result = .ok s') (hs : s.wpaState = .authenticating) :
    s'.wpaState = .authenticating ∧ s'.sae = s.sae ∧ s'.password = s.password := by
  unfold Env.settles at henv
  unfold smeSendAuthentication at h
  split at h
  · cases h
    exact ⟨hs, rfl, rfl⟩
  · cases hp : env.preamble with
    | abandoned =>
      simp only [hp] at h
      cases h
      exact ⟨hs, rfl, rfl⟩
    | skipsAuth =>
      have hafter : env.after = .authenticating := by simpa [hp] using henv
      simp only [hp] at h
      cases h
      exact ⟨hafter, rfl, rfl⟩
    | otherAlg =>
      obtain ⟨hc, hd⟩ : env.channelConflict = false ∧ env.driverOk = true := by simpa [hp] using henv
      simp only [hp, authenticate, hc, hd, Bool.false_eq_true, if_false, if_true] at h
      obtain ⟨_, -, h⟩ := Run.bind_result_ok.1 h
      cases h
      exact ⟨rfl, rfl, rfl⟩
    | sae => simp [hp] at henv

theorem saeDeriveKeys_state {host : Host} {sae sae' : SaeData} {tmp : SaeTmp} {k : Bytes}
    (h : saeDeriveKeys host sae tmp k = some sae') : sae'.state = sae.state := by
  simp only [saeDeriveKeys, Option.bind_eq_bind, Option.bind_eq_some_iff] at h
  obtain ⟨own, -, peer, -, key, -, h⟩ := h
  cases h
  rfl

theorem saeProcessCommit_state {host : Host} {sae sae' : SaeData} (h : saeProcessCommit host sae = some sae') :
    sae'.state = sae.state := by
  simp only [saeProcessCommit, Option.bind_eq_bind, Option.bind_eq_some_iff] at h
  obtain ⟨tmp, -, h⟩ := h
  split at h
  all_goals
    obtain ⟨k, -, h⟩ := Option.bind_eq_some_iff.1 h
    exact saeDeriveKeys_state h

/-- A confirm that is due and not sent leaves the client waiting without the password. -/
theorem unsettled_lost {password : Bytes} (h : ReachesParser s frame) (hpw : s.password = .live password)
    (hdue : confirmDue cl env frame password s.sae = true) (henv : env.settles = false)
    (hstep : (step cl s (.auth frame env)).result = .ok s') : Lost s' := by
  unfold confirmDue at hdue
  split at hdue
  · next sae status hvalue =>
    have hparse := Run.result_of_valueOf hvalue
    simp only [Bool.and_eq_true, decide_eq_true_eq, Bool.not_eq_true'] at hdue
    obtain ⟨⟨rfl, hg⟩, hp⟩ := hdue
    obtain ⟨sae', hp⟩ := Option.isSome_iff_exists.1 hp
    change (smeEventAuth cl env frame s).result = _ at hstep
    rw [h.smeEventAuth_eq] at hstep
    obtain ⟨⟨t, res⟩, ht, hstep⟩ := Run.bind_result_ok.1 hstep
    rw [h.commitReceived_result hpw hparse] at ht
    unfold commitParsed at ht
    rw [if_neg (by decide), if_neg (by simp), if_neg (by simp [hg]), hp] at ht
    obtain ⟨t', ht', ht⟩ := Run.bind_result_ok.1 ht
    obtain ⟨token, rfl⟩ := freeToken_sat.value t' ht'
    obtain ⟨t'', hsend, ht⟩ := Run.bind_result_ok.1 ht
    cases ht
    obtain ⟨hw, hsae, hpw'⟩ := smeSendAuthentication_unsettled henv hsend h.authenticating
    have hstate := (saeProcessCommit_state hp).trans (saeApParseCommit_state h.committed hparse)
    cases hstep
    exact ⟨hw, (congrArg SaeData.state hsae).trans hstate, hpw'⟩
  · cases hdue

/-- **A step keeps the password for as long as a commit can come** exactly if it is harmless. -/
theorem kept_iff {i : Input} (hs : Kept s) (h : (step cl s i).result = .ok s') : Kept s' ↔ KeepsPassword cl s i := by
  constructor
  · intro hk
    cases i with
    | connect bssid env => trivial
    | auth frame env =>
      intro hreach password hpw
      refine ⟨fun hreflects => ?_, fun hdue => ?_⟩
      · obtain ⟨s'', hs'', hlost⟩ := reflection_lost hreach hpw hreflects
        cases h.symm.trans hs''
        exact hlost.not_kept hk
      · by_contra henv
        exact (unsettled_lost hreach hpw hdue (by simpa using henv) h).not_kept hk
  · intro hi
    exact (step_sat s i hs hi).value s' h

end Lost

/-! ## Runs -/

/-- **Every commit is parsed with a live password**, in every run from the start of an attempt in which no frame carries the
client's own commit and every confirm that is due is sent. -/
theorem parses_with_live_password (cl : Client) (s : State) (bssid : MacAddr) (env : Env) (inputs : List Input)
    (h : Run.AllSteps (step cl) (KeepsPassword cl) s (.connect bssid env :: inputs)) :
    ∀ password, Event.parseCommit password ∈ (runClient cl s (.connect bssid env :: inputs)).log →
      password.isLive = true := by
  intro password hmem
  have hrun : (runClient cl s (.connect bssid env :: inputs)).Sat Event.Parses Kept fun _ => True :=
    (connect_sat s bssid env).bind fun s' hs' hkept => Run.Sat.steps step_sat hkept (h.2 s' hs')
  exact hrun.event _ hmem

/-- A client of the small host, with one of its passwords. -/
def smallClient : Client where
  host := Small.host
  ownAddr := Small.addr 2
  network := { password := some (ascii "PASSWORD_0"), saeGroups := some [19, 0] }

/-- Nothing around the client fails. -/
def smallEnv : Env where
  preamble := .sae
  draws := Small.draws 3
  surroundings := ⟨[], true, true⟩
  sameBss := true
  h2eCapable := false
  sixGhz := false
  channelConflict := false
  driverOk := true
  networkDisabled := false
  pmkSet := true
  after := .associating
  restarts := false

def smallCommit (body : Bytes) : Input := .auth ⟨Small.addr 1, wlanAuthSae, 1, .success, body⟩ smallEnv

/-- The attempt to connect and two commits from the access point. -/
def smallRun (first second : Bytes) : List Input :=
  [.connect (Small.addr 1) smallEnv, smallCommit first, smallCommit second]

theorem parses_with_live_password_small : ∃ password, Event.parseCommit password ∈
    (runClient smallClient {} (smallRun [19, 0, 8, 1, 0, 0, 0, 6, 7] [19, 0, 10, 1, 0, 0, 0, 6, 6])).log ∧
      password.isLive = true := by
  have hsteps : Run.AllSteps (step smallClient) (KeepsPassword smallClient) {}
      (smallRun [19, 0, 8, 1, 0, 0, 0, 6, 7] [19, 0, 10, 1, 0, 0, 0, 6, 6]) := by
    have h : Run.checkSteps (step smallClient) (fun s i => decide (KeepsPassword smallClient s i)) {}
        (smallRun [19, 0, 8, 1, 0, 0, 0, 6, 7] [19, 0, 10, 1, 0, 0, 0, 6, 6]) = true := by decide +kernel
    simpa only [decide_eq_true_eq] using Run.allSteps_of_checkSteps h
  have hmem : Event.parseCommit (.live (ascii "PASSWORD_0")) ∈
      (runClient smallClient {} (smallRun [19, 0, 8, 1, 0, 0, 0, 6, 7] [19, 0, 10, 1, 0, 0, 0, 6, 6])).log := by decide +kernel
  exact ⟨_, hmem, parses_with_live_password smallClient {} (Small.addr 1) smallEnv _ hsteps _ hmem⟩

/-- **The client's own scalar and an encoding of its own element**, sent to it twice, make it read the freed password. -/
theorem reflection_releases : Event.parseCommit .released ∈
    (runClient smallClient {} (smallRun [19, 0, 10, 1, 0, 0, 0, 6, 6] [19, 0, 10, 1, 0, 0, 0, 6, 6])).log := by
  decide +kernel

end DecoyAuth.Sme
