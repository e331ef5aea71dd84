import DecoyAuth.Sae.Frames
import DecoyAuth.Sae.Reflection
import DecoyAuth.Sme.Machine

/-!
# The client's copy of the password

`sme_auth_build_sae_commit` keeps a copy of the password for `sae_ap_parse_commit`, and `sme_sae_auth` frees it after the
call, whatever the parser returned. The invariant `Kept` says that the copy is there as long as a commit can come: while the
client receives frames and waits for a commit. A step keeps it unless a commit leaves the client waiting (`KeepsPassword`),
and **a step that does parses only with a live password** (`step_sat`).
-/

namespace DecoyAuth.Sme

/-! ## The condition -/

def Pointer.isLive : Pointer → Bool
  | .live _ => true
  | _ => false

instance (p : Pointer) (Q : Bytes → Prop) [DecidablePred Q] : Decidable (∀ data, p = .live data → Q data) :=
  match p with
  | .live data => decidable_of_iff (Q data) (by simp)
  | .null => isTrue nofun
  | .released => isTrue nofun

/-- `sme_event_auth` gets to the call of `sae_ap_parse_commit`. -/
@[mk_iff] structure ReachesParser (s : State) (frame : AuthFrame) : Prop where
  authenticating : s.wpaState = .authenticating
  peer : s.pendingBssid = some frame.peer
  authType : frame.authType = wlanAuthSae
  transaction : frame.transaction = 1
  status : frame.status = .success ∨ isH2eStatus frame.status = true
  bss : s.currentBss.isSome = true
  committed : s.sae.state = .committed
  fits : statusFits s.sae frame.status = true

instance (s : State) (frame : AuthFrame) : Decidable (ReachesParser s frame) := decidable_of_iff' _ (reachesParser_iff ..)

/-- `sme_send_authentication`, called for the confirm, sends it or ends the attempt. -/
def Env.settles (env : Env) : Bool :=
  match env.preamble with
  | .abandoned => false
  | .skipsAuth => env.after ≠ .authenticating
  | .otherAlg => env.channelConflict || !env.driverOk
  | .sae => true

section Condition

variable (cl : Client) (env : Env) (frame : AuthFrame)

/-- The client accepts the commit and owes a confirm. -/
def confirmDue (password : Bytes) (sae : SaeData) : Bool :=
  match (saeApParseCommit cl.host env.surroundings password sae frame.ies cl.network.allowedGroups
    (isH2eStatus frame.status)).valueOf with
  | some (sae, status) =>
    status = .success && !rejectedGroupEnabled cl.network.enabledGroups sae && (saeProcessCommit cl.host sae).isSome
  | none => false

/-- The frame is not the client's own commit, and a confirm that it makes due can be sent. -/
def Harmless (password : Bytes) (sae : SaeData) : Prop :=
  ¬Reflects cl.host env.surroundings password cl.network.allowedGroups (isH2eStatus frame.status) sae frame.ies ∧
    (confirmDue cl env frame password sae = true → env.settles = true)

/-- A step that keeps the password as long as a commit can come. -/
def KeepsPassword (s : State) : Input → Prop
  | .connect _ _ => True
  | .auth frame env => ReachesParser s frame → ∀ password, s.password = .live password → Harmless cl env frame password s.sae

instance (password : Bytes) (sae : SaeData) : Decidable (Harmless cl env frame password sae) :=
  inferInstanceAs (Decidable (_ ∧ _))

instance (s : State) : (i : Input) → Decidable (KeepsPassword cl s i)
  | .connect _ _ => isTrue trivial
  | .auth frame _ => inferInstanceAs (Decidable (ReachesParser s frame → ∀ password, s.password = .live password → _))

end Condition

/-! ## The invariant -/

/-- A client that waits for a commit has the password. -/
def Live (s : State) : Prop := s.sae.state = .committed → s.password.isLive = true

/-- A client that receives frames and waits for a commit has the password. -/
def Kept (s : State) : Prop := s.wpaState = .authenticating → Live s

def Event.Parses : Event → Prop
  | .parseCommit password => password.isLive = true
  | .authenticate _ => True

theorem Live.kept {s : State} (h : Live s) : Kept s := fun _ => h

theorem live_of_state {s : State} (h : s.sae.state ≠ .committed) : Live s := fun h' => absurd h' h

theorem kept_of_wpaState {s : State} (h : s.wpaState ≠ .authenticating) : Kept s := fun h' => absurd h' h

variable {cl : Client} {env : Env} {s s' : State} {frame : AuthFrame} {bssid : MacAddr}

section Sending

/-! ## Sending -/

theorem setSaeGroupFrom_frame : ∀ (fuel : ℕ) (s : State), (setSaeGroupFrom cl fuel s).1.password = s.password ∧
    ((setSaeGroupFrom cl fuel s).1.sae.state = .committed → s.sae.state = .committed)
  | 0, s => ⟨rfl, id⟩
  | fuel + 1, s => by
    unfold setSaeGroupFrom
    dsimp only
    split
    · exact ⟨rfl, id⟩
    · generalize cl.network.groups.getD s.saeGroupIndex 0 = group
      generalize (s.saeRejectedGroups.getD []).contains group.toNat = rejected
      have hset : (if rejected then (s.sae, false) else saeSetGroup cl.host s.sae group.toNat).1.state = .committed →
          s.sae.state = .committed := by
        split
        · exact id
        · have hcases : (saeSetGroup cl.host s.sae group.toNat).1 = s.sae ∨ Fresh cl.host _ := saeSetGroup_cases _
          rcases hcases with h | h
          · rw [h]; exact id
          · rw [h.state]; exact nofun
      generalize (if rejected then (s.sae, false) else saeSetGroup cl.host s.sae group.toNat) = r at hset ⊢
      obtain ⟨sae, ok⟩ := r
      dsimp only
      split
      · exact ⟨rfl, hset⟩
      · have ih := setSaeGroupFrom_frame fuel { s with sae := sae, saeGroupIndex := s.saeGroupIndex + 1 }
        exact ⟨ih.1, fun h => hset (ih.2 h)⟩

theorem smeSetSaeGroup_frame (cl : Client) (s : State) : (smeSetSaeGroup cl s).1.password = s.password ∧
    ((smeSetSaeGroup cl s).1.sae.state = .committed → s.sae.state = .committed) := by
  unfold smeSetSaeGroup
  split
  · exact ⟨rfl, id⟩
  · exact setSaeGroupFrom_frame _ s

theorem prepare_password (password : Bytes) : (prepare cl env bssid password s).1.password = s.password := by
  have h := (smeSetSaeGroup_frame cl s).1
  unfold prepare
  generalize smeSetSaeGroup cl s = r at h ⊢
  obtain ⟨s', ok⟩ := r
  dsimp only
  split
  · exact h
  · split <;> exact h

theorem readToken_sat : (readToken s).Sat Event.Parses (fun _ => True) fun _ => True := by
  unfold readToken
  split
  · exact Run.Sat.pure trivial
  · exact Run.Sat.pure trivial
  · exact Run.Sat.of_fault trivial

/-- The password is there whenever a commit was built. -/
theorem smeAuthBuildSaeCommit_sat (reuse : Bool) (hs : Live s) : (smeAuthBuildSaeCommit cl env bssid reuse s).Sat Event.Parses
    (fun r => Live r.1 ∧ (r.2.isSome → r.1.password.isLive = true)) fun _ => True := by
  unfold smeAuthBuildSaeCommit
  split
  · exact Run.Sat.pure ⟨hs, nofun⟩
  · next password _ =>
    have hpw : (if reuse && s.sae.tmp.isSome && env.sameBss then ({ s with password := .live password }, true)
        else prepare cl env bssid password { s with password := .live password }).1.password.isLive = true := by
      split
      · rfl
      · rw [prepare_password]; rfl
    dsimp only
    generalize (if reuse && s.sae.tmp.isSome && env.sameBss then ({ s with password := .live password }, true)
        else prepare cl env bssid password { s with password := .live password }) = r at hpw ⊢
    obtain ⟨s', ok⟩ := r
    dsimp only
    split
    · exact Run.Sat.pure ⟨fun _ => hpw, fun _ => hpw⟩
    · refine readToken_sat.bind fun token _ _ => ?_
      split
      · exact Run.Sat.pure ⟨fun _ => hpw, fun _ => hpw⟩
      · exact Run.Sat.pure ⟨fun _ => hpw, fun _ => hpw⟩

theorem smeAuthBuildSaeConfirm_sat : (smeAuthBuildSaeConfirm cl s).Sat Event.Parses (fun r => r.2.isSome = true) fun _ => True :=
  (Run.Sat.lift (fun _ _ => trivial) fun _ _ => trivial).bind fun _ _ (_ : True) => Run.Sat.pure rfl

theorem authenticate_sat {data : Option Bytes} (hs : Live s) :
    (authenticate env bssid data s).Sat Event.Parses Live fun _ => True := by
  unfold authenticate
  dsimp only
  split
  · exact Run.Sat.pure hs
  · refine (Run.Sat.emit (Q := fun _ => True) trivial trivial).bind fun _ _ _ => Run.Sat.pure ?_
    split <;> exact hs

theorem authenticate_ended {data : Option Bytes} (h : (env.channelConflict || !env.driverOk) = true) :
    (authenticate env bssid data s).Sat Event.Parses Kept fun _ => True := by
  unfold authenticate
  dsimp only
  split
  · exact Run.Sat.pure (kept_of_wpaState nofun)
  · next hc =>
    have hd : env.driverOk = false := by simpa [hc] using h
    refine (Run.Sat.emit (Q := fun _ => True) trivial trivial).bind fun _ _ _ => Run.Sat.pure ?_
    exact kept_of_wpaState (by simp [hd])

theorem sendSae_commit {start : Start} (hstart : start ≠ .confirm) (hs : Live s) :
    (sendSae cl env bssid start s).Sat Event.Parses Live fun _ => True := by
  unfold sendSae
  rw [if_neg hstart]
  refine (smeAuthBuildSaeCommit_sat _ hs).bind fun r _ hr => ?_
  obtain ⟨s', resp⟩ := r
  cases resp with
  | none => exact Run.Sat.pure hr.1
  | some data => exact authenticate_sat fun _ => hr.2 rfl

theorem sendSae_confirm : (sendSae cl env bssid .confirm s).Sat Event.Parses Live fun _ => True := by
  unfold sendSae
  rw [if_pos rfl]
  refine smeAuthBuildSaeConfirm_sat.bind fun r _ hr => ?_
  obtain ⟨s', resp⟩ := r
  cases resp with
  | none => cases hr
  | some data => exact authenticate_sat (live_of_state (by simp))

/-- A commit is sent with the password in place. -/
theorem smeSendAuthentication_commit {bss : Option MacAddr} {start : Start} (hstart : start ≠ .confirm) (hs : Live s) :
    (smeSendAuthentication cl env bss start s).Sat Event.Parses Live fun _ => True := by
  unfold smeSendAuthentication
  split
  · exact Run.Sat.pure hs
  · dsimp only
    split
    · exact Run.Sat.pure hs
    · exact Run.Sat.pure hs
    · exact authenticate_sat hs
    · exact sendSae_commit hstart hs

/-- A confirm that is sent, or not needed any more. -/
theorem smeSendAuthentication_confirm {bss : Option MacAddr} (hbss : bss.isSome = true) (henv : env.settles = true) :
    (smeSendAuthentication cl env bss .confirm s).Sat Event.Parses Kept fun _ => True := by
  obtain ⟨bssid, rfl⟩ := Option.isSome_iff_exists.1 hbss
  unfold Env.settles at henv
  unfold smeSendAuthentication
  cases hp : env.preamble with
  | abandoned => simp [hp] at henv
  | skipsAuth => exact Run.Sat.pure (kept_of_wpaState (by simpa [hp] using henv))
  | otherAlg => exact authenticate_ended (by simpa [hp] using henv)
  | sae => exact sendSae_confirm.mono fun _ => Live.kept

end Sending

/-! ## Received frames -/

section Receiving

/-- What `sme_sae_auth` leaves for `sme_event_auth`, which gives up the attempt if the result is negative and goes on to the
association if it is 1. -/
def Answered (r : State × ℤ) : Prop := (0 ≤ r.2 → Kept r.1) ∧ (r.2 = 1 → Live r.1)

theorem answered_failure {res : ℤ} (h : res < 0) : Answered (s, res) :=
  ⟨fun h' => absurd h' (not_le.2 h), fun h' => by subst h'; omega⟩

theorem answered_zero (h : Kept s) : Answered (s, 0) := ⟨fun _ => h, nofun⟩

theorem freeToken_sat : (freeToken s).Sat Event.Parses (fun s' => ∃ t, s' = { s with saeToken := t }) fun _ => True := by
  unfold freeToken
  split
  · exact Run.Sat.pure ⟨s.saeToken, rfl⟩
  · exact Run.Sat.pure ⟨_, rfl⟩
  · exact Run.Sat.of_fault trivial

theorem tokenRequested_sat (data : Bytes) (hs : Live s) :
    (tokenRequested cl env data s).Sat Event.Parses Answered fun _ => True := by
  unfold tokenRequested
  split
  · exact Run.Sat.pure (answered_failure (by omega))
  · have hlive : Live { s with sae := (saeGroupAllowed cl.host s.sae (some cl.network.groups) (Bytes.getLe16 data)).1 } := by
      have hcases : (saeGroupAllowed cl.host s.sae (some cl.network.groups) (Bytes.getLe16 data)).1 = s.sae ∨
          Fresh cl.host _ := saeGroupAllowed_cases _ _
      rcases hcases with h | h
      · rw [h]; exact hs
      · exact live_of_state (by rw [h.state]; exact nofun)
    generalize saeGroupAllowed cl.host s.sae (some cl.network.groups) (Bytes.getLe16 data) = r at hlive ⊢
    obtain ⟨sae, status⟩ := r
    dsimp only at hlive ⊢
    split
    · exact Run.Sat.pure (answered_failure (by omega))
    · refine freeToken_sat.bind fun s' _ hs' => ?_
      obtain ⟨t, rfl⟩ := hs'
      dsimp only
      split
      · exact Run.Sat.pure (answered_failure (by omega))
      · refine (smeSendAuthentication_commit (by decide) ?_).bind fun s' _ hs' => Run.Sat.pure (answered_zero hs'.kept)
        exact hlive

theorem groupRejected_sat (hs : Live s) : (groupRejected cl env s).Sat Event.Parses Answered fun _ => True := by
  unfold groupRejected
  dsimp only
  generalize (if (s.saeRejectedGroups.getD []).contains s.sae.group then s.saeRejectedGroups.getD []
    else s.saeRejectedGroups.getD [] ++ [s.sae.group]) = rejected
  have hframe := smeSetSaeGroup_frame cl
    { s with saeRejectedGroups := some rejected, saeGroupIndex := s.saeGroupIndex + 1 }
  generalize smeSetSaeGroup cl { s with saeRejectedGroups := some rejected, saeGroupIndex := s.saeGroupIndex + 1 } = r
    at hframe ⊢
  obtain ⟨s', ok⟩ := r
  dsimp only at hframe ⊢
  split
  · exact Run.Sat.pure (answered_failure (by omega))
  · have hlive : Live s' := fun h => hframe.1 ▸ hs (hframe.2 h)
    exact (smeSendAuthentication_commit (by decide) hlive).bind fun s' _ hs' => Run.Sat.pure (answered_zero hs'.kept)

theorem parseCommit_sat {password : Bytes} (hpw : s.password = .live password) : (parseCommit cl env frame s).Sat Event.Parses
    (fun r => ∃ sae, (saeApParseCommit cl.host env.surroundings password s.sae frame.ies cl.network.allowedGroups
        (isH2eStatus frame.status)).result = .ok (sae, r.2) ∧ r.1 = { s with sae := sae, password := .released })
    fun _ => True := by
  have hemit : (Run.emit (.parseCommit s.password) : SmeRun Unit).Sat Event.Parses (fun _ => True) fun _ => True :=
    Run.Sat.emit (by rw [hpw]; rfl) trivial
  unfold parseCommit
  refine hemit.bind fun _ _ _ => ?_
  rw [hpw]
  refine (Run.Sat.lift_mapError fun _ => trivial).bind fun r _ hr => Run.Sat.pure ?_
  exact ⟨r.1, hr, rfl⟩

/-- After the parser: the client is done with the commit, or settles the confirm that is due. -/
theorem commitParsed_sat {status : Status} (hstatus : status ≠ .saeSilentlyDiscard) (hbss : s.currentBss.isSome = true)
    (hdue : status = .success → rejectedGroupEnabled cl.network.enabledGroups s.sae = false →
      (saeProcessCommit cl.host s.sae).isSome = true → env.settles = true) :
    (commitParsed cl env status s).Sat Event.Parses Answered fun _ => True := by
  unfold commitParsed
  rw [if_neg hstatus]
  split
  · exact Run.Sat.pure (answered_failure (by omega))
  · next hs =>
    split
    · exact Run.Sat.pure (answered_failure (by omega))
    · next hg =>
      split
      · exact Run.Sat.pure (answered_failure (by omega))
      · next sae hp =>
        refine freeToken_sat.bind fun s' _ hs' => ?_
        obtain ⟨t, rfl⟩ := hs'
        have hsettles := hdue (not_not.1 hs) (Bool.not_eq_true _ ▸ hg) (by rw [hp]; rfl)
        exact (smeSendAuthentication_confirm hbss hsettles).bind fun s' _ hs' => Run.Sat.pure (answered_zero hs')

theorem commitReceived_sat (hs : Live s) (hharmless : s.currentBss.isSome = true → s.sae.state = .committed →
      statusFits s.sae frame.status = true → ∀ password, s.password = .live password →
        Harmless cl env frame password s.sae) :
    (commitReceived cl env frame s).Sat Event.Parses Answered fun _ => True := by
  unfold commitReceived
  split
  · exact Run.Sat.pure (answered_failure (by omega))
  · next hbss =>
    split
    · exact Run.Sat.pure (answered_zero hs.kept)
    · next hstate =>
      split
      · exact Run.Sat.pure (answered_failure (by omega))
      · next hfits =>
        have hbss : s.currentBss.isSome = true := Option.isSome_iff_ne_none.2 (by simpa using hbss)
        have hstate : s.sae.state = .committed := not_not.1 hstate
        obtain ⟨password, hpw⟩ : ∃ password, s.password = .live password := by
          have := hs hstate
          cases hp : s.password <;> simp [hp, Pointer.isLive] at this ⊢
        obtain ⟨hreflects, hdue⟩ := hharmless hbss hstate (by simpa using hfits) password hpw
        refine (parseCommit_sat hpw).bind fun r _ hr => ?_
        obtain ⟨s', status⟩ := r
        obtain ⟨sae, hparse, hs'⟩ := hr
        obtain rfl : s' = { s with sae := sae, password := .released } := hs'
        refine commitParsed_sat ?_ hbss fun hsuccess hg hp => hdue ?_
        · rintro rfl
          exact hreflects ((saeApParseCommit_discard_iff hstate).1 ⟨sae, hparse⟩)
        · unfold confirmDue
          rw [Run.valueOf_of_result hparse]
          simp [hsuccess, hg, hp]

theorem confirmReceived_answered : Answered (confirmReceived cl frame s) := by
  unfold confirmReceived
  split
  · exact answered_failure (by omega)
  · have hlive : Live { s with
        sae := SaeData.clearTempData { s.sae with state := .accepted }
        saeRejectedGroups := none } := live_of_state (by unfold SaeData.clearTempData; split <;> exact nofun)
    exact ⟨fun _ => hlive.kept, fun _ => hlive⟩

theorem smeSaeAuth_sat (hs : Live s) (hharmless : frame.transaction = 1 →
      (frame.status = .success ∨ isH2eStatus frame.status = true) → s.currentBss.isSome = true → s.sae.state = .committed →
      statusFits s.sae frame.status = true → ∀ password, s.password = .live password →
        Harmless cl env frame password s.sae) :
    (smeSaeAuth cl env frame s).Sat Event.Parses Answered fun _ => True := by
  unfold smeSaeAuth
  dsimp only
  split
  · exact tokenRequested_sat _ hs
  · split
    · exact groupRejected_sat hs
    · split
      · exact Run.Sat.pure (answered_failure (by omega))
      · split
        · exact Run.Sat.pure (answered_failure (by omega))
        · next hstatus =>
          split
          · next htrans =>
            refine commitReceived_sat hs (hharmless htrans ?_)
            by_contra h
            simp_all
          · split
            · exact Run.Sat.pure confirmReceived_answered
            · exact Run.Sat.pure (answered_failure (by omega))

theorem smeAuthenticate_live (s : State) : Live (smeAuthenticate s) := live_of_state (show SaeState.nothing ≠ .committed by decide)

theorem afterSae_live (hs : Live s) : Live (afterSae env s) := by
  unfold afterSae
  dsimp only
  split
  · exact smeAuthenticate_live _
  · exact hs

theorem saeAnswered_kept {r : State × ℤ} (hr : Answered r) : Kept (saeAnswered env r.2 r.1) := by
  unfold saeAnswered
  split
  · exact kept_of_wpaState nofun
  · next hres =>
    split
    · exact hr.1 (not_lt.1 hres)
    · next hone => exact (afterSae_live (hr.2 (by tauto))).kept

theorem smeEventAuth_sat (hs : Kept s) (hkeeps : KeepsPassword cl s (.auth frame env)) :
    (smeEventAuth cl env frame s).Sat Event.Parses Kept fun _ => True := by
  unfold smeEventAuth
  split
  · exact Run.Sat.pure hs
  · next h =>
    obtain ⟨hauth, hpeer⟩ : s.wpaState = .authenticating ∧ s.pendingBssid = some frame.peer := by simpa using h
    split
    · exact Run.Sat.pure (afterSae_live (hs hauth)).kept
    · next htype =>
      refine (smeSaeAuth_sat (hs hauth) fun htrans hstatus hbss hstate hfits => ?_).bind fun r _ hr => ?_
      · exact hkeeps ⟨hauth, hpeer, not_not.1 htype, htrans, hstatus, hbss, hstate, hfits⟩
      · exact Run.Sat.pure (saeAnswered_kept hr)

end Receiving

/-! ## Steps -/

theorem connect_sat (s : State) (bssid : MacAddr) (env : Env) :
    (step cl s (.connect bssid env)).Sat Event.Parses Kept fun _ => True := by
  unfold step
  exact (smeSendAuthentication_commit (by decide) (smeAuthenticate_live s)).mono fun _ => Live.kept

/-- **One step** that is harmless keeps the invariant and parses with a live password. -/
theorem step_sat (s : State) (i : Input) (hs : Kept s) (hi : KeepsPassword cl s i) :
    (step cl s i).Sat Event.Parses Kept fun _ => True := by
  cases i with
  | auth frame env => exact smeEventAuth_sat hs hi
  | connect bssid env => exact connect_sat s bssid env

end DecoyAuth.Sme
