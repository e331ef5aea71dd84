import DecoyAuth.Ap.Invariant
import DecoyAuth.Ap.Small

/-!
# Confirms that must be rejected

Two situations in which no confirm should be accepted. Before a commit has been processed, a confirm is rejected cleanly
exactly if it does not reach `sae_ap_check_confirm` (`confirm_rejectedCleanly_iff`): that function reads `sae->tmp` and
the tables before it tests them. After `sae_ap_process_commit` has failed, no confirm makes the station accepted as long
as the failing call stores no key, that is if the tables were unset and the first shared point is at infinity
(`failsBeforeKeys`, `runStation_noAcceptAfterFailure`).
-/

namespace DecoyAuth

variable {ap : Ap} {inp : Input} {sae sae' s : SaeData} {tmp : SaeTmp}

/-- The station was not accepted before and is now. -/
def BecomesAccepted (sta sta' : Option SaeData) : Prop :=
  (∃ sae', sta' = some sae' ∧ sae'.state = .accepted) ∧ ∀ sae, sta = some sae → sae.state ≠ .accepted

theorem not_becomesAccepted (sta : Option SaeData) : ¬BecomesAccepted sta sta :=
  fun ⟨⟨sae, hsae, hs⟩, h⟩ => h sae hsae hs

/-! ## Before a commit has been processed -/

/-- A confirm is rejected cleanly: the step returns, no key verified the confirm, and the station is not accepted. -/
structure RejectedCleanly (sta : Option SaeData) (m : ApRun (Option SaeData)) : Prop where
  returns : ∃ sta', m.result = .ok sta' ∧ ¬BecomesAccepted sta sta'
  rejected : Event.checkConfirm true ∉ m.log

theorem handleConfirm_of_not_reaches (h : confirmReachesCheck inp sae = false) :
    (handleConfirm ap inp sae).result = .ok sae := by
  unfold handleConfirm
  rw [if_neg (by simp [h])]
  split
  · refine Run.bind_result_ok.2 ⟨(), ?_, rfl⟩
    unfold sendReply
    split <;> rfl
  · rfl

theorem handleAuthSae_none (h : inp.transaction = 2) : (handleAuthSae ap none inp).result = .ok none := by
  unfold handleAuthSae openInstance
  rw [if_neg (by simp [h])]
  refine Run.bind_result_ok.2 ⟨(), ?_, rfl⟩
  unfold sendReply
  split <;> rfl

theorem handleAuthSae_confirm_result (h : inp.transaction = 2) (hc : (handleConfirm ap inp sae).result = .ok sae') :
    (handleAuthSae ap (some sae) inp).result = .ok (some sae') := by
  unfold handleAuthSae openInstance
  dsimp only
  rw [if_neg (by simp [h]), if_pos h]
  exact Run.bind_result_ok.2 ⟨sae', hc, rfl⟩

/-- The first key that `sae_ap_check_confirm` reads. -/
theorem searchEntries_reads {host : Host} {data : Bytes} {n : ℕ} {r : SaeData × SaeTmp × Option ℕ} (hn : 0 < n)
    (h : searchEntries host data n 0 sae tmp = .ok r) : ∃ key, tmp.keys.read .keys 0 = .ok key := by
  cases n with
  | zero => exact absurd hn (lt_irrefl 0)
  | succ n =>
    obtain ⟨s, t, offset⟩ := r
    obtain ⟨key, hkey, -⟩ := searchEntries_succ h
    exact ⟨key, hkey⟩

theorem Inv.numPasswords_pos {host : Host} (hinv : Inv host sae) (ht : sae.tmp = some tmp) :
    tmp.numPasswords.toNat = host.passwords.length ∧ 0 < tmp.numPasswords.toNat := by
  have := hinv.sized tmp ht
  have := host.two_le_passwords
  omega

/-- Before a commit has been processed no search ends without finding a key. -/
theorem searchEntries_ne_none {host : Host} {data : Bytes} {t : SaeTmp} (hinv : Inv host sae)
    (hproc : sae.processed = false) (ht : sae.tmp = some tmp) :
    searchEntries host data tmp.numPasswords.toNat 0 sae tmp ≠ .ok (s, t, none) := by
  intro h
  obtain ⟨hn, hpos⟩ := hinv.numPasswords_pos ht
  obtain ⟨key, hkey⟩ := searchEntries_reads hpos h
  have hlive : tmp.keys ≠ .unset := by
    intro hunset
    rw [hunset] at hkey
    cases hkey
  obtain ⟨⟨key, hkey⟩, -⟩ := (searchEntries_none h).2 (hinv.keysEcc tmp ht hlive) (host.passwords.length - 1) (Nat.zero_le _)
    (by omega)
  have := Table.read_ok hkey
  rw [hinv.incomplete hproc tmp ht] at this
  cases this

/-- **A confirm before a processed commit** is rejected cleanly if and only if it does not reach `sae_ap_check_confirm`. -/
theorem confirm_rejectedCleanly_iff {inputs : List Input} {sta : Option SaeData}
    (hrun : (runStation ap inputs).result = .ok sta) (hproc : ∀ sae, sta = some sae → sae.processed = false)
    (hconfirm : inp.transaction = 2) :
    RejectedCleanly sta (handleAuthSae ap sta inp) ↔ ∀ sae, sta = some sae → confirmReachesCheck inp sae = false := by
  constructor
  · rintro ⟨⟨sta', hok, -⟩, hrejected⟩ sae rfl
    by_contra hreach
    have hinv := runStation_inv hrun sae rfl
    rcases handleAuthSae_cases hok with ⟨_, _, -, -, h, -⟩ | ⟨_, sae', ⟨⟩, -, -, h, hlog⟩ | ⟨-, h, -⟩
    · rw [hconfirm] at h
      cases h
    · rw [hlog] at hrejected
      rcases handleConfirm_cases h with ⟨h, -⟩ | ⟨tmp, s, t, ht, hloop, -⟩ | ⟨_, _, _, _, _, -, -, -, -, h, -⟩
      · exact hreach h
      · exact searchEntries_ne_none hinv (hproc sae rfl) ht hloop
      · exact hrejected h
    · cases h hconfirm
  · intro hreach
    have hok : (handleAuthSae ap sta inp).result = .ok sta := by
      cases sta with
      | none => exact handleAuthSae_none hconfirm
      | some sae => exact handleAuthSae_confirm_result hconfirm (handleConfirm_of_not_reaches (hreach sae rfl))
    refine ⟨⟨sta, hok, not_becomesAccepted sta⟩, fun hmem => ?_⟩
    rcases mem_handleAuthSae_log hmem with ⟨_, _, _, h⟩ | ⟨_, -, h, -⟩ | ⟨sae, rfl, -, h⟩
    · cases h
    · rw [hconfirm] at h
      cases h
    · rcases handleConfirm_cases (handleConfirm_of_not_reaches (hreach sae rfl)) with ⟨-, -, hlog⟩ |
        ⟨_, _, _, -, -, -, hr, -⟩ | ⟨_, _, _, _, _, -, -, -, hr, -⟩
      · obtain ⟨_, _, _, h⟩ := hlog _ h
        cases h
      · rw [hreach sae rfl] at hr
        cases hr
      · rw [hreach sae rfl] at hr
        cases hr

/-- A confirm without a counter after an empty commit: both are answered with a failure. -/
theorem confirm_rejectedCleanly_small :
    RejectedCleanly (some { noPwId := true }) (handleAuthSae Small.ap (some { noPwId := true }) (Small.input 2 [] 0)) :=
  (@confirm_rejectedCleanly_iff Small.ap (Small.input 2 [] 0) [Small.input 1 [] 0] _ rfl (by rintro _ ⟨⟩; rfl) rfl).2
    (by rintro _ ⟨⟩; rfl)

/-- After an empty commit, which leaves `sae->tmp` unset, a confirm with a counter makes `sae_ap_check_confirm` read it. -/
theorem confirm_after_empty_commit_not_rejectedCleanly :
    (runStation Small.ap [Small.input 1 [] 0]).result = .ok (some { noPwId := true }) ∧
      ¬RejectedCleanly (some { noPwId := true }) (handleAuthSae Small.ap (some { noPwId := true }) (Small.confirm 1 0)) := by
  refine ⟨rfl, ?_⟩
  rintro ⟨⟨_, hok, -⟩, -⟩
  cases hok

/-! ## After a failed computation -/

/-- What the last call of `sae_ap_process_commit` returned. -/
def lastProcess (log : List Event) : Option Bool :=
  log.foldl (fun last e => match e with
    | .processCommit ok => some ok
    | _ => last) none

theorem lastProcess_concat (l : List Event) (e : Event) : lastProcess (l ++ [e]) = match e with
    | .processCommit ok => some ok
    | _ => lastProcess l := by
  unfold lastProcess
  rw [List.foldl_append]
  rfl

theorem lastProcess_append_of_not_mem {l l' : List Event} (h : ∀ ok, Event.processCommit ok ∉ l') :
    lastProcess (l ++ l') = lastProcess l := by
  induction l' using List.reverseRecOn with
  | nil => rw [List.append_nil]
  | append_singleton l' e ih =>
    rw [← List.append_assoc, lastProcess_concat]
    cases e with
    | processCommit ok => exact absurd (by simp) (h ok)
    | _ => exact ih fun ok hok => h ok (List.mem_append_left _ hok)

theorem lastProcess_append_of_mem {l l' : List Event} {ok : Bool} (h : ∀ b, Event.processCommit b ∈ l' ↔ b = ok) :
    lastProcess (l ++ l') = some ok := by
  induction l' using List.reverseRecOn with
  | nil => exact absurd ((h ok).2 rfl) (by simp)
  | append_singleton l' e ih =>
    rw [← List.append_assoc, lastProcess_concat]
    cases e with
    | processCommit b => rw [(h b).1 (by simp)]
    | _ => exact ih fun b => by simpa using h b

def Table.isUnset {α : Type} : Table α → Bool
  | .unset => true
  | _ => false

theorem Table.isUnset_iff {α : Type} {t : Table α} : t.isUnset = true ↔ t = .unset := by
  cases t <;> simp [isUnset]

/-- No key has been stored in the instance. -/
def SaeData.keysUnset (sae : SaeData) : Bool :=
  match sae.tmp with
  | none => true
  | some tmp => tmp.keys.isUnset

/-- A commit that reaches the state machine makes no shared point infinite, or the first one while no key is stored. This
is a condition on the frame and the station before the step. -/
def failsBeforeKeys (ap : Ap) (sta : Option SaeData) (inp : Input) : Bool :=
  match openInstance ap sta inp with
  | none => true
  | some sae => inp.transaction ≠ 1 ||
    match commitGate ap inp sae with
    | .step s reuse =>
      finiteSecrets ap inp reuse s || (s.keysUnset && answerSecret ap inp reuse s 0 = some .infinity)
    | _ => true

theorem keysUnset_iff : sae.keysUnset = true ↔ ∀ tmp, sae.tmp = some tmp → tmp.keys = .unset := by
  unfold SaeData.keysUnset
  cases ht : sae.tmp with
  | none => simp
  | some tmp => simp [Table.isUnset_iff]

theorem keysUnset_of_keyView (h : sae'.keyView = sae.keyView) (hk : sae.keysUnset = true) : sae'.keysUnset = true := by
  rw [keysUnset_iff] at hk ⊢
  intro tmp' ht'
  obtain ⟨tmp, ht, hkeys, -⟩ := exists_tmp_of_keyView h ht'
  rw [hkeys]
  exact hk tmp ht

theorem keysUnset_commitGate (hk : sae.keysUnset = true) : (commitGate ap inp sae).sae.keysUnset = true := by
  obtain ⟨base, hbase, hf⟩ : ∃ base, GateBase ap.host sae base ∧ (commitGate ap inp sae).sae.forgetPeer = _ :=
    commitGate_base
  refine keysUnset_of_keyView (relabels_of_forgetPeer hf).keyView ?_
  rcases hbase with rfl | rfl | hbase
  · exact hk
  · exact hk
  · exact keysUnset_iff.2 fun tmp ht => (hbase.tmp tmp ht).keys

/-- Without stored keys, no confirm that reaches `sae_ap_check_confirm` returns. -/
theorem not_reaches_of_keysUnset (hinv : Inv ap.host sae) (hk : sae.keysUnset = true)
    (h : (handleConfirm ap inp sae).result = .ok sae') :
    sae' = sae ∧ ∀ e ∈ (handleConfirm ap inp sae).log, e.IsReply := by
  have hno : ∀ {tmp : SaeTmp} {r}, sae.tmp = some tmp →
      searchEntries ap.host inp.body tmp.numPasswords.toNat 0 sae tmp ≠ .ok r := by
    intro tmp r ht hloop
    obtain ⟨key, hkey⟩ := searchEntries_reads (hinv.numPasswords_pos ht).2 hloop
    rw [keysUnset_iff.1 hk tmp ht] at hkey
    cases hkey
  rcases handleConfirm_cases h with ⟨-, hs, hlog⟩ | ⟨_, _, _, ht, hloop, -⟩ | ⟨_, _, _, _, _, ht, hloop, -⟩
  · exact ⟨hs, hlog⟩
  · exact absurd hloop (hno ht)
  · exact absurd hloop (hno ht)

theorem handleConfirm_not_processCommit (h : (handleConfirm ap inp sae).result = .ok sae') (ok : Bool) :
    Event.processCommit ok ∉ (handleConfirm ap inp sae).log := by
  intro hmem
  rcases handleConfirm_cases h with ⟨-, -, hlog⟩ | ⟨_, _, _, -, -, -, -, hlog⟩ | ⟨_, s, t, _, _, -, -, -, -, -, hlog⟩
  · exact (hlog _ hmem).not_processCommit ok rfl
  · rcases hlog _ hmem with h | h
    · cases h
    · exact h.not_processCommit ok rfl
  · rw [hlog _ (fun h => h.not_processCommit ok rfl) nofun] at hmem
    rcases smStepConfirm_sat.event _ hmem with h | ⟨h, -⟩
    · exact h.not_processCommit ok rfl
    · cases h

/-- After a failed computation no key is stored. -/
def FailedUnset (log : List Event) (sta : Option SaeData) : Prop :=
  lastProcess log = some false → ∀ sae, sta = some sae → sae.keysUnset = true

theorem handleAuthSae_failedUnset {sta sta' : Option SaeData} {log : List Event} (hinv : StaInv ap.host sta)
    (hfail : FailedUnset log sta) (hclean : failsBeforeKeys ap sta inp = true)
    (h : (handleAuthSae ap sta inp).result = .ok sta') : FailedUnset (log ++ (handleAuthSae ap sta inp).log) sta' := by
  have hreply : ∀ {l : List Event}, (∀ e ∈ l, e.IsReply) → ∀ ok, Event.processCommit ok ∉ l :=
    fun hl ok hok => (hl _ hok).not_processCommit ok rfl
  rcases handleAuthSae_cases h with ⟨sae, sae', hopen, rfl, htrans, hs, hlog⟩ | ⟨sae, sae', rfl, rfl, -, hs, hlog⟩ |
    ⟨rfl, -, hlog⟩
  · have hopenInv := openInstance_inv hinv hopen
    have hunset : lastProcess log = some false → sae.keysUnset = true := by
      intro hlast
      rcases openInstance_some hopen with rfl | ⟨-, -, rfl⟩
      · exact hfail hlast sae rfl
      · rfl
    have hgate : Inv ap.host (commitGate ap inp sae).sae := hopenInv.commitGate
    rintro hlast _ ⟨⟩
    rcases handleCommit_cases hs with ⟨-, rfl, hlog'⟩ | ⟨s, r, status, hstep, hs, hlog'⟩
    · rw [hlog, lastProcess_append_of_not_mem (hreply hlog')] at hlast
      exact keysUnset_commitGate (hunset hlast)
    · rw [hstep] at hgate
      have hmem : ∀ b, Event.processCommit b ∈ (handleAuthSae ap sta inp).log ↔
          Event.processCommit b ∈ (smStepCommit ap inp r s).log := by
        intro b
        rw [hlog]
        exact hlog' _ fun hr => hr.not_processCommit b rfl
      rcases smStepCommit_cases (commitGate_step_reaches hstep) hgate.coefficientsEcc hgate.sized hgate.holdsGroup hs
        with ⟨hu, -⟩ | ⟨s', tmp, tmp', ok, hp, hsecret⟩
      · rw [lastProcess_append_of_not_mem fun ok hok => hu.log ok ((hmem ok).1 hok)] at hlast
        have hk : (commitGate ap inp sae).sae.keysUnset = true := keysUnset_commitGate (hunset hlast)
        rw [hstep] at hk
        exact keysUnset_of_keyView hu.keyView hk
      · rw [lastProcess_append_of_mem fun b => (hmem b).trans (hp.log b)] at hlast
        cases hlast
        -- a shared point is at infinity, so the condition says that it is the first one
        obtain ⟨i, hi, hinf⟩ := hgate.exists_infinity hp
        rw [hsecret i hi] at hinf
        simp only [failsBeforeKeys, hopen, htrans, hstep, ne_eq, not_true_eq_false, decide_false, Bool.false_or,
          Bool.or_eq_true, Bool.and_eq_true, decide_eq_true_eq] at hclean
        rcases hclean with hfinite | ⟨hk, hzero⟩
        · exact absurd hinf (finiteSecrets_iff.1 hfinite i hi)
        · rw [← hsecret 0 (by omega)] at hzero
          refine keysUnset_iff.2 fun t ht => ?_
          cases hp.final_tmp.symm.trans ht
          obtain ⟨t, ht, hkeys, -⟩ := exists_tmp_of_keyView hp.start hp.start_tmp
          rw [hgate.keys_of_infinity hp hzero, hkeys]
          exact keysUnset_iff.1 hk t ht
  · rintro hlast _ ⟨⟩
    rw [hlog, lastProcess_append_of_not_mem (handleConfirm_not_processCommit hs)] at hlast
    have hk := hfail hlast sae rfl
    rw [(not_reaches_of_keysUnset (hinv sae rfl) hk hs).1]
    exact hk
  · rwa [FailedUnset, lastProcess_append_of_not_mem (hreply hlog)]

/-- No confirm that follows a failed computation makes the station accepted. -/
def NoAcceptAfterFailure (ap : Ap) (inputs : List Input) (inp : Input) : Prop :=
  ∀ sta sta', (runStation ap inputs).result = .ok sta → lastProcess (runStation ap inputs).log = some false →
    inp.transaction = 2 → (handleAuthSae ap sta inp).result = .ok sta' → ¬BecomesAccepted sta sta'

/-- **No acceptance after a failure.** In every run in which a commit makes a shared point infinite only if it is the first
one and no key is stored, no confirm makes the station accepted after a failure until a commit has been processed
successfully. -/
theorem runStation_noAcceptAfterFailure {inputs : List Input}
    (h : Run.AllSteps (handleAuthSae ap) (fun sta inp => failsBeforeKeys ap sta inp = true) none inputs) :
    NoAcceptAfterFailure ap inputs inp := by
  intro sta sta' hrun hlast hconfirm hok
  have hsteps : StaInv ap.host sta ∧ FailedUnset ([] ++ (runStation ap inputs).log) sta :=
    Run.steps_invariant (J := fun log sta => StaInv ap.host sta ∧ FailedUnset log sta)
      (fun log sta inp sta' hJ hclean hs => ⟨handleAuthSae_inv hJ.1 hs, handleAuthSae_failedUnset hJ.1 hJ.2 hclean hs⟩)
      ⟨staInv_none, nofun⟩ h hrun
  obtain ⟨hinv, hfail⟩ := hsteps
  rcases handleAuthSae_cases hok with ⟨_, _, -, -, h, -⟩ | ⟨sae, sae', rfl, rfl, -, hs, -⟩ | ⟨rfl, -, -⟩
  · rw [hconfirm] at h
    cases h
  · rw [(not_reaches_of_keysUnset (hinv sae rfl) (hfail hlast sae rfl) hs).1]
    exact not_becomesAccepted _
  · exact not_becomesAccepted _

/-- The element cancels the first password element, so the computation fails at the first index. -/
theorem runStation_noAcceptAfterFailure_small :
    lastProcess (runStation Small.ap [Small.commit 5 17 14 1]).log = some false ∧
      NoAcceptAfterFailure Small.ap [Small.commit 5 17 14 1] (Small.confirm 1 415) :=
  ⟨by decide +kernel, runStation_noAcceptAfterFailure (Run.allSteps_of_checkSteps (by decide +kernel))⟩

/-- The element cancels the second password element: the key of the first one stays in the tables, and a confirm under it
is accepted. -/
theorem accept_after_failure :
    ¬NoAcceptAfterFailure Small.ap [Small.commit 5 1 12 1] (Small.confirm 1 415) := by
  intro h
  have hb : Small.stateAfter [Small.commit 5 1 12 1] = some .committed := by decide +kernel
  have ha : Small.stateAfter ([Small.commit 5 1 12 1] ++ [Small.confirm 1 415]) = some .accepted := by decide +kernel
  obtain ⟨sae, sae', hrun, hs, hstep, hs'⟩ := Small.exists_step_of_stateAfter hb ha
  refine h _ _ hrun (by decide +kernel) rfl hstep ⟨⟨sae', rfl, hs'⟩, ?_⟩
  rintro _ ⟨⟩
  rw [hs]
  nofun

end DecoyAuth
