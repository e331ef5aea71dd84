import DecoyAuth.Ap.Reject

/-!
# What an accepted station has proved

A station should become accepted only by a confirm that verifies under keys derived from the commit it sent
(`AuthenticAccept`). The tables of keys survive the commit they were derived from, so this needs a condition on the
commits of the run: one that reaches the state machine finds no keys, or makes no shared point infinite, and one that does
not reach it changes nothing for a station that is waiting (`keysFollowCommit`). Under it the invariant `Derived` ties
every stored key to the current instance, and **`runStation_authenticAccept`** follows.
-/

namespace DecoyAuth

variable {ap : Ap} {host : Host} {inp : Input} {sae sae' s : SaeData} {tmp tmp' : SaeTmp}

/-! ## The invariant -/

/-- Every stored key of a waiting station is the one that `sae_ap_derive_keys` derives from the current instance. -/
def Derived (host : Host) (sae : SaeData) : Prop :=
  sae.isWaiting = true → ∀ tmp, sae.tmp = some tmp → ∀ i key, tmp.keys.entry i = some key →
    apDeriveKeys host sae tmp i = .ok (some key)

/-- What a received commit leaves in the instance and the keys are derived from. -/
structure PeerCommit where
  scalar : Option ℤ
  elementEcc : Option EcPoint
  elementFfc : Option ℤ
  rejectedGroups : Option Bytes
  akmp : Akmp
deriving DecidableEq

def SaeData.peerCommit (sae : SaeData) : PeerCommit where
  scalar := sae.peerCommitScalar
  elementEcc := sae.tmp.bind (·.peerCommitElementEcc)
  elementFfc := sae.tmp.bind (·.peerCommitElementFfc)
  rejectedGroups := sae.tmp.bind (·.peerRejectedGroups)
  akmp := sae.akmp

/-- The keys follow the commits. A commit that reaches the state machine finds no keys stored, or no shared point is at
infinity, where in the state Confirmed it can also be answered. One that does not reach it leaves the station not waiting,
or the peer's commit as it was. This is a condition on the frame and the station before the step. -/
def keysFollowCommit (ap : Ap) (sta : Option SaeData) (inp : Input) : Bool :=
  match openInstance ap sta inp with
  | none => true
  | some sae => inp.transaction ≠ 1 ||
    match commitGate ap inp sae with
    | .step s reuse =>
      s.keysUnset || (finiteSecrets ap inp reuse s && (s.state ≠ .confirmed || canAnswer ap inp s))
    | gate => !gate.sae.isWaiting || gate.sae.peerCommit = sae.peerCommit

theorem derived_of_keysUnset (h : sae.keysUnset = true) : Derived host sae := by
  intro _ tmp ht i key hkey
  rw [keysUnset_iff.1 h tmp ht] at hkey
  cases hkey

theorem derived_of_not_waiting (h : sae.isWaiting = false) : Derived host sae := by
  intro hw
  rw [h] at hw
  cases hw

/-- A commit that changes nothing keeps the keys derived. -/
theorem Derived.of_forgetPeer (h : Derived host sae) (hf : sae'.forgetPeer = sae.forgetPeer)
    (hpeer : sae'.peerCommit = sae.peerCommit) : Derived host sae' := by
  intro hw tmp' ht' i key hkey
  obtain ⟨tmp, ht, htf⟩ := exists_tmp_of_forgetPeer hf ht'
  have hstate : sae'.state = sae.state := (congrArg SaeData.state hf :)
  have hkeys : tmp'.keys = tmp.keys := (congrArg SaeTmp.keys htf :)
  have hwait : sae.isWaiting = true := by
    rw [SaeData.isWaiting, ← hstate]
    exact hw
  rw [← h hwait tmp ht i key (hkeys ▸ hkey)]
  refine apDeriveKeys_congr ?_ i
  simp only [SaeData.peerCommit, ht, ht', Option.bind_some, PeerCommit.mk.injEq] at hpeer
  simp only [SaeTmp.forgetPeer, SaeTmp.mk.injEq] at htf
  have hh2e : sae'.h2e = sae.h2e := (congrArg SaeData.h2e hf :)
  simp only [keyInputs, KeyInputs.mk.injEq]
  tauto

/-- Keys that a commit stored are derived from the instance it was processed in. -/
theorem Processes.derived {log : List Event} {ok : Bool} (hp : Processes host sae log sae' s tmp tmp' ok)
    (hinv : Inv host sae') (h : ok = true ∨ sae.keysUnset = true) : Derived host sae' := by
  intro _ t ht i key hkey
  rw [hp.final_tmp] at ht
  cases ht
  rw [apDeriveKeys_congr hp.inputs]
  rcases h with rfl | hunset
  · -- every index was stored, also the one that is read
    obtain ⟨es, hes⟩ : ∃ es, tmp'.keys = .live es := by
      cases hk : tmp'.keys with
      | live es => exact ⟨es, rfl⟩
      | unset => rw [hk] at hkey; cases hkey
      | released => rw [hk] at hkey; cases hkey
    have hi : i < es.length := Table.entry_lt hes hkey
    have hn : tmp.numPasswords = tmp'.numPasswords := by rw [hp.stores.frame]
    rw [hinv.ofSize _ hp.final_tmp es hes] at hi
    obtain ⟨key', hkey', hderived⟩ := hp.stores.stored rfl i (Nat.zero_le i)
      (by rw [hn, hinv.sized _ hp.final_tmp]; omega)
    rw [hkey] at hkey'
    cases hkey'
    exact hderived
  · rcases hp.stores.source i key hkey with hold | hderived
    · obtain ⟨t, ht, hkeys, -⟩ := exists_tmp_of_keyView hp.start hp.start_tmp
      rw [hkeys, keysUnset_iff.1 hunset t ht] at hold
      cases hold
    · exact hderived

theorem GateBase.waiting {base : SaeData} (h : GateBase host sae base) (hf : s.forgetPeer = base.forgetPeer)
    (hw : s.isWaiting = true) : base = sae := by
  have hstate : s.state = base.state := (congrArg SaeData.state hf :)
  have hnot : base.state ≠ .nothing := by
    intro hn
    rw [SaeData.isWaiting, hstate, hn] at hw
    cases hw
  rcases h with rfl | rfl | h
  · rfl
  · exact absurd rfl hnot
  · exact absurd h.state hnot

theorem handleCommit_derived {sta : Option SaeData} (hinv : Inv ap.host sae) (hd : Derived ap.host sae)
    (hopen : openInstance ap sta inp = some sae) (htrans : inp.transaction = 1)
    (hfollow : keysFollowCommit ap sta inp = true) (h : (handleCommit ap inp sae).result = .ok sae') :
    Derived ap.host sae' := by
  cases hw : sae'.isWaiting with
  | false => exact derived_of_not_waiting hw
  | true =>
    have hgate : Inv ap.host (commitGate ap inp sae).sae := hinv.commitGate
    simp only [keysFollowCommit, hopen, htrans, ne_eq, not_true_eq_false, decide_false, Bool.false_or] at hfollow
    rcases handleCommit_cases h with ⟨hno, rfl, -⟩ | ⟨s, r, status, hstep, hs, -⟩
    · obtain ⟨base, hbase, hf⟩ : ∃ base, GateBase ap.host sae base ∧ (commitGate ap inp sae).sae.forgetPeer = _ :=
        commitGate_base
      cases hbase.waiting hf hw
      refine hd.of_forgetPeer hf ?_
      cases hg : commitGate ap inp sae with
      | step s r => exact absurd hg (hno s r)
      | drop s => simpa [hg, hg ▸ hw] using hfollow
      | reply s status data => simpa [hg, hg ▸ hw] using hfollow
    · rw [hstep] at hgate
      simp only [hstep, Bool.or_eq_true, Bool.and_eq_true, decide_eq_true_eq] at hfollow
      rcases smStepCommit_cases (commitGate_step_reaches hstep) hgate.coefficientsEcc hgate.sized hgate.holdsGroup hs with
        ⟨hu, hstays⟩ | ⟨s', tmp, tmp', ok, hp, hsecret⟩
      · rcases hfollow with hunset | ⟨-, hanswers⟩
        · exact derived_of_keysUnset (keysUnset_of_keyView hu.keyView hunset)
        · obtain ⟨hconfirmed, hcannot⟩ := hstays hw
          exact absurd (hcannot.symm.trans (hanswers.resolve_left (not_not.2 hconfirmed))) Bool.false_ne_true
      · refine hp.derived (handleCommit_inv hinv h) (hfollow.symm.imp (fun hfinite => ?_) id)
        -- a failure comes from a shared point at infinity
        rw [← Bool.not_eq_false]
        rintro rfl
        obtain ⟨i, hi, hinf⟩ := hgate.exists_infinity hp
        rw [hsecret i hi] at hinf
        exact finiteSecrets_iff.1 hfinite.1 i hi hinf

/-- A confirm that finds no key keeps them derived, and one that finds a key frees the tables. -/
theorem handleConfirm_derived (hd : Derived ap.host sae) (h : (handleConfirm ap inp sae).result = .ok sae') :
    Derived ap.host sae' := by
  rcases handleConfirm_cases h with ⟨-, rfl, -⟩ | ⟨tmp, s, t, ht, hloop, rfl, -, -⟩ |
    ⟨tmp, s, t, offset, status, ht, hloop, hs, -, -, -⟩
  · exact hd
  · have hsearched := (searchEntries_none hloop).1
    intro hw t' ht' i key hkey
    cases ht'
    have hkeys : t.keys = tmp.keys := by rw [hsearched.tmp_eq]
    have hinputs : keyInputs { s with tmp := some t } t = keyInputs sae tmp := by
      rw [hsearched.tmp_eq, hsearched.sae_eq]
      rfl
    have hwait : sae.isWaiting = true := by
      rw [hsearched.sae_eq] at hw
      exact hw
    rw [apDeriveKeys_congr hinputs]
    exact hd hwait tmp ht i key (hkeys ▸ hkey)
  · obtain ⟨j, key, pwe, element, hf, -⟩ := searchEntries_some hloop
    rcases smStepConfirm_sat.value _ hs with hkeeps | hnone
    · intro _ t' ht' i key' hkey
      obtain ⟨t'', ht'', hkeys, -⟩ := exists_tmp_of_keyView hkeeps.keyView ht'
      cases ht''
      rw [hkeys, hf.tmp_eq] at hkey
      cases hkey
    · intro _ t' ht'
      rw [hnone] at ht'
      cases ht'

/-- The keys of the station's instance, if it has one, are derived. -/
def StaDerived (host : Host) (sta : Option SaeData) : Prop := ∀ sae, sta = some sae → Inv host sae ∧ Derived host sae

theorem StaDerived.staInv {sta : Option SaeData} (h : StaDerived host sta) : StaInv host sta :=
  fun sae hsae => (h sae hsae).1

theorem handleAuthSae_derived {sta sta' : Option SaeData} (hd : StaDerived ap.host sta)
    (hfollow : keysFollowCommit ap sta inp = true) (h : (handleAuthSae ap sta inp).result = .ok sta') :
    StaDerived ap.host sta' := by
  have hinv := handleAuthSae_inv hd.staInv h
  rcases handleAuthSae_cases h with ⟨sae, sae', hopen, rfl, htrans, hs, -⟩ | ⟨sae, sae', rfl, rfl, -, hs, -⟩ |
    ⟨rfl, -, -⟩
  · rintro _ ⟨⟩
    refine ⟨hinv sae' rfl, handleCommit_derived (openInstance_inv hd.staInv hopen) ?_ hopen htrans hfollow hs⟩
    rcases openInstance_some hopen with rfl | ⟨-, -, rfl⟩
    · exact (hd sae rfl).2
    · exact derived_of_keysUnset rfl
  · rintro _ ⟨⟩
    exact ⟨hinv sae' rfl, handleConfirm_derived (hd sae rfl).2 hs⟩
  · exact hd

/-! ## Acceptance -/

/-- The frame is a confirm that verifies under the stored keys of an index; these keys are what `sae_ap_derive_keys`
derives from the instance, that is from the scalar and the element that the verifier was computed over; and the PMK and
PMKID handed over are those of that index. -/
def AuthenticAccept (ap : Ap) (sta : Option SaeData) (inp : Input) : Prop :=
  ∃ sae tmp i key pwe element, sta = some sae ∧ sae.tmp = some tmp ∧ inp.transaction = 2 ∧
    Verifies ap.host sae tmp inp.body i key pwe element ∧ apDeriveKeys ap.host sae tmp i = .ok (some key) ∧
    ∀ pmk pmkid, Event.pmksaAdd pmk pmkid ∈ (handleAuthSae ap sta inp).log ↔ pmk = key.pmk ∧ pmkid = key.pmkid

/-- A commit accepts no station. -/
theorem handleCommit_accepted (h : (handleCommit ap inp sae).result = .ok sae') (hs : sae'.state = .accepted) :
    sae.state = .accepted := by
  have hgate : (commitGate ap inp sae).sae.state = .accepted → sae.state = .accepted := by
    intro hg
    obtain ⟨base, hbase, hf⟩ : ∃ base, GateBase ap.host sae base ∧ (commitGate ap inp sae).sae.forgetPeer = _ :=
      commitGate_base
    have hb := (relabels_of_forgetPeer hf).accepted hg
    rcases hbase with rfl | rfl | hbase
    · exact hb
    · cases hb
    · rw [hbase.state] at hb
      cases hb
  rcases handleCommit_cases h with ⟨-, rfl, -⟩ | ⟨s, r, status, hstep, hsm, -⟩
  · exact hgate hs
  · rw [hstep] at hgate
    exact hgate (((smStepCommit_sat (commitGate_step_state hstep)).value _ hsm).1 hs)

/-- A station that a confirm makes accepted was waiting for it. -/
theorem isWaiting_of_accepts {q : SaeData × Status} (h : (smStepConfirm ap inp sae).result = .ok q)
    (hs : sae.state ≠ .accepted) (hq : q.1.state = .accepted) : sae.isWaiting = true := by
  unfold SaeData.isWaiting
  cases hstate : sae.state with
  | nothing =>
    unfold smStepConfirm at h
    rw [hstate] at h
    cases h
    rw [hstate] at hq
    cases hq
  | committed => rfl
  | confirmed => rfl
  | accepted => exact absurd hstate hs

theorem handleConfirm_accepts (hd : Derived ap.host sae) (h : (handleConfirm ap inp sae).result = .ok sae')
    (hs : sae.state ≠ .accepted) (hs' : sae'.state = .accepted) :
    ∃ tmp i key pwe element, sae.tmp = some tmp ∧ Verifies ap.host sae tmp inp.body i key pwe element ∧
      apDeriveKeys ap.host sae tmp i = .ok (some key) ∧
      ∀ pmk pmkid, Event.pmksaAdd pmk pmkid ∈ (handleConfirm ap inp sae).log ↔ pmk = key.pmk ∧ pmkid = key.pmkid := by
  rcases handleConfirm_cases h with ⟨-, rfl, -⟩ | ⟨tmp, s, t, ht, hloop, rfl, -, -⟩ |
    ⟨tmp, s, t, offset, status, ht, hloop, hsm, -, -, hlog⟩
  · exact absurd hs' hs
  · rw [(searchEntries_none hloop).1.sae_eq] at hs'
    exact absurd hs' hs
  · obtain ⟨j, key, pwe, element, hf, -⟩ := searchEntries_some hloop
    have hstate : s.state = sae.state := by rw [hf.sae_eq]; rfl
    have hpmk : s.pmk = key.pmk := by rw [hf.sae_eq]; rfl
    have hpmkid : s.pmkid = key.pmkid := by rw [hf.sae_eq]; rfl
    have hs₁ : s.state ≠ .accepted := hstate ▸ hs
    have hwait : sae.isWaiting = true := by
      have := isWaiting_of_accepts hsm hs₁ hs'
      rwa [SaeData.isWaiting, hstate] at this
    refine ⟨tmp, j, key, pwe, element, ht, hf.verifies, hd hwait tmp ht j key (Table.read_ok hf.verifies.key_eq), ?_⟩
    intro pmk pmkid
    rw [hlog (.pmksaAdd pmk pmkid) (by rintro ⟨_, _, _, h⟩; cases h) (by rintro ⟨⟩)]
    constructor
    · intro hmem
      rcases smStepConfirm_sat.event _ hmem with ⟨_, _, _, h⟩ | ⟨h, -⟩
      · cases h
      · simp only [Event.pmksaAdd.injEq] at h
        exact ⟨h.1.trans hpmk, h.2.trans hpmkid⟩
    · rintro ⟨rfl, rfl⟩
      rw [← hpmk, ← hpmkid]
      exact smStepConfirm_accepts hsm hs₁ hs'

/-- **Authentication.** In every run whose keys follow the commits, whenever the station becomes accepted the frame just
received is a confirm that verifies under keys derived from the station's own commit, and these keys are handed over. -/
theorem runStation_authenticAccept {inputs : List Input} {sta sta' : Option SaeData}
    (h : Run.AllSteps (handleAuthSae ap) (fun sta inp => keysFollowCommit ap sta inp = true) none inputs)
    (hrun : (runStation ap inputs).result = .ok sta) (hok : (handleAuthSae ap sta inp).result = .ok sta')
    (haccept : BecomesAccepted sta sta') : AuthenticAccept ap sta inp := by
  have hd : StaDerived ap.host sta :=
    Run.steps_invariant (J := fun _ sta => StaDerived ap.host sta) (l := [])
      (fun _ _ _ _ hd hfollow hs => handleAuthSae_derived hd hfollow hs) (fun _ h => by cases h) h hrun
  obtain ⟨⟨_, rfl, hs'⟩, hbefore⟩ := haccept
  rcases handleAuthSae_cases hok with ⟨sae, sae', hopen, ⟨⟩, -, hs, -⟩ | ⟨sae, sae', rfl, ⟨⟩, htrans, hs, hlog⟩ |
    ⟨rfl, -, -⟩
  · have hacc := handleCommit_accepted hs hs'
    rcases openInstance_some hopen with rfl | ⟨-, -, rfl⟩
    · exact absurd hacc (hbefore sae rfl)
    · cases hacc
  · obtain ⟨tmp, i, key, pwe, element, ht, hv, hkey, hmem⟩ :=
      handleConfirm_accepts (hd sae rfl).2 hs (hbefore sae rfl) hs'
    refine ⟨sae, tmp, i, key, pwe, element, rfl, ht, htrans, hv, hkey, ?_⟩
    rw [hlog]
    exact hmem
  · exact absurd hs' (hbefore _ rfl)

/-- A commit and a confirm under its first key. -/
theorem runStation_authenticAccept_small : ∃ sta, (runStation Small.ap [Small.commit 5 0 2 1]).result = .ok sta ∧
    AuthenticAccept Small.ap sta (Small.confirm 1 3741) := by
  have hb : Small.stateAfter [Small.commit 5 0 2 1] = some .committed := by decide +kernel
  have ha : Small.stateAfter ([Small.commit 5 0 2 1] ++ [Small.confirm 1 3741]) = some .accepted := by decide +kernel
  obtain ⟨sae, sae', hrun, hs, hstep, hs'⟩ := Small.exists_step_of_stateAfter hb ha
  refine ⟨some sae, hrun, runStation_authenticAccept (Run.allSteps_of_checkSteps (by decide +kernel)) hrun hstep
    ⟨⟨sae', rfl, hs'⟩, ?_⟩⟩
  rintro _ ⟨⟩
  rw [hs]
  nofun

/-! ## Keys of an earlier commit -/

/-- The stored key of an index is the one that the instance derives. -/
def SaeData.keyDerived (host : Host) (sae : SaeData) (i : ℕ) : Bool :=
  match sae.tmp with
  | none => false
  | some tmp =>
    match tmp.keys.read .keys i, apDeriveKeys host sae tmp i with
    | .ok key, .ok derived => derived = some key
    | _, _ => false

theorem AuthenticAccept.keyDerived (h : AuthenticAccept ap (some sae) inp) (hinv : Inv ap.host sae) :
    ∃ i < ap.host.passwords.length, sae.keyDerived ap.host i = true := by
  obtain ⟨_, tmp, i, key, pwe, element, ⟨⟩, ht, -, hv, hkey, -⟩ := h
  refine ⟨i, ?_, by simp [SaeData.keyDerived, ht, hv.key_eq, hkey]⟩
  cases hk : tmp.keys with
  | live es => exact hinv.ofSize tmp ht es hk ▸ Table.entry_lt hk (Table.read_ok hv.key_eq)
  | unset =>
    have := hv.key_eq
    rw [hk] at this
    cases this
  | released =>
    have := hv.key_eq
    rw [hk] at this
    cases this

/-- Three commits leave the keys of the first one in the tables: the second is rejected for its element, which leaves the
state Nothing, and the third cancels the first password element, so that `sae_ap_process_commit` fails at once. -/
def staleKeys : List Input := [Small.commit 5 0 2 1, Small.commit 6 0 0 1, Small.commit 7 10 18 1]

/-- The confirm verifies under the key of the first commit, and the station is accepted. -/
theorem staleKeys_not_authenticAccept : ∃ sta sta', (runStation Small.ap staleKeys).result = .ok sta ∧
    (handleAuthSae Small.ap sta (Small.confirm 1 2368)).result = .ok sta' ∧ BecomesAccepted sta sta' ∧
    ¬AuthenticAccept Small.ap sta (Small.confirm 1 2368) := by
  have hb : Small.stateAfter staleKeys = some .committed := by decide +kernel
  have ha : Small.stateAfter (staleKeys ++ [Small.confirm 1 2368]) = some .accepted := by decide +kernel
  obtain ⟨sae, sae', hrun, hs, hstep, hs'⟩ := Small.exists_step_of_stateAfter hb ha
  refine ⟨some sae, some sae', hrun, hstep, ⟨⟨sae', rfl, hs'⟩, ?_⟩, fun haccept => ?_⟩
  · rintro _ ⟨⟩
    rw [hs]
    nofun
  · obtain ⟨i, hi, hderived⟩ := haccept.keyDerived (runStation_inv hrun sae rfl)
    have hnone : ((runStation Small.ap staleKeys).valueOf.bind id).all
        (fun sae => !sae.keyDerived Small.ap.host 0 && !sae.keyDerived Small.ap.host 1) = true := by decide +kernel
    simp only [Run.valueOf, hrun, Option.bind_some, id, Option.all_some, Bool.and_eq_true, Bool.not_eq_true'] at hnone
    have hi : i < 2 := hi
    interval_cases i
    · rw [hnone.1] at hderived
      cases hderived
    · rw [hnone.2] at hderived
      cases hderived

end DecoyAuth
