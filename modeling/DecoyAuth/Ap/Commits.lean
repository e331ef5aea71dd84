import DecoyAuth.Ap.KeyView

/-!
# Commits in the state machine

What `sae_sm_step` does with a commit, in two theorems. `smStepCommit_sat` is about its events and faults.
`smStepCommit_cases` is about the keys: either they are untouched, or `sae_ap_process_commit` ran once, on an instance
with an ECC group whose tables were those of the start and whose shared points are those of the answer.
-/

namespace DecoyAuth

variable {ap : Ap} {inp : Input} {sae sae' s : SaeData} {tmp : SaeTmp}

/-! ## `sae_ap_process_commit` and what follows -/

theorem saeApProcessCommit_sat {host : Host} :
    (saeApProcessCommit host sae).Sat (fun e => ∃ ok, e = .processCommit ok)
      (fun r => r.1.state = sae.state ∧ (sae.CoefficientsEcc → r.1.CoefficientsEcc))
      (fun f => sae.Held → sae.KeysHeld → ¬f.OnReleased) := by
  refine ⟨?_, fun r hr => ?_, ?_⟩
  · unfold saeApProcessCommit
    split
    · simp
    · intro e he
      rcases Run.mem_bind_log.1 he with he | ⟨⟨tmp', ok⟩, -, he⟩
      · cases he
      · exact ⟨ok, by simpa [Run.mem_bind_log] using he⟩
  · obtain ⟨tmp, tmp', ht, hstores, heq, -⟩ := saeApProcessCommit_ok hr
    rw [heq]
    refine ⟨rfl, fun hc t ht' => ?_⟩
    cases ht'
    rw [hstores.frame]
    exact hc tmp ht
  · intro f hf hheld hkeys
    unfold saeApProcessCommit at hf
    split at hf
    · cases hf
      simp [Fault.OnReleased]
    · next tmp ht =>
      rcases Run.bind_result_error.1 hf with hf | ⟨_, -, hf⟩
      · exact processEntries_error (hheld tmp ht).pweEccs (hkeys tmp ht) hf
      · cases hf

/-- A continuation of `sae_ap_process_commit` that only sends a confirm and moves the state. -/
def IsTail (k : SaeData × Bool → ApRun (SaeData × Status)) : Prop :=
  ∀ r, (k r).Sat Event.IsReply (fun q => TailKeeps r.1 q.1) (fun f => ¬f.OnReleased)

theorem Event.IsReply.not_processCommit {e : Event} (h : e.IsReply) (ok : Bool) : e ≠ .processCommit ok := by
  obtain ⟨_, _, _, rfl⟩ := h
  nofun

theorem keyInputs_of_tailKeeps (h : TailKeeps sae sae') (tmp : SaeTmp) : keyInputs sae' tmp = keyInputs sae tmp := by
  simp only [keyInputs, h.h2e, h.akmp, h.peerCommitScalar]

theorem processThen_cases {k : SaeData × Bool → ApRun (SaeData × Status)} {q : SaeData × Status} (hk : IsTail k)
    (hec : ∀ tmp, s.tmp = some tmp → tmp.ec.isSome) (h : (saeApProcessCommit ap.host s >>= k).result = .ok q) :
    ∃ tmp tmp' ok, Processes ap.host s (saeApProcessCommit ap.host s >>= k).log q.1 s tmp tmp' ok := by
  obtain ⟨r, hr, hq⟩ := Run.bind_result_ok.1 h
  obtain ⟨tmp, tmp', ht, hstores, heq, hlog⟩ := saeApProcessCommit_ok hr
  have htail := (hk r).value q hq
  refine ⟨tmp, tmp', r.2, rfl, ht, hec tmp ht, hstores, ?_, ?_, ?_, fun b => ?_⟩
  · rw [htail.tmp_eq, heq]
  · rw [htail.processed, heq]
  · rw [keyInputs_of_tailKeeps htail, heq]
    rw [hstores.frame]
    rfl
  · rw [Run.bind_of_ok hr, hlog]
    constructor
    · intro hb
      rcases List.mem_append.1 hb with hb | hb
      · simpa using hb
      · exact absurd rfl (((hk r).event _ hb).not_processCommit b)
    · rintro rfl
      simp

/-! ## Sending a commit and what follows -/

/-- What follows `auth_sae_send_commit`: nothing if it failed, and otherwise the received commit is processed. -/
def IsSendTail (ap : Ap) (c : SaeData × Status → ApRun (SaeData × Status)) : Prop :=
  ∀ r, r.2 ≠ .success ∧ c r = pure r ∨ r.2 = .success ∧ ∃ s k, Relabels r.1 s ∧ s.apSecret = r.1.apSecret ∧ IsTail k ∧
    c r = saeApProcessCommit ap.host s >>= k

theorem CommitEvent.not_processCommit {update : Bool} {e : Event} (h : CommitEvent ap inp update sae e) (ok : Bool) :
    e ≠ .processCommit ok := by
  rcases h.1 with ⟨_, _, _, _, rfl⟩ | ⟨_, _, rfl⟩ <;> nofun

/-- The keys after a commit was sent and, if that succeeded, the received one processed. -/
theorem sendThen_cases {update : Bool} {c : SaeData × Status → ApRun (SaeData × Status)} {q : SaeData × Status}
    (hc : IsSendTail ap c) (hcoef : sae.CoefficientsEcc) (hn : sae.Sized ap.host)
    (h : (authSaeSendCommit ap inp update sae >>= c).result = .ok q) :
    Unprocessed sae (authSaeSendCommit ap inp update sae >>= c).log q.1 ∧
        (authSaeSendCommit ap inp update sae).result = .ok q ∧ q.2 ≠ .success ∨
      ∃ s tmp tmp' ok, Processes ap.host sae (authSaeSendCommit ap inp update sae >>= c).log q.1 s tmp tmp' ok ∧
        ∃ sent, (authSaeSendCommit ap inp update sae).result = .ok (sent, .success) ∧ s.apSecret = sent.apSecret := by
  obtain ⟨r, hr, hq⟩ := Run.bind_result_ok.1 h
  have hsend : (authSaeSendCommit ap inp update sae).Sat _ _ _ := authSaeSendCommit_sat update
  obtain ⟨hkeeps, hec⟩ := hsend.value r hr
  rw [Run.bind_of_ok hr]
  rcases hc r with ⟨hret, hpure⟩ | ⟨hret, s, k, hrel, hsecret, hk, heq⟩
  · rw [hpure] at hq ⊢
    cases hq
    refine .inl ⟨⟨hkeeps.keyView, fun ok hok => ?_⟩, hr, hret⟩
    rcases List.mem_append.1 hok with hok | hok
    · exact (hsend.event _ hok).not_processCommit ok rfl
    · cases hok
  · rw [heq] at hq ⊢
    obtain ⟨t, ht, hect⟩ := hec hret hcoef hn
    have hect' : ∀ tmp, s.tmp = some tmp → tmp.ec.isSome := by
      intro tmp htmp
      obtain ⟨t', ht', -, hec', -⟩ := exists_tmp_of_keyView hrel.keyView htmp
      rw [ht] at ht'
      cases ht'
      rw [hec']
      exact hect
    obtain ⟨tmp, tmp', ok, hp⟩ := processThen_cases hk hect' hq
    refine .inr ⟨s, tmp, tmp', ok, ⟨hrel.keyView.trans hkeeps.keyView, hp.start_tmp, hp.ec, hp.stores, hp.final_tmp,
      hp.processed, hp.inputs, fun b => ?_⟩, r.1, ?_, hsecret⟩
    swap
    · rw [hr, ← hret]
    rw [List.mem_append, hp.log b]
    refine ⟨fun hb => hb.resolve_left fun hb => ?_, .inr⟩
    exact (hsend.event _ hb).not_processCommit b rfl

/-- The events of a commit step: no key is handed over, and the commit is woven under the condition `woven`. -/
def CommitStepEvent (host : Host) (woven : Prop) (e : Event) : Prop :=
  (∀ pmk pmkid, e ≠ .pmksaAdd pmk pmkid) ∧ (woven → e.CommitWoven host)

theorem CommitEvent.commitStepEvent {update : Bool} {e : Event} (h : CommitEvent ap inp update sae e) :
    CommitStepEvent ap.host (update = true ∧ usePt ap.conf sae inp.status = false ∧ sae.Sized ap.host) e := by
  refine ⟨?_, fun hw => h.2 hw.1 hw.2.1 hw.2.2⟩
  rcases h.1 with ⟨_, _, _, _, rfl⟩ | ⟨_, _, rfl⟩ <;> nofun

theorem Event.IsReply.commitStepEvent {host : Host} {woven : Prop} {e : Event} (h : e.IsReply) :
    CommitStepEvent host woven e := by
  obtain ⟨_, _, _, rfl⟩ := h
  exact ⟨nofun, fun _ => trivial⟩

/-- What a commit step does besides the keys. -/
def CommitStepSat (ap : Ap) (woven : Prop) (sae : SaeData) (m : ApRun (SaeData × Status)) : Prop :=
  m.Sat (CommitStepEvent ap.host woven)
    (fun q => (q.1.state = .accepted → sae.state = .accepted) ∧ (sae.CoefficientsEcc → q.1.CoefficientsEcc))
    (fun f => sae.Held → sae.KeysHeld → ¬f.OnReleased)

theorem processThen_sat {woven : Prop} {k : SaeData × Bool → ApRun (SaeData × Status)} (hk : IsTail k) :
    CommitStepSat ap woven s (saeApProcessCommit ap.host s >>= k) := by
  have hp : (saeApProcessCommit ap.host s).Sat _ _ _ := saeApProcessCommit_sat
  refine Run.Sat.bind ⟨fun e he => ?_, hp.value, hp.fault⟩ fun r _ hr => ?_
  · obtain ⟨ok, rfl⟩ := hp.event e he
    exact ⟨nofun, fun _ => trivial⟩
  · refine ⟨fun e he => ((hk r).event e he).commitStepEvent, fun q hq => ?_, fun f hf _ _ => (hk r).fault f hf⟩
    have htail := (hk r).value q hq
    exact ⟨fun hs => hr.1 ▸ htail.accepted hs, fun hc tmp ht => hr.2 hc tmp (htail.tmp_eq ▸ ht)⟩

theorem CommitStepSat.of_relabels {woven : Prop} {m : ApRun (SaeData × Status)} (h : CommitStepSat ap woven sae' m)
    (hrel : Relabels sae sae') : CommitStepSat ap woven sae m :=
  ⟨h.event, fun q hq => ⟨fun hs => hrel.accepted ((h.value q hq).1 hs), fun hc =>
    (h.value q hq).2 (hrel.coefficientsEcc hc)⟩, fun f hf hheld hkeys =>
    h.fault f hf (hrel.held hheld) (keysHeld_of_keyView hrel.keyView hkeys)⟩

theorem sendThen_sat {update : Bool} {c : SaeData × Status → ApRun (SaeData × Status)} (hc : IsSendTail ap c) :
    CommitStepSat ap (update = true ∧ usePt ap.conf sae inp.status = false ∧ sae.Sized ap.host) sae
      (authSaeSendCommit ap inp update sae >>= c) := by
  have hsend : (authSaeSendCommit ap inp update sae).Sat _ _ _ := authSaeSendCommit_sat update
  refine Run.Sat.bind ⟨fun e he => (hsend.event e he).commitStepEvent, hsend.value, fun f hf hh _ =>
    hsend.fault f hf hh⟩ fun r _ hr => ?_
  rcases hc r with ⟨-, hpure⟩ | ⟨-, s, k, hrel, -, hk, heq⟩
  · rw [hpure]
    exact Run.Sat.pure ⟨hr.1.relabels.accepted, hr.1.coefficientsEcc⟩
  · rw [heq]
    exact (processThen_sat hk).of_relabels (hr.1.relabels.trans hrel)

/-! ## The transitions -/

theorem TailKeeps.sync (h : TailKeeps sae sae') (n : ℕ) : TailKeeps sae { sae' with sync := n } :=
  ⟨h.tmp_eq, h.processed, h.h2e, h.akmp, h.peerCommitScalar, h.pmk, h.pmkid, h.accepted⟩

theorem IsSendTail.of_success {c : SaeData × Status → ApRun (SaeData × Status)}
    (hfail : ∀ s ret, ret ≠ .success → c (s, ret) = pure (s, ret))
    (hok : ∀ s, ∃ s' k, Relabels s s' ∧ s'.apSecret = s.apSecret ∧ IsTail k ∧
      c (s, .success) = saeApProcessCommit ap.host s' >>= k) : IsSendTail ap c := by
  rintro ⟨s, ret⟩
  by_cases hret : ret = .success
  · subst hret
    exact .inr ⟨rfl, hok s⟩
  · exact .inl ⟨hret, hfail s ret hret⟩

/-- The shape of a commit step: nothing but a relabelling, after which only a disabled instance still waits, or a commit is
sent and the received one processed. Only in the state Nothing are elements reused. -/
def CommitShape (ap : Ap) (inp : Input) (allowReuse : Bool) (sae : SaeData) (m : ApRun (SaeData × Status)) : Prop :=
  (∃ sae₁, Relabels sae sae₁ ∧ (sae₁.isWaiting = true → saeProtoInstanceDisabled inp sae = true) ∧
      m = pure (sae₁, .success)) ∨
    ∃ update s c, SendsFrom sae s ∧ (allowReuse = false → update = true) ∧
      ((allowReuse = true → sae.state = .nothing) → update = !allowReuse) ∧ IsSendTail ap c ∧
      m = authSaeSendCommit ap inp update s >>= c

theorem commitInNothing_shape (allowReuse : Bool) :
    CommitShape ap inp allowReuse sae (commitInNothing ap inp allowReuse sae) := by
  refine .inr ⟨!allowReuse, if sae.tmp.isSome then { sae with h2e := isH2e inp.status, pk := inp.status = .saePk } else sae,
    _, ?_, by simp, fun _ => rfl, ?_, rfl⟩
  · split <;> exact ⟨rfl, rfl, rfl, rfl, rfl⟩
  · refine IsSendTail.of_success (fun s ret hret => by simp [hret]) fun s => ?_
    refine ⟨{ bindPwId s with state := .committed }, _, ?_, ?_, ?_, rfl⟩
    · exact relabels_bindPwId.trans (relabels_of_tmp_eq rfl rfl nofun)
    · exact apSecret_bindPwId
    rintro ⟨s', ok⟩
    dsimp only
    split
    · exact Run.Sat.pure (TailKeeps.refl s')
    · split
      · refine confirmAndAdvance_sat.bind ?_
        rintro ⟨s'', ret⟩ _ hkeeps
        refine Run.Sat.pure ?_
        dsimp only
        split
        · exact hkeeps
        · exact hkeeps.sync 0
      · exact Run.Sat.pure ((TailKeeps.refl s').sync 0)

/-- `sae_check_big_sync` resets the state, or does nothing. -/
theorem saeCheckBigSync_cases {big : Bool} (h : saeCheckBigSync ap inp sae = (s, big)) :
    Relabels sae s ∧ (big = false → s = sae) ∧ (big = true → s.state = .nothing) := by
  unfold saeCheckBigSync at h
  split at h
  · cases h
    refine ⟨⟨⟨?_, fun hh tmp ht => ?_, fun hc tmp ht => ?_⟩, by rintro ⟨⟩⟩, by rintro ⟨⟩, fun _ => rfl⟩
    · simp only [SaeData.keyView, Option.map_map]
      rfl
    · obtain ⟨t, ht', rfl⟩ := Option.map_eq_some_iff.1 ht
      exact ⟨(hh t ht').1, (hh t ht').2⟩
    · obtain ⟨t, ht', rfl⟩ := Option.map_eq_some_iff.1 ht
      exact hc t ht'
  · cases h
    exact ⟨relabels_of_tmp_eq rfl rfl id, fun _ => rfl, by rintro ⟨⟩⟩

/-- Elements are reused in the state Nothing only, so a commit in another state is answered with new ones. -/
theorem update_of_ne_nothing {allowReuse : Bool} (hs : sae.state ≠ .nothing)
    (h : allowReuse = true → sae.state = .nothing) : true = !allowReuse := by
  cases allowReuse with
  | false => rfl
  | true => exact absurd (h rfl) hs

theorem commitInConfirmed_shape (allowReuse : Bool) (hs : sae.state ≠ .nothing) :
    CommitShape ap inp allowReuse sae (commitInConfirmed ap inp sae) := by
  unfold commitInConfirmed
  rcases h : saeCheckBigSync ap inp sae with ⟨s, big⟩
  obtain ⟨hrel, hfalse, hnothing⟩ := saeCheckBigSync_cases h
  cases big with
  | true =>
    refine .inl ⟨s, hrel, fun hw => ?_, rfl⟩
    rw [SaeData.isWaiting, hnothing rfl] at hw
    cases hw
  | false =>
    cases hfalse rfl
    refine .inr ⟨true, { sae with sync := sae.sync + 1 }, _, ⟨rfl, rfl, rfl, rfl, rfl⟩, fun _ => rfl,
      update_of_ne_nothing hs, ?_, rfl⟩
    refine IsSendTail.of_success (fun s ret hret => by simp [hret]) fun s => ?_
    refine ⟨s, _, relabels_of_tmp_eq rfl rfl id, rfl, ?_, rfl⟩
    rintro ⟨s', ok⟩
    dsimp only
    split
    · exact Run.Sat.pure (TailKeeps.refl s')
    · exact authSaeSendConfirm_sat

theorem commitInAccepted_shape (allowReuse : Bool) (hs : sae.state ≠ .nothing) :
    CommitShape ap inp allowReuse sae (commitInAccepted ap inp sae) := by
  refine .inr ⟨true, sae, _, ⟨rfl, rfl, rfl, rfl, rfl⟩, fun _ => rfl, update_of_ne_nothing hs, ?_, rfl⟩
  refine IsSendTail.of_success (fun s ret hret => by simp [hret]) fun s => ?_
  refine ⟨{ s with state := .committed }, _, relabels_of_tmp_eq rfl rfl nofun, apSecret_congr rfl rfl, ?_, rfl⟩
  rintro ⟨s', ok⟩
  dsimp only
  split
  · exact Run.Sat.pure (TailKeeps.refl s')
  · exact Run.Sat.pure ((TailKeeps.refl s').sync 0)

theorem smStepCommit_shape {allowReuse : Bool} (hs : sae.state ≠ .committed) :
    CommitShape ap inp allowReuse sae (smStepCommit ap inp allowReuse sae) := by
  unfold smStepCommit
  split
  · next hdisabled => exact .inl ⟨sae, relabels_of_tmp_eq rfl rfl id, fun _ => hdisabled, rfl⟩
  · split
    · exact commitInNothing_shape allowReuse
    · next hc => exact absurd hc hs
    · next hc => exact commitInConfirmed_shape allowReuse (by rw [hc]; nofun)
    · next hc => exact commitInAccepted_shape allowReuse (by rw [hc]; nofun)

/-- A commit that does not ask for a PT uses none. -/
theorem usePt_eq_false (hid : rxPwId sae = none) (hstatus : inp.status = .success) :
    usePt ap.conf sae inp.status = false := by
  unfold usePt
  rw [if_neg (by simp [hid]), if_pos hstatus]

/-- **The events and faults of a commit in the state machine.** The commit that is sent is woven if it is prepared anew and
not from a PT. -/
theorem smStepCommit_sat {allowReuse : Bool} (hs : sae.state ≠ .committed) :
    CommitStepSat ap (allowReuse = false ∧ inp.status = .success ∧ rxPwId sae = none ∧ sae.Sized ap.host) sae
      (smStepCommit ap inp allowReuse sae) := by
  rcases smStepCommit_shape hs with ⟨sae₁, hrel, -, heq⟩ | ⟨update, s, c, hfrom, hupdate, -, hc, heq⟩
  · rw [heq]
    exact Run.Sat.pure ⟨hrel.accepted, hrel.coefficientsEcc⟩
  · rw [heq]
    have hrel := hfrom.relabels
    have hsend : CommitStepSat ap _ s (authSaeSendCommit ap inp update s >>= c) := sendThen_sat hc
    have hsat := hsend.of_relabels hrel
    refine ⟨fun e he => ⟨(hsat.event e he).1, ?_⟩, hsat.value, hsat.fault⟩
    rintro ⟨hreuse, hstatus, hnone, hn⟩
    exact (hsat.event e he).2 ⟨hupdate hreuse, usePt_eq_false (hfrom.rxPwId_eq.trans hnone) hstatus, hrel.sized hn⟩

/-- How a commit reaches the state machine. -/
structure Reaches (inp : Input) (allowReuse : Bool) (sae : SaeData) : Prop where
  enabled : saeProtoInstanceDisabled inp sae = false
  state : sae.state ≠ .committed
  reuse : allowReuse = true → sae.state = .nothing
  status : inp.status = .success ∨ isH2e inp.status = true

/-- **The keys after a commit in the state machine.** Without a processed commit only an instance in the state Confirmed
that could not answer still waits for a confirm. -/
theorem smStepCommit_cases {allowReuse : Bool} {q : SaeData × Status} (hr : Reaches inp allowReuse sae)
    (hcoef : sae.CoefficientsEcc) (hn : sae.Sized ap.host) (hg : sae.HoldsGroup)
    (h : (smStepCommit ap inp allowReuse sae).result = .ok q) :
    Unprocessed sae (smStepCommit ap inp allowReuse sae).log q.1 ∧
        (q.1.isWaiting = true → sae.state = .confirmed ∧ canAnswer ap inp sae = false) ∨
      ∃ s tmp tmp' ok, Processes ap.host sae (smStepCommit ap inp allowReuse sae).log q.1 s tmp tmp' ok ∧
        ∀ i < ap.host.passwords.length, s.apSecret i = answerSecret ap inp allowReuse sae i := by
  rcases smStepCommit_shape hr.state with ⟨sae₁, hrel, hwaits, heq⟩ | ⟨update, s, c, hfrom, -, hupdate, hc, heq⟩
  · rw [heq] at h ⊢
    cases h
    exact .inl ⟨⟨hrel.keyView, nofun⟩, fun hw => absurd (hr.enabled.symm.trans (hwaits hw)) Bool.false_ne_true⟩
  · rw [heq] at h ⊢
    have hrel := hfrom.relabels
    have hn' := hrel.sized hn
    have hg' := holdsGroup_of_keyView hrel.keyView hg
    cases hupdate hr.reuse
    rcases sendThen_cases hc (hrel.coefficientsEcc hcoef) hn' h with
      ⟨hu, hsend, hret⟩ | ⟨s', tmp, tmp', ok, hp, sent, hsend, hsecret⟩
    · refine .inl ⟨⟨hu.keyView.trans hrel.keyView, hu.log⟩, fun hw => ?_⟩
      have hkeeps : SendKeeps s q.1 := ((authSaeSendCommit_sat _).value _ hsend).1
      have hstate : q.1.state = sae.state := (congrArg SaeData.state hkeeps.forget :).trans hfrom.state
      have hconfirmed : sae.state = .confirmed := by
        simpa [SaeData.isWaiting, hstate, hr.state] using hw
      refine ⟨hconfirmed, ?_⟩
      rw [← hfrom.canAnswer_eq hr.status, Bool.eq_false_iff]
      intro hcan
      have hnew : allowReuse = false := by
        by_contra hreuse
        rw [hr.reuse (Bool.not_eq_false _ ▸ hreuse)] at hconfirmed
        cases hconfirmed
      rw [hnew] at hsend
      exact hret (authSaeSendCommit_of_canAnswer hn' hg' hcan hsend)
    · refine .inr ⟨s', tmp, tmp', ok, ⟨hp.start.trans hrel.keyView, hp.start_tmp, hp.ec, hp.stores, hp.final_tmp,
        hp.processed, hp.inputs, hp.log⟩, fun i hi => ?_⟩
      obtain ⟨t, ht, -, hec, hnum⟩ := exists_tmp_of_keyView hp.start hp.start_tmp
      obtain ⟨ec, hec'⟩ := Option.isSome_iff_exists.1 hp.ec
      have hlt : i < t.numPasswords.toNat := by
        have := hn' t ht
        omega
      rw [hsecret, authSaeSendCommit_apSecret ht (hec.symm.trans hec') hsend hlt, Bool.not_not,
        hfrom.answerSecret_eq hr.status]

end DecoyAuth
