import DecoyAuth.Ap.Steps

/-!
# The invariant of every run

A confirm in the state machine (`smStepConfirm_sat`), one step of the machine by the kind of frame (`handleAuthSae_cases`)
and the invariant of the tables along every run (`runStation_inv`).
-/

namespace DecoyAuth

variable {ap : Ap} {host : Host} {inp : Input} {sae sae' s : SaeData} {tmp tmp' : SaeTmp}

/-! ## Confirms in the state machine -/

theorem TailKeeps.keepsTables (h : TailKeeps sae sae') : KeepsTables sae sae' :=
  keepsTables_of_tmp_eq h.tmp_eq h.processed

/-- The events of a confirm in the state machine: a key is handed over only from a station that was not accepted, and it
is the one in the instance. -/
def ConfirmEvent (sae : SaeData) (e : Event) : Prop :=
  e.IsReply ∨ e = .pmksaAdd sae.pmk sae.pmkid ∧ sae.state ≠ .accepted

/-- `sae_sm_step` keeps the tables on a confirm, or clears the temporary data. -/
def ConfirmSat (sae : SaeData) (m : ApRun (SaeData × Status)) : Prop :=
  m.Sat (ConfirmEvent sae) (fun q => KeepsTables sae q.1 ∨ q.1.tmp = none) (fun f => ¬f.OnReleased)

theorem confirmInConfirmed_sat (hs : sae.state ≠ .accepted) : ConfirmSat sae (confirmInConfirmed inp sae) := by
  unfold confirmInConfirmed saeAcceptSta
  refine Run.Sat.bind (Q := fun s => KeepsTables sae s) ?_ fun s _ h => Run.Sat.pure (.inl h)
  split
  · exact Run.Sat.pure (keepsTables_of_tmp_eq rfl rfl)
  · refine Run.Sat.bind (Q := fun _ => True) (Run.Sat.emit (.inr ⟨rfl, hs⟩) trivial) fun _ _ _ => ?_
    exact Run.Sat.pure (keepsTables_of_tmp_eq rfl rfl)

theorem confirmInCommitted_sat (hs : sae.state ≠ .accepted) : ConfirmSat sae (confirmInCommitted ap inp sae) := by
  unfold confirmInCommitted
  have hadvance : (confirmAndAdvance ap inp sae).Sat _ _ _ := confirmAndAdvance_sat
  refine Run.Sat.bind ⟨fun e he => .inl (hadvance.event e he), hadvance.value, hadvance.fault⟩ ?_
  rintro ⟨s, ret⟩ _ hkeeps
  dsimp only at hkeeps ⊢
  split
  · exact Run.Sat.pure (.inl hkeeps.keepsTables)
  · have hsat : ConfirmSat s (confirmInConfirmed inp s) := confirmInConfirmed_sat fun h => hs (hkeeps.accepted h)
    refine ⟨fun e he => ?_, fun q hq => ?_, hsat.fault⟩
    · rcases hsat.event e he with h | ⟨h, -⟩
      · exact .inl h
      · exact .inr ⟨by rw [h, hkeeps.pmk, hkeeps.pmkid], hs⟩
    · exact (hsat.value q hq).imp_left hkeeps.keepsTables.trans

theorem clearTempData_cases (sae : SaeData) : sae.clearTempData = sae ∨ sae.clearTempData.tmp = none := by
  unfold SaeData.clearTempData
  split
  · exact .inl rfl
  · exact .inr rfl

theorem confirmInAccepted_sat : ConfirmSat sae (confirmInAccepted ap inp sae) := by
  unfold confirmInAccepted
  rcases h : saeCheckBigSync ap inp sae with ⟨s, big⟩
  obtain ⟨hrel, hfalse, -⟩ := saeCheckBigSync_cases h
  cases big with
  | true => exact Run.Sat.pure (.inl hrel.toKeepsTables)
  | false =>
    cases hfalse rfl
    have hsend : (authSaeSendConfirm ap inp { sae with sync := sae.sync + 1 }).Sat _ _ _ := authSaeSendConfirm_sat
    refine Run.Sat.bind ⟨fun e he => .inl (hsend.event e he), hsend.value, hsend.fault⟩ ?_
    rintro ⟨s, ret⟩ _ hkeeps
    refine Run.Sat.pure ?_
    rcases clearTempData_cases s with hc | hc
    · dsimp only
      rw [hc]
      exact .inl (keepsTables_of_tmp_eq hkeeps.tmp_eq hkeeps.processed)
    · exact .inr hc

theorem smStepConfirm_sat : ConfirmSat sae (smStepConfirm ap inp sae) := by
  unfold smStepConfirm
  split
  · exact Run.Sat.pure (.inl (keepsTables_of_tmp_eq rfl rfl))
  · next hs => exact confirmInCommitted_sat (by rw [hs]; nofun)
  · next hs => exact confirmInConfirmed_sat (by rw [hs]; nofun)
  · exact confirmInAccepted_sat

/-- A station is accepted only with a key handed over. -/
theorem confirmInConfirmed_accepts {q : SaeData × Status} (h : (confirmInConfirmed inp sae).result = .ok q)
    (hs : sae.state ≠ .accepted) (hq : q.1.state = .accepted) :
    Event.pmksaAdd sae.pmk sae.pmkid ∈ (confirmInConfirmed inp sae).log := by
  unfold confirmInConfirmed at h ⊢
  obtain ⟨s, hacc, h⟩ := Run.bind_result_ok.1 h
  cases h
  rw [Run.bind_of_ok hacc]
  unfold saeAcceptSta at hacc ⊢
  split at hacc
  · cases hacc
    exact absurd hq hs
  · next hvlan =>
    rw [if_neg hvlan]
    simp [Run.mem_bind_log]

theorem smStepConfirm_accepts {q : SaeData × Status} (h : (smStepConfirm ap inp sae).result = .ok q)
    (hs : sae.state ≠ .accepted) (hq : q.1.state = .accepted) :
    Event.pmksaAdd sae.pmk sae.pmkid ∈ (smStepConfirm ap inp sae).log := by
  unfold smStepConfirm at h ⊢
  cases hstate : sae.state with
  | nothing =>
    rw [hstate] at h
    cases h
    rw [hstate] at hq
    cases hq
  | accepted => exact absurd hstate hs
  | confirmed =>
    rw [hstate] at h
    exact confirmInConfirmed_accepts h hs hq
  | committed =>
    rw [hstate] at h
    dsimp only [confirmInCommitted] at h ⊢
    obtain ⟨⟨s, ret⟩, hadvance, h⟩ := Run.bind_result_ok.1 h
    have hkeeps : TailKeeps sae s := confirmAndAdvance_sat.value _ hadvance
    have hs' : s.state ≠ .accepted := fun hs' => hs (hkeeps.accepted hs')
    rw [Run.bind_of_ok hadvance]
    dsimp only at h ⊢
    split at h
    · cases h
      exact absurd hq hs'
    · next hret =>
      rw [if_neg hret, List.mem_append, ← hkeeps.pmk, ← hkeeps.pmkid]
      exact .inr (confirmInConfirmed_accepts h hs' hq)

/-! ## One step -/

theorem result_some {m : ApRun SaeData} {sta : Option SaeData}
    (h : (m >>= fun s => (pure (some s) : ApRun (Option SaeData))).result = .ok sta) :
    ∃ s, sta = some s ∧ m.result = .ok s := by
  obtain ⟨s, hs, h⟩ := Run.bind_result_ok.1 h
  cases h
  exact ⟨s, rfl, hs⟩

theorem log_some (m : ApRun SaeData) : (m >>= fun s => (pure (some s) : ApRun (Option SaeData))).log = m.log := by
  cases h : m.result with
  | ok s => simp [Run.bind_of_ok h]
  | error f => simp [Run.bind_of_error h]

theorem openInstance_some {sta : Option SaeData} (h : openInstance ap sta inp = some sae) :
    sta = some sae ∨ sta = none ∧ inp.transaction = 1 ∧ sae = { noPwId := ap.conf.saePwIdInUse = 0 } := by
  unfold openInstance at h
  split at h
  · exact .inl h
  · split at h
    · next hc => cases h; exact .inr ⟨rfl, hc.1, rfl⟩
    · cases h

theorem openInstance_none {sta : Option SaeData} (h : openInstance ap sta inp = none) : sta = none := by
  unfold openInstance at h
  split at h
  · cases h
  · rfl

/-- **One step of the machine**, by the kind of frame: a commit, a confirm, or a frame that leaves the instance alone. -/
theorem handleAuthSae_cases {sta sta' : Option SaeData} (h : (handleAuthSae ap sta inp).result = .ok sta') :
    (∃ sae sae', openInstance ap sta inp = some sae ∧ sta' = some sae' ∧ inp.transaction = 1 ∧
        (handleCommit ap inp sae).result = .ok sae' ∧
        (handleAuthSae ap sta inp).log = (handleCommit ap inp sae).log) ∨
      (∃ sae sae', sta = some sae ∧ sta' = some sae' ∧ inp.transaction = 2 ∧
        (handleConfirm ap inp sae).result = .ok sae' ∧
        (handleAuthSae ap sta inp).log = (handleConfirm ap inp sae).log) ∨
      sta' = sta ∧ (inp.transaction = 2 → sta = none) ∧ ∀ e ∈ (handleAuthSae ap sta inp).log, e.IsReply := by
  unfold handleAuthSae at h ⊢
  cases hopen : openInstance ap sta inp with
  | none =>
    rw [hopen] at h
    cases openInstance_none hopen
    obtain ⟨_, -, h⟩ := Run.bind_result_ok.1 h
    cases h
    refine .inr (.inr ⟨rfl, fun _ => rfl, fun e he => ?_⟩)
    rcases Run.mem_bind_log.1 he with he | ⟨_, -, he⟩
    · exact (sendReply_sat _ _).event e he
    · cases he
  | some sae =>
    rw [hopen] at h
    dsimp only at h ⊢
    split at h
    · next hcommit =>
      obtain ⟨sae', rfl, hs⟩ := result_some h
      rw [if_pos hcommit]
      exact .inl ⟨sae, sae', rfl, rfl, hcommit, hs, log_some _⟩
    · next hcommit =>
      rcases openInstance_some hopen with rfl | ⟨-, htrans, -⟩
      · rw [if_neg hcommit]
        split at h
        · next hconfirm =>
          obtain ⟨sae', rfl, hs⟩ := result_some h
          rw [if_pos hconfirm]
          exact .inr (.inl ⟨sae, sae', rfl, rfl, hconfirm, hs, log_some _⟩)
        · next hconfirm =>
          rw [if_neg hconfirm]
          obtain ⟨_, -, h⟩ := Run.bind_result_ok.1 h
          cases h
          refine .inr (.inr ⟨rfl, fun h => absurd h hconfirm, fun e he => ?_⟩)
          rcases Run.mem_bind_log.1 he with he | ⟨_, -, he⟩
          · exact (sendReply_sat _ _).event e he
          · cases he
      · exact absurd htrans hcommit

/-- The events of a step, which may fault. -/
theorem mem_handleAuthSae_log {sta : Option SaeData} {e : Event} (he : e ∈ (handleAuthSae ap sta inp).log) :
    e.IsReply ∨ (∃ sae, openInstance ap sta inp = some sae ∧ inp.transaction = 1 ∧ e ∈ (handleCommit ap inp sae).log) ∨
      ∃ sae, sta = some sae ∧ inp.transaction = 2 ∧ e ∈ (handleConfirm ap inp sae).log := by
  unfold handleAuthSae at he
  split at he
  · rcases Run.mem_bind_log.1 he with he | ⟨_, -, he⟩
    · exact .inl ((sendReply_sat _ _).event e he)
    · cases he
  · next sae hopen =>
    split at he
    · next htrans =>
      rw [log_some] at he
      exact .inr (.inl ⟨sae, hopen, htrans, he⟩)
    · next htrans =>
      split at he
      · next htrans' =>
        rw [log_some] at he
        rcases openInstance_some hopen with hsta | ⟨-, h, -⟩
        · exact .inr (.inr ⟨sae, hsta, htrans', he⟩)
        · exact absurd h htrans
      · rcases Run.mem_bind_log.1 he with he | ⟨_, -, he⟩
        · exact .inl ((sendReply_sat _ _).event e he)
        · cases he

/-- The faults of a step. -/
theorem handleAuthSae_error {sta : Option SaeData} {f : Fault} (h : (handleAuthSae ap sta inp).result = .error f) :
    (∃ sae, openInstance ap sta inp = some sae ∧ inp.transaction = 1 ∧ (handleCommit ap inp sae).result = .error f) ∨
      ∃ sae, openInstance ap sta inp = some sae ∧ inp.transaction = 2 ∧ (handleConfirm ap inp sae).result = .error f := by
  have hsome : ∀ {m : ApRun SaeData}, (m >>= fun s => (pure (some s) : ApRun (Option SaeData))).result = .error f →
      m.result = .error f := by
    intro m hm
    rcases Run.bind_result_error.1 hm with hm | ⟨_, -, hm⟩
    · exact hm
    · cases hm
  have hreply : ∀ {status : Status} {s : Option SaeData},
      (sendReply inp status [] >>= fun _ => (pure s : ApRun (Option SaeData))).result ≠ .error f := by
    intro status s hm
    rcases Run.bind_result_error.1 hm with hm | ⟨_, -, hm⟩
    · exact (sendReply_sat _ _).fault f hm
    · cases hm
  unfold handleAuthSae at h
  split at h
  · exact absurd h hreply
  · next sae hopen =>
    split at h
    · next htrans => exact .inl ⟨sae, hopen, htrans, hsome h⟩
    · split at h
      · next htrans => exact .inr ⟨sae, hopen, htrans, hsome h⟩
      · exact absurd h hreply

/-! ## Every run -/

theorem handleCommit_inv (hinv : Inv ap.host sae) (h : (handleCommit ap inp sae).result = .ok sae') :
    Inv ap.host sae' := by
  have hgate : Inv ap.host (commitGate ap inp sae).sae := hinv.commitGate
  rcases handleCommit_cases h with ⟨-, rfl, -⟩ | ⟨s, r, status, hstep, hs, -⟩
  · exact hgate
  · rw [hstep] at hgate
    have hstate := commitGate_step_state hstep
    have hcoef := ((smStepCommit_sat hstate).value _ hs).2 hgate.coefficientsEcc
    rcases smStepCommit_cases (commitGate_step_reaches hstep) hgate.coefficientsEcc hgate.sized hgate.holdsGroup hs with
      ⟨hu, -⟩ | ⟨s', tmp, tmp', ok, hp, -⟩
    · exact hgate.of_keyView hu.keyView hcoef
    · exact hgate.processes hp hcoef

theorem Searched.keepsTables {t : SaeTmp} (h : Searched sae tmp s t) (ht : sae.tmp = some tmp) :
    KeepsTables sae { s with tmp := some t } := by
  have hp : s.processed = sae.processed := by rw [h.sae_eq]
  refine ⟨?_, fun hh t' ht' => ?_, fun hc t' ht' es hes => ?_⟩
  · simp only [SaeData.keyView, ht, hp, Option.map_some]
    rw [h.tmp_eq]
    rfl
  · cases ht'
    rw [h.tmp_eq]
    exact ⟨(hh tmp ht).1, (hh tmp ht).2⟩
  · cases ht'
    rw [h.tmp_eq] at hes ⊢
    exact hc tmp ht es hes

/-- The instance with the keys of a found index, whose tables have been freed. -/
theorem Finds.inv {data : Bytes} {left i j : ℕ} {key : KeyEntry} {pwe element : Option EcPoint} {t : SaeTmp}
    (h : Finds host data left i sae tmp s t j key pwe element) (hinv : Inv host sae) (ht : sae.tmp = some tmp) (n : ℕ) :
    Inv host { s with tmp := some t, rc := n } := by
  obtain ⟨-, -, hv, -, rfl, rfl⟩ := h
  refine ⟨fun t' ht' => ?_, fun t' ht' es hes => ?_, fun t' ht' _ => ?_, fun t' ht' es hes => ?_, fun _ t' ht' => ?_,
    fun t' ht' => ?_⟩
  all_goals cases ht'
  · exact hinv.sized tmp ht
  · exact hinv.coefficientsEcc tmp ht es hes
  · refine hinv.keysEcc tmp ht fun hunset => ?_
    have := hv.key_eq
    rw [hunset] at this
    cases this
  · cases hes
  · rfl
  · have hs := hinv.holdsGroup tmp ht
    exact ⟨hs.order, hs.orderLen, hs.primeLen⟩

theorem handleConfirm_inv (hinv : Inv ap.host sae) (h : (handleConfirm ap inp sae).result = .ok sae') :
    Inv ap.host sae' := by
  rcases handleConfirm_cases h with ⟨-, rfl, -⟩ | ⟨tmp, s, t, ht, hloop, rfl, -, -⟩ |
    ⟨tmp, s, t, offset, status, ht, hloop, hs, -, -, -⟩
  · exact hinv
  · exact hinv.keepsTables ((searchEntries_none hloop).1.keepsTables ht)
  · obtain ⟨j, key, pwe, element, hf, -⟩ := searchEntries_some hloop
    have hinv' := hf.inv hinv ht (Bytes.getLe16 inp.body)
    rcases smStepConfirm_sat.value _ hs with hkeeps | hnone
    · exact hinv'.keepsTables hkeeps
    · exact inv_of_tmp_none hnone

/-- The invariant of a station: that of its instance, if it has one. -/
def StaInv (host : Host) (sta : Option SaeData) : Prop := ∀ sae, sta = some sae → Inv host sae

theorem staInv_none : StaInv host none := fun _ h => by cases h

theorem openInstance_inv {sta : Option SaeData} (hinv : StaInv ap.host sta) (h : openInstance ap sta inp = some sae) :
    Inv ap.host sae := by
  rcases openInstance_some h with rfl | ⟨-, -, rfl⟩
  · exact hinv sae rfl
  · exact inv_of_tmp_none rfl

theorem handleAuthSae_inv {sta sta' : Option SaeData} (hinv : StaInv ap.host sta)
    (h : (handleAuthSae ap sta inp).result = .ok sta') : StaInv ap.host sta' := by
  rcases handleAuthSae_cases h with ⟨sae, sae', hopen, rfl, -, hs, -⟩ | ⟨sae, sae', rfl, rfl, -, hs, -⟩ | ⟨rfl, -, -⟩
  · rintro _ ⟨⟩
    exact handleCommit_inv (openInstance_inv hinv hopen) hs
  · rintro _ ⟨⟩
    exact handleConfirm_inv (hinv sae rfl) hs
  · exact hinv

/-- **The invariant holds in every run.** -/
theorem runStation_inv {inputs : List Input} {sta : Option SaeData} (h : (runStation ap inputs).result = .ok sta) :
    StaInv ap.host sta :=
  Run.steps_invariant (J := fun _ sta => StaInv ap.host sta) (C := fun _ _ => True) (l := [])
    (fun _ _ _ _ hinv _ hs => handleAuthSae_inv hinv hs) staInv_none (Run.allSteps_of_forall fun _ _ => trivial) h

end DecoyAuth
