import DecoyAuth.Ap.Invariant
import DecoyAuth.Ap.Small

/-!
# The memory of the access point

Two questions about a station that sends any frames. Does every call of `sae_ap_write_commit` find the coefficients of the
elements it announces? It does while every commit that reaches the state machine is answered with one prepared for it
(`runStation_commitWoven`). Is a table used after a successful confirm has freed it? It is not while no frame reaches the
functions that read it (`runStation_not_onReleased`). Both conditions are needed.
-/

namespace DecoyAuth

variable {ap : Ap} {inp : Input} {sae sae' s : SaeData} {tmp : SaeTmp}

/-! ## One step -/

theorem Parsed.andThen_success {p : Parsed} {next : SaeData → SaeTmp → Bytes → Parsed}
    (h : (p.andThen next).status = .success) : p.status = .success ∧ p.andThen next = next p.sae p.tmp p.rest := by
  unfold Parsed.andThen at h ⊢
  split at h
  · next hp => exact ⟨hp, if_pos hp⟩
  · next hp => exact absurd h hp

theorem finishCommit_tmp (rest : Bytes) : (finishCommit sae tmp rest).tmp = tmp := by
  unfold finishCommit
  split <;> rfl

/-- Without hash-to-element a commit with a password identifier is not accepted. -/
theorem parseElements_pwId {rest : Bytes} (h : (parseElements false sae tmp rest).status = .success) :
    (parseElements false sae tmp rest).tmp.pwId = none ∧ (parseElements false sae tmp rest).tmp.parsedPwId = none := by
  unfold parseElements at h ⊢
  obtain ⟨h1, e1⟩ := Parsed.andThen_success h
  obtain ⟨h2, e2⟩ := Parsed.andThen_success h1
  obtain ⟨h3, e3⟩ := Parsed.andThen_success h2
  have hid : (saeParsePasswordIdentifier false sae tmp rest).tmp.pwId = none ∧
      (saeParsePasswordIdentifier false sae tmp rest).tmp.parsedPwId = none := by
    unfold saeParsePasswordIdentifier at h3 ⊢
    split at h3
    · next helem =>
      rw [if_pos helem]
      split at h3
      · cases h3
      · next hpw =>
        rw [if_neg hpw]
        exact ⟨by simpa using hpw, rfl⟩
    · simp at h3
      cases h3
  rw [e1, e2, e3, finishCommit_tmp]
  exact hid

theorem saeParseCommit_rxPwId {host : Host} {data : Bytes} {allowed : Option (List ℤ)}
    (h : (saeParseCommit host sae data allowed false).status = .success) :
    rxPwId (saeParseCommit host sae data allowed false).sae = none := by
  unfold saeParseCommit at h ⊢
  split at h
  · cases h
  · next hlen =>
    rw [if_neg hlen]
    generalize saeGroupAllowed host sae allowed (Bytes.getLe16 data) = r at h ⊢
    obtain ⟨s, status⟩ := r
    dsimp only at h ⊢
    split at h
    · next tmp ht =>
      split at h
      · next hp => exact absurd h hp
      · next hp =>
        rw [if_neg hp]
        obtain ⟨h1, h2⟩ := parseElements_pwId h
        simp [rxPwId, h1, h2]
    · next hno =>
      cases h
      cases ht : s.tmp with
      | none => simp [rxPwId, ht]
      | some tmp => exact absurd ht (hno tmp rfl)

theorem Event.IsReply.commitWoven {host : Host} {e : Event} (h : e.IsReply) : e.CommitWoven host := by
  obtain ⟨_, _, _, rfl⟩ := h
  exact trivial

/-- **The events and faults of a commit.** -/
theorem handleCommit_sat (hinv : Inv ap.host sae) :
    (handleCommit ap inp sae).Sat
      (fun e => (∀ s allowReuse, commitGate ap inp sae = .step s allowReuse → allowReuse = false ∧ inp.status = .success) →
        e.CommitWoven ap.host)
      (fun _ => True)
      (fun f => (∀ s allowReuse, commitGate ap inp sae = .step s allowReuse → s.Held ∧ s.KeysHeld) → ¬f.OnReleased) := by
  have hgate : Inv ap.host (commitGate ap inp sae).sae := hinv.commitGate
  unfold handleCommit
  split
  · exact Run.Sat.pure trivial
  · refine Run.Sat.bind (Q := fun _ => True) ?_ fun _ _ _ => Run.Sat.pure trivial
    exact (sendReply_sat _ _).imp (fun _ he _ => he.commitWoven) (fun _ h => h) nofun
  · next s allowReuse hstep =>
    rw [hstep] at hgate
    have hsm : CommitStepSat ap _ s (smStepCommit ap inp allowReuse s) := smStepCommit_sat (commitGate_step_state hstep)
    refine Run.Sat.bind (Q := fun _ => True) ⟨fun e he hprep => (hsm.event e he).2 ?_, fun _ _ => trivial, fun f hf hheld =>
      hsm.fault f hf (hheld s allowReuse hstep).1 (hheld s allowReuse hstep).2⟩ fun r _ _ => ?_
    · obtain ⟨hreuse, hstatus⟩ := hprep s allowReuse hstep
      obtain ⟨rfl, -, hparse⟩ := commitGate_step hstep
      have hh2e : isH2e inp.status = false := by
        rw [hstatus]
        rfl
      rw [hh2e] at hparse hgate ⊢
      exact ⟨hreuse, hstatus, saeParseCommit_rxPwId hparse, hgate.sized⟩
    · refine Run.Sat.bind (Q := fun _ => True) ?_ fun _ _ _ => Run.Sat.pure trivial
      exact (sendReply_sat _ _).imp (fun _ he _ => he.commitWoven) (fun _ h => h) nofun

theorem saeApCheckConfirm_sat {host : Host} {data : Bytes} :
    (saeApCheckConfirm host data sae).Sat (fun e => ∃ ok, e = .checkConfirm ok) (fun _ => True)
      (fun f => sae.Held → sae.KeysHeld → ¬f.OnReleased) := by
  unfold saeApCheckConfirm
  refine Run.Sat.bind (Q := fun _ => True) (Run.Sat.lift (fun _ _ => trivial) fun f hf hheld hkeys => ?_) fun r _ _ => ?_
  · unfold saeApCheckConfirmIe at hf
    split at hf
    · cases hf
      simp [Fault.OnReleased]
    · next tmp ht =>
      rcases except_bind_error hf with hf | ⟨_, -, hf⟩
      · exact searchEntries_error (hheld tmp ht) (hkeys tmp ht) hf
      · cases hf
  · exact Run.Sat.bind (Q := fun _ => True) (Run.Sat.emit ⟨_, rfl⟩ trivial) fun _ _ _ => Run.Sat.pure trivial

/-- **The events and faults of a confirm.** -/
theorem handleConfirm_sat :
    (handleConfirm ap inp sae).Sat (fun e => e.CommitWoven ap.host) (fun _ => True)
      (fun f => (confirmReachesCheck inp sae = true → sae.Held ∧ sae.KeysHeld) → ¬f.OnReleased) := by
  unfold handleConfirm
  split
  · next hreach =>
    refine Run.Sat.bind (Q := fun _ => True) (saeApCheckConfirm_sat.imp ?_ (fun _ h => h) ?_) ?_
    · rintro _ ⟨ok, rfl⟩
      exact trivial
    · intro f hf hheld
      exact hf (hheld hreach).1 (hheld hreach).2
    · rintro ⟨s, ok⟩ _ _
      dsimp only
      split
      · refine Run.Sat.bind (Q := fun _ => True) ?_ fun _ _ _ => Run.Sat.pure trivial
        exact (sendReply_sat _ _).imp (fun _ he => he.commitWoven) (fun _ h => h) nofun
      · refine Run.Sat.bind (Q := fun _ => True) (smStepConfirm_sat.imp ?_ (fun _ _ => trivial) fun f hf _ => hf) ?_
        · rintro e (he | ⟨rfl, -⟩)
          · exact he.commitWoven
          · exact trivial
        · intro r _ _
          refine Run.Sat.bind (Q := fun _ => True) ?_ fun _ _ _ => Run.Sat.pure trivial
          exact (sendReply_sat _ _).imp (fun _ he => he.commitWoven) (fun _ h => h) nofun
  · split
    · refine Run.Sat.bind (Q := fun _ => True) ?_ fun _ _ _ => Run.Sat.pure trivial
      exact (sendReply_sat _ _).imp (fun _ he => he.commitWoven) (fun _ h => h) nofun
    · exact Run.Sat.pure trivial

/-! ## Coefficients -/

/-- A commit that reaches the state machine is answered with a commit prepared for it by `sae_ap_prepare_commit`: it does
not ask for the one sent before, nor for hash-to-element. -/
def preparesCommit (ap : Ap) (sta : Option SaeData) (inp : Input) : Bool :=
  match openInstance ap sta inp with
  | none => true
  | some sae =>
    inp.transaction ≠ 1 ||
      match commitGate ap inp sae with
      | .step _ allowReuse => !allowReuse && inp.status = .success
      | _ => true

theorem preparesCommit_step {sta : Option SaeData} {allowReuse : Bool} (h : preparesCommit ap sta inp = true)
    (hopen : openInstance ap sta inp = some sae) (htrans : inp.transaction = 1)
    (hstep : commitGate ap inp sae = .step s allowReuse) : allowReuse = false ∧ inp.status = .success := by
  simp only [preparesCommit, hopen, hstep, htrans] at h
  simpa using h

theorem handleAuthSae_commitWoven {sta : Option SaeData} (hinv : StaInv ap.host sta)
    (hprep : preparesCommit ap sta inp = true) {e : Event} (he : e ∈ (handleAuthSae ap sta inp).log) :
    e.CommitWoven ap.host := by
  rcases mem_handleAuthSae_log he with he | ⟨sae, hopen, htrans, he⟩ | ⟨sae, -, -, he⟩
  · exact he.commitWoven
  · exact (handleCommit_sat (openInstance_inv hinv hopen)).event e he fun s allowReuse hstep =>
      preparesCommit_step hprep hopen htrans hstep
  · exact handleConfirm_sat.event e he

/-- **Coefficients at hand.** In every run whose commits are answered with commits prepared for them, every call of
`sae_ap_write_commit` finds the coefficients that weave the stored elements. -/
theorem runStation_commitWoven {inputs : List Input}
    (h : Run.AllSteps (handleAuthSae ap) (fun sta inp => preparesCommit ap sta inp = true) none inputs) :
    ∀ e ∈ (runStation ap inputs).log, e.CommitWoven ap.host := by
  have hstep : ∀ sta inp, StaInv ap.host sta → preparesCommit ap sta inp = true →
      (handleAuthSae ap sta inp).Sat (fun e => e.CommitWoven ap.host) (StaInv ap.host) (fun _ => True) :=
    fun sta inp hinv hprep => ⟨fun e he => handleAuthSae_commitWoven hinv hprep he, fun _ hs => handleAuthSae_inv hinv hs,
      fun _ _ => trivial⟩
  exact (Run.Sat.steps hstep staInv_none h).event

theorem runStation_commitWoven_small :
    Small.stateAfter [Small.commit 5 0 2 1] = some .committed ∧
      ∀ e ∈ (runStation Small.ap [Small.commit 5 0 2 1]).log, e.CommitWoven Small.host :=
  ⟨by decide +kernel, runStation_commitWoven ⟨by decide +kernel, fun _ _ => trivial⟩⟩

/-- A second commit for the same group finds the coefficients freed: the first answer freed them and the second is not
prepared. -/
theorem commit_twice_not_commitWoven :
    ¬∀ e ∈ (runStation Small.ap [Small.commit 5 0 2 1, Small.commit 7 0 2 1]).log, e.CommitWoven Small.host := by
  intro h
  have hmem : Event.writeCommit (some Small.group) .released .released (.live [some (.affine 8 8), some (.affine 18 9)]) ∈
      (runStation Small.ap [Small.commit 5 0 2 1, Small.commit 7 0 2 1]).log := by decide +kernel
  obtain ⟨ec, values, -, -, -, hu, -⟩ := h _ hmem
  unfold cryptoWeave at hu
  cases hu

/-! ## Freed tables -/

def Table.isReleased {α : Type} : Table α → Bool
  | .released => true
  | _ => false

/-- A successful confirm has freed the tables of the instance. -/
def SaeData.tablesReleased (sae : SaeData) : Bool :=
  match sae.tmp with
  | none => false
  | some tmp => tmp.keys.isReleased || tmp.pweEccs.isReleased || tmp.ownCommitElementEccs.isReleased

/-- No frame reaches a function that uses freed tables: no commit reaches the state machine and no confirm reaches
`sae_ap_check_confirm` with them. -/
def avoidsReleased (ap : Ap) (sta : Option SaeData) (inp : Input) : Bool :=
  match openInstance ap sta inp with
  | none => true
  | some sae =>
    if inp.transaction = 1 then
      match commitGate ap inp sae with
      | .step s _ => !s.tablesReleased
      | _ => true
    else inp.transaction ≠ 2 || !(confirmReachesCheck inp sae && sae.tablesReleased)

theorem held_of_not_tablesReleased (h : sae.tablesReleased = false) : sae.Held ∧ sae.KeysHeld := by
  have hnot : ∀ {α : Type} {t : Table α}, t.isReleased = false → t ≠ .released := by
    rintro α t ht rfl
    cases ht
  have htmp : ∀ tmp, sae.tmp = some tmp → (tmp.keys.isReleased || tmp.pweEccs.isReleased ||
      tmp.ownCommitElementEccs.isReleased) = false := by
    intro tmp ht
    simpa only [SaeData.tablesReleased, ht] using h
  simp only [Bool.or_eq_false_iff] at htmp
  exact ⟨fun tmp ht => ⟨hnot (htmp tmp ht).1.2, hnot (htmp tmp ht).2⟩, fun tmp ht => hnot (htmp tmp ht).1.1⟩

theorem handleAuthSae_not_onReleased {sta : Option SaeData} (hinv : StaInv ap.host sta)
    (hclear : avoidsReleased ap sta inp = true) {f : Fault} (h : (handleAuthSae ap sta inp).result = .error f) :
    ¬f.OnReleased := by
  rcases handleAuthSae_error h with ⟨sae, hopen, htrans, h⟩ | ⟨sae, hopen, htrans, h⟩
  · refine (handleCommit_sat (openInstance_inv hinv hopen)).fault f h fun s allowReuse hstep => ?_
    simp only [avoidsReleased, hopen, htrans, if_true, hstep] at hclear
    exact held_of_not_tablesReleased (by simpa using hclear)
  · refine handleConfirm_sat.fault f h fun hreach => ?_
    simp only [avoidsReleased, hopen, htrans, hreach] at hclear
    exact held_of_not_tablesReleased (by simpa using hclear)

/-- **No use after free.** In every run in which no frame reaches a function that uses freed tables, no table of keys or
points is used after a successful confirm has freed it. -/
theorem runStation_not_onReleased {inputs : List Input}
    (h : Run.AllSteps (handleAuthSae ap) (fun sta inp => avoidsReleased ap sta inp = true) none inputs) :
    ∀ f, (runStation ap inputs).result = .error f → ¬f.OnReleased := by
  have hstep : ∀ sta inp, StaInv ap.host sta → avoidsReleased ap sta inp = true →
      (handleAuthSae ap sta inp).Sat (fun _ => True) (StaInv ap.host) (fun f => ¬f.OnReleased) :=
    fun sta inp hinv hclear => ⟨fun _ _ => trivial, fun _ hs => handleAuthSae_inv hinv hs, fun f hf =>
      handleAuthSae_not_onReleased hinv hclear hf⟩
  exact (Run.Sat.steps hstep staInv_none h).fault

/-- A successful confirm frees the tables, and a replay of it is dropped. -/
theorem runStation_not_onReleased_small :
    Small.stateAfter [Small.commit 5 0 2 1, Small.confirm 1 3741, Small.confirm 1 3741] = some .accepted ∧ ∀ f,
      (runStation Small.ap [Small.commit 5 0 2 1, Small.confirm 1 3741, Small.confirm 1 3741]).result = .error f →
        ¬f.OnReleased :=
  ⟨by decide +kernel, runStation_not_onReleased (Run.allSteps_of_checkSteps (by decide +kernel))⟩

/-- A confirm with a larger counter is checked against the tables that the first confirm freed. -/
theorem confirm_after_accept_onReleased :
    ¬∀ f, (runStation Small.ap [Small.commit 5 0 2 1, Small.confirm 1 3741, Small.confirm 2 0]).result = .error f →
      ¬f.OnReleased := by
  intro h
  have hrun : (runStation Small.ap [Small.commit 5 0 2 1, Small.confirm 1 3741, Small.confirm 2 0]).faultOf =
      some (.released .keys) := by decide +kernel
  exact h _ (Run.result_of_faultOf hrun) (.inl rfl)

end DecoyAuth
