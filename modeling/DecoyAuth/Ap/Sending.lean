import DecoyAuth.Ap.Machine
import DecoyAuth.Sae.KeyTables

/-!
# The functions under the state machine

Triples for what `sae_sm_step` calls: `auth_sae_send_commit`, `auth_sae_send_confirm` and `sae_ap_process_commit`. Sending
a commit keeps the keys; a commit that is sent successfully belongs to an ECC group (`authSaeSendCommit_sat`), because
only such a group gets coefficients.
-/

namespace DecoyAuth

variable {ap : Ap} {inp : Input} {sae sae' : SaeData} {tmp : SaeTmp}

theorem SendKeeps.sized {host : Host} (h : SendKeeps sae sae') (hn : sae.Sized host) : sae'.Sized host := by
  intro tmp' ht'
  have hf := congrArg SaeData.tmp h.forget
  simp only [SaeData.forgetCommit, ht', Option.map_some] at hf
  obtain ⟨tmp, ht, hf⟩ := Option.map_eq_some_iff.1 hf.symm
  rw [numPasswords_of_forgetCommit hf.symm]
  exact hn tmp ht

/-! ## Commits -/

theorem prepareForSend_sat (update : Bool) (status : Status) (pts : List SaePt) (draws : CommitDraws) :
    (prepareForSend ap update status pts draws sae).Sat (fun _ => False)
      (fun r => SendKeeps sae r.1 ∧ (r.2 = true → update = true → usePt ap.conf sae status = false → sae.Sized ap.host →
        r.1.Woven ap.host))
      (fun f => sae.Held → ¬f.OnReleased) := by
  unfold prepareForSend
  split
  · next hu => exact Run.Sat.pure ⟨SendKeeps.refl sae, fun _ hu' => by simp [hu'] at hu⟩
  · split
    · next hpt => exact Run.Sat.pure ⟨saePrepareCommitPt_keeps _ _ _ _, fun _ _ hpt' => by simp [hpt'] at hpt⟩
    · exact (saeApPrepareCommit_sat ap.ownAddr ap.staAddr draws).mono fun r hr => ⟨hr.1, fun hok _ _ => hr.2 hok⟩

theorem noteVlan_cases (vlanId : ℕ) (sae : SaeData) : noteVlan vlanId sae = sae ∨
    ∃ tmp, sae.tmp = some tmp ∧ noteVlan vlanId sae = { sae with tmp := some { tmp with vlanId := vlanId } } := by
  unfold noteVlan
  split
  · cases ht : sae.tmp with
    | none =>
      refine .inl ?_
      rw [Option.map_none, ← ht]
    | some tmp => exact .inr ⟨tmp, rfl, rfl⟩
  · exact .inl rfl

theorem sendKeeps_noteVlan (vlanId : ℕ) (sae : SaeData) : SendKeeps sae (noteVlan vlanId sae) := by
  rcases noteVlan_cases vlanId sae with h | ⟨tmp, ht, h⟩
  · rw [h]
    exact SendKeeps.refl sae
  · rw [h]
    exact sendKeeps_tmp rfl ht rfl (fun hh => ⟨hh.1, hh.2⟩) fun es hes => .inl hes

/-- A call of `sae_ap_write_commit` found the arrays woven. -/
def Event.CommitWoven (host : Host) : Event → Prop
  | .writeCommit group u v elements => Woven host group u v elements
  | _ => True

theorem woven_noteVlan {host : Host} {vlanId : ℕ} (h : sae.Woven host) : (noteVlan vlanId sae).Woven host := by
  rcases noteVlan_cases vlanId sae with hv | ⟨tmp, ht, hv⟩
  · rw [hv]
    exact h
  · rw [hv]
    intro tmp' ht'
    cases ht'
    exact h tmp ht

theorem authBuildSaeCommit_sat (update : Bool) (status : Status) (draws : CommitDraws) :
    (authBuildSaeCommit ap update status draws sae).Sat
      (fun e => (∃ group u v elements, e = .writeCommit group u v elements) ∧
        (update = true → usePt ap.conf sae status = false → sae.Sized ap.host → e.CommitWoven ap.host))
      (fun r => SendKeeps sae r.1 ∧ (r.2.isSome → sae.CoefficientsEcc → sae.Sized ap.host →
        ∃ tmp, r.1.tmp = some tmp ∧ tmp.ec.isSome))
      (fun f => sae.Held → ¬f.OnReleased) := by
  unfold authBuildSaeCommit
  dsimp only
  split
  · exact Run.Sat.pure ⟨SendKeeps.refl sae, nofun⟩
  · next vlanId pts _ =>
    split
    · exact Run.Sat.pure ⟨SendKeeps.refl sae, nofun⟩
    · have hprep : (prepareForSend ap update status pts draws sae).Sat _ _ _ := prepareForSend_sat update status pts draws
      refine Run.Sat.bind ⟨fun e he => (hprep.event e he).elim, hprep.value, hprep.fault⟩ ?_
      rintro ⟨sae₁, ok⟩ _ ⟨hkeeps, hwoven⟩
      dsimp only at hwoven ⊢
      split
      · exact Run.Sat.pure ⟨hkeeps, nofun⟩
      · next hok =>
        have hkeeps₂ := hkeeps.trans (sendKeeps_noteVlan vlanId sae₁)
        have hwrite : (saeApWriteCommit ap.host (saeCommitMaxLen + (((rxPwId sae).map cString).map (3 + ·.length)).getD 0)
          ((rxPwId sae).map cString) (noteVlan vlanId sae₁)).Sat _ _ _ := saeApWriteCommit_sat _ _
        refine ⟨fun e he => ?_, fun r hr => ?_, fun f hf _ => hwrite.fault f hf⟩
        · obtain ⟨tmp, ht, rfl⟩ := hwrite.event e he
          refine ⟨⟨_, _, _, _, rfl⟩, fun hu hpt hn => ?_⟩
          exact woven_noteVlan (hwoven (by simpa using hok) hu hpt hn) tmp ht
        · obtain ⟨hkeeps₃, hlive⟩ := hwrite.value r hr
          refine ⟨hkeeps₂.trans hkeeps₃, fun hsome hc hn => ?_⟩
          obtain ⟨tmp, ht, hlive⟩ := hlive hsome
          obtain ⟨tmp', ht', hf⟩ := hkeeps₃.exists_tmp ht
          have hpos : 0 < tmp.numPasswords := by
            have := hkeeps₂.sized hn tmp ht
            have := ap.host.two_le_passwords
            omega
          obtain ⟨entries, hentries⟩ := hlive hpos
          refine ⟨tmp', ht', ?_⟩
          rw [ec_of_forgetCommit hf]
          exact hkeeps₂.coefficientsEcc hc tmp ht entries hentries

/-- The events of sending a commit, with the arrays woven where they were prepared for it. -/
def CommitEvent (ap : Ap) (inp : Input) (update : Bool) (sae : SaeData) (e : Event) : Prop :=
  ((∃ group u v elements, e = .writeCommit group u v elements) ∨ ∃ status body, e = .reply 1 status body) ∧
    (update = true → usePt ap.conf sae inp.status = false → sae.Sized ap.host → e.CommitWoven ap.host)

theorem authSaeSendCommit_sat (update : Bool) :
    (authSaeSendCommit ap inp update sae).Sat (CommitEvent ap inp update sae)
      (fun r => SendKeeps sae r.1 ∧ (r.2 = .success → sae.CoefficientsEcc → sae.Sized ap.host →
        ∃ tmp, r.1.tmp = some tmp ∧ tmp.ec.isSome))
      (fun f => sae.Held → ¬f.OnReleased) := by
  unfold authSaeSendCommit
  have hbuild : (authBuildSaeCommit ap update inp.status inp.draws sae).Sat _ _ _ := authBuildSaeCommit_sat _ _ _
  refine Run.Sat.bind ⟨fun e he => ⟨.inl (hbuild.event e he).1, (hbuild.event e he).2⟩, hbuild.value, hbuild.fault⟩ ?_
  rintro ⟨sae₁, data⟩ _ ⟨hkeeps, hec⟩
  cases data with
  | none =>
    refine Run.Sat.pure ⟨hkeeps, fun h => ?_⟩
    dsimp only at h
    split at h <;> cases h
  | some data =>
    refine Run.Sat.bind (Q := fun _ => True) (Run.Sat.emit ⟨.inr ⟨_, _, rfl⟩, fun _ _ _ => trivial⟩ trivial) fun _ _ _ => ?_
    exact Run.Sat.pure ⟨hkeeps, fun _ => hec rfl⟩

/-! ## Confirms -/

theorem ownConfirm_error {host : Host} {sc : Bytes} {f : Fault} (h : ownConfirm host sae tmp sc = .error f) :
    ¬f.OnReleased := by
  unfold ownConfirm at h
  rcases except_bind_error h with h | ⟨_, -, h⟩
  · exact not_onReleased_nullArgument h
  rcases except_bind_error h with h | ⟨_, -, h⟩
  · exact not_onReleased_nullArgument h
  split at h
  all_goals
    rcases except_bind_error h with h | ⟨_, -, h⟩
    · exact not_onReleased_nullArgument h
    rcases except_bind_error h with h | ⟨_, -, h⟩
    · exact not_onReleased_nullArgument h
    cases h

/-- What sending a confirm and the transitions after `sae_ap_process_commit` keep. -/
structure TailKeeps (sae sae' : SaeData) : Prop where
  tmp_eq : sae'.tmp = sae.tmp
  processed : sae'.processed = sae.processed
  h2e : sae'.h2e = sae.h2e
  akmp : sae'.akmp = sae.akmp
  peerCommitScalar : sae'.peerCommitScalar = sae.peerCommitScalar
  pmk : sae'.pmk = sae.pmk
  pmkid : sae'.pmkid = sae.pmkid
  accepted : sae'.state = .accepted → sae.state = .accepted

theorem TailKeeps.refl (sae : SaeData) : TailKeeps sae sae := ⟨rfl, rfl, rfl, rfl, rfl, rfl, rfl, id⟩

theorem saeWriteConfirm_ok {host : Host} {data : Option Bytes} (h : saeWriteConfirm host sae = .ok (sae', data)) :
    TailKeeps sae sae' := by
  unfold saeWriteConfirm at h
  split at h
  · cases h
    exact TailKeeps.refl sae
  · obtain ⟨confirm, -, h⟩ := except_bind_ok h
    cases h
    exact ⟨rfl, rfl, rfl, rfl, rfl, rfl, rfl, id⟩

theorem saeWriteConfirm_error {host : Host} {f : Fault} (h : saeWriteConfirm host sae = .error f) : ¬f.OnReleased := by
  unfold saeWriteConfirm at h
  split at h
  · cases h
  · rcases except_bind_error h with h | ⟨_, -, h⟩
    · exact ownConfirm_error h
    · cases h

/-- A frame is given to the driver. -/
def Event.IsReply (e : Event) : Prop := ∃ transaction status body, e = .reply transaction status body

theorem authSaeSendConfirm_sat :
    (authSaeSendConfirm ap inp sae).Sat Event.IsReply (fun r => TailKeeps sae r.1) (fun f => ¬f.OnReleased) := by
  unfold authSaeSendConfirm
  refine Run.Sat.bind (Q := fun r => TailKeeps sae r.1)
    (Run.Sat.lift (fun r hr => saeWriteConfirm_ok hr) fun f hf => saeWriteConfirm_error hf) ?_
  rintro ⟨sae₁, data⟩ _ hkeeps
  cases data with
  | none => exact Run.Sat.pure hkeeps
  | some data =>
    refine Run.Sat.bind (Q := fun _ => True) (Run.Sat.emit ⟨_, _, _, rfl⟩ trivial) fun _ _ _ => ?_
    exact Run.Sat.pure hkeeps

theorem confirmAndAdvance_sat :
    (confirmAndAdvance ap inp sae).Sat Event.IsReply (fun r => TailKeeps sae r.1) (fun f => ¬f.OnReleased) := by
  unfold confirmAndAdvance
  refine authSaeSendConfirm_sat.bind ?_
  rintro ⟨sae₁, ret⟩ _ hkeeps
  dsimp only
  split
  · exact Run.Sat.pure hkeeps
  · refine Run.Sat.pure ⟨hkeeps.tmp_eq, hkeeps.processed, hkeeps.h2e, hkeeps.akmp, hkeeps.peerCommitScalar, hkeeps.pmk,
      hkeeps.pmkid, nofun⟩

end DecoyAuth
