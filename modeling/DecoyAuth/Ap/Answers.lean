import DecoyAuth.Ap.Sending
import DecoyAuth.Sae.Buffer
import DecoyAuth.Sae.Prepared
import DecoyAuth.Sae.Secrets

/-!
# The answer to a commit

The access point answers a commit before it processes it, so the shared points depend on what the answer is prepared from.
They are a function of the instance and the frame (`answerSecret`), and an answer that was sent leaves them in the instance
(`authSaeSendCommit_apSecret`). Whether an answer can be sent is known before, too (`authSaeSendCommit_of_canAnswer`).
-/

namespace DecoyAuth

variable {ap : Ap} {inp : Input} {sae sae' : SaeData} {tmp tmp' : SaeTmp} {ec : EcGroup} {update reuse : Bool}

/-! ## What the answer is prepared from -/

/-- The password element of an index in the answer. It is the stored one if the elements are reused, and also in an answer
from a PT, which does not touch the array. -/
def answerPwe (ap : Ap) (inp : Input) (reuse : Bool) (sae : SaeData) (tmp : SaeTmp) (ec : EcGroup) (i : ℕ) :
    Option EcPoint :=
  if reuse || usePt ap.conf sae inp.status then tmp.pweEccs.entry i
  else
    saeDerivePweEcc ap.host.hash ec.toEcParams sae.group ap.ownAddr ap.staAddr (ap.host.passwords.getD i [])
      (inp.draws.pwe i)

/-- `sae_rand` of the answer. -/
def answerRand (inp : Input) (reuse : Bool) (tmp : SaeTmp) : Option ℤ :=
  if reuse then tmp.saeRand else some (generateScalar tmp inp.draws).1.rand

/-- The shared point of an index between the commit in the instance and the answer to it. -/
def answerSecret (ap : Ap) (inp : Input) (reuse : Bool) (sae : SaeData) (i : ℕ) : Option EcPoint := do
  let tmp ← sae.tmp
  let ec ← tmp.ec
  return sharedPoint ec.toEcParams (← answerPwe ap inp reuse sae tmp ec i) (← sae.peerCommitScalar)
    (← tmp.peerCommitElementEcc) (← answerRand inp reuse tmp)

/-- No shared point is at infinity. -/
def finiteSecrets (ap : Ap) (inp : Input) (reuse : Bool) (sae : SaeData) : Bool :=
  (List.range ap.host.passwords.length).all fun i => answerSecret ap inp reuse sae i ≠ some .infinity

theorem finiteSecrets_iff : finiteSecrets ap inp reuse sae = true ↔
    ∀ i < ap.host.passwords.length, answerSecret ap inp reuse sae i ≠ some .infinity := by
  simp [finiteSecrets]

/-- The access point can answer with new elements: it has a password for the station and no PT is used, every password
element can be derived, the scalar has the length of the prime, and the driver sends the frame. -/
def canAnswer (ap : Ap) (inp : Input) (sae : SaeData) : Bool :=
  inp.commitSent && (saeGetPassword ap ((rxPwId sae).map cString)).isSome && !usePt ap.conf sae inp.status &&
    match sae.tmp, sae.tmp.bind (·.ec) with
    | some tmp, some ec => (generateScalar tmp inp.draws).1.scalar < 256 ^ tmp.primeLen &&
        (List.range ap.host.passwords.length).all fun i => (answerPwe ap inp false sae tmp ec i).isSome
    | _, _ => false

/-- The instance from which the state machine sends the answer to the commit in `sae`: only flags that the answer sets
itself and the counter of retries have changed. -/
structure SendsFrom (sae s : SaeData) : Prop where
  tmp_eq : s.tmp = sae.tmp
  processed : s.processed = sae.processed
  state : s.state = sae.state
  group : s.group = sae.group
  peerCommitScalar : s.peerCommitScalar = sae.peerCommitScalar

section SendsFrom

variable {s : SaeData} (h : SendsFrom sae s) (hstatus : inp.status = .success ∨ isH2e inp.status = true)
include h

theorem SendsFrom.rxPwId_eq : rxPwId s = rxPwId sae := by rw [rxPwId, h.tmp_eq, rxPwId]

include hstatus

/-- The flags matter for no status with which a commit reaches the state machine. -/
theorem SendsFrom.usePt_eq (conf : Conf) : usePt conf s inp.status = usePt conf sae inp.status := by
  unfold usePt
  rw [h.rxPwId_eq]
  rcases hstatus with hstatus | hstatus <;> simp [hstatus]

theorem SendsFrom.answerPwe_eq (i : ℕ) : answerPwe ap inp reuse s tmp ec i = answerPwe ap inp reuse sae tmp ec i := by
  unfold answerPwe
  rw [h.usePt_eq hstatus, h.group]

theorem SendsFrom.answerSecret_eq (i : ℕ) : answerSecret ap inp reuse s i = answerSecret ap inp reuse sae i := by
  simp only [answerSecret, h.tmp_eq, h.peerCommitScalar, h.answerPwe_eq hstatus]

theorem SendsFrom.canAnswer_eq : canAnswer ap inp s = canAnswer ap inp sae := by
  simp only [canAnswer, h.tmp_eq, h.rxPwId_eq, h.usePt_eq hstatus, h.answerPwe_eq hstatus]

end SendsFrom

/-! ## An answer that was sent -/

/-- What a prepared answer leaves for the shared points. -/
structure HoldsAnswer (ap : Ap) (inp : Input) (reuse : Bool) (sae : SaeData) (tmp : SaeTmp) (ec : EcGroup) (tmp' : SaeTmp) :
    Prop where
  saeRand : tmp'.saeRand = answerRand inp reuse tmp
  pwe : ∀ i < tmp.numPasswords.toNat, tmp'.pweEccs.entry i = answerPwe ap inp reuse sae tmp ec i

theorem SendKeeps.apSecret (hkeeps : SendKeeps sae sae') (ht : sae.tmp = some tmp) (hec : tmp.ec = some ec)
    (ht' : sae'.tmp = some tmp') (h : HoldsAnswer ap inp reuse sae tmp ec tmp') {i : ℕ} (hi : i < tmp.numPasswords.toNat) :
    sae'.apSecret i = answerSecret ap inp reuse sae i := by
  obtain ⟨t, ht'', hf⟩ := hkeeps.exists_tmp ht
  cases ht'.symm.trans ht''
  have hscalar : sae'.peerCommitScalar = sae.peerCommitScalar := (congrArg SaeData.peerCommitScalar hkeeps.forget :)
  have helement : tmp'.peerCommitElementEcc = tmp.peerCommitElementEcc := (congrArg SaeTmp.peerCommitElementEcc hf :)
  rw [apSecret_of_tmp ht' ((ec_of_forgetCommit hf).trans hec), h.pwe i hi, h.saeRand, hscalar, helement]
  simp only [answerSecret, ht, hec, Option.bind_eq_bind, Option.bind_some]

theorem saePrepareCommitPt_holdsAnswer {pts : List SaePt} (ht : sae.tmp = some tmp)
    (hpt : usePt ap.conf sae inp.status = true)
    (h : saePrepareCommitPt ap.host pts ap.ownAddr ap.staAddr inp.draws sae = (sae', true)) :
    ∃ tmp', sae'.tmp = some tmp' ∧ HoldsAnswer ap inp false sae tmp ec tmp' := by
  have hderive : ∀ t : SaeTmp, (saeDeriveCommit t inp.draws).1.saeRand = some (generateScalar t inp.draws).1.rand ∧
      (saeDeriveCommit t inp.draws).1.pweEccs = t.pweEccs := by
    intro t
    unfold saeDeriveCommit
    dsimp only
    split
    · exact ⟨rfl, rfl⟩
    · split <;> exact ⟨rfl, rfl⟩
  -- the element from the PT goes into a field of its own
  have hpwe : ∀ pt, (pweFromPt ap.host.hash pt ap.ownAddr ap.staAddr tmp).1.pweEccs = tmp.pweEccs ∧
      generateScalar (pweFromPt ap.host.hash pt ap.ownAddr ap.staAddr tmp).1 inp.draws = generateScalar tmp inp.draws := by
    intro pt
    cases pt <;> exact ⟨rfl, rfl⟩
  unfold saePrepareCommitPt at h
  rw [ht] at h
  dsimp only at h
  split at h
  · cases h
  · next pt _ =>
    split at h
    · cases h
    · obtain ⟨rfl, -⟩ := Prod.mk.inj h
      obtain ⟨hrand, heccs⟩ := hderive (pweFromPt ap.host.hash pt ap.ownAddr ap.staAddr tmp).1
      refine ⟨_, rfl, ?_, fun i _ => ?_⟩
      · rw [hrand, (hpwe pt).2]
        rfl
      · rw [heccs, (hpwe pt).1, answerPwe, if_pos (by simp [hpt])]

theorem saeApPrepareCommit_holdsAnswer (ht : sae.tmp = some tmp) (hec : tmp.ec = some ec)
    (hpt : usePt ap.conf sae inp.status = false)
    (h : (saeApPrepareCommit ap.host ap.ownAddr ap.staAddr inp.draws sae).result = .ok (sae', true)) :
    ∃ tmp', sae'.tmp = some tmp' ∧ HoldsAnswer ap inp false sae tmp ec tmp' := by
  obtain ⟨s, t, values, rfl, -, hentries, -⟩ := saeApPrepareCommit_loops ht hec h
  have htec : t.ec = some ec := by rw [hentries.frame]; exact hec
  rw [storeCoefficients_ecc htec]
  refine ⟨_, rfl, ?_, fun i hi => ?_⟩
  · dsimp only
    rw [hentries.frame]
    rfl
  · obtain ⟨pwe, hentry⟩ := hentries.prepared i (Nat.zero_le i) (by omega)
    rw [answerPwe, if_neg (by simp [hpt]), hentry.derived]
    exact hentry.pwe_eq

theorem prepareForSend_holdsAnswer {pts : List SaePt} (ht : sae.tmp = some tmp) (hec : tmp.ec = some ec)
    (h : (prepareForSend ap update inp.status pts inp.draws sae).result = .ok (sae', true)) :
    ∃ tmp', sae'.tmp = some tmp' ∧ HoldsAnswer ap inp (!update) sae tmp ec tmp' := by
  unfold prepareForSend at h
  cases update with
  | false =>
    cases h
    exact ⟨tmp, ht, rfl, fun _ _ => rfl⟩
  | true =>
    cases hpt : usePt ap.conf sae inp.status with
    | true =>
      rw [hpt] at h
      exact saePrepareCommitPt_holdsAnswer ht hpt (Except.ok.inj h)
    | false =>
      rw [hpt] at h
      exact saeApPrepareCommit_holdsAnswer ht hec hpt h

theorem apSecret_noteVlan (vlanId : ℕ) : (noteVlan vlanId sae).apSecret = sae.apSecret := by
  rcases noteVlan_cases vlanId sae with h | ⟨tmp, ht, h⟩
  · rw [h]
  · rw [h]
    exact apSecret_congr rfl (by rw [ht]; rfl)

theorem saeApWriteCommit_apSecret {host : Host} {size : ℕ} {identifier : Option Bytes} {data : Bytes}
    (h : (saeApWriteCommit host size identifier sae).result = .ok (sae', some data)) : sae'.apSecret = sae.apSecret := by
  unfold saeApWriteCommit at h
  split at h
  · cases h
  · next tmp ht =>
    obtain ⟨_, -, h⟩ := Run.bind_result_ok.1 h
    dsimp only at h
    split at h
    · cases h
    · obtain ⟨_, -, h⟩ := Run.bind_result_ok.1 h
      obtain ⟨bufU, -, h⟩ := Run.bind_result_ok.1 h
      cases bufU with
      | none => cases h
      | some bufU =>
        obtain ⟨bufV, -, h⟩ := Run.bind_result_ok.1 h
        cases bufV with
        | none => cases h
        | some bufV =>
          obtain ⟨_, -, h⟩ := Run.bind_result_ok.1 h
          cases h
          refine apSecret_congr ?_ (by rw [ht]; rfl)
          unfold SaeData.noteAkmSuite
          split <;> rfl

/-- **The shared points after the answer**, as they are known before it. -/
theorem authSaeSendCommit_apSecret (ht : sae.tmp = some tmp) (hec : tmp.ec = some ec)
    (h : (authSaeSendCommit ap inp update sae).result = .ok (sae', .success)) {i : ℕ} (hi : i < tmp.numPasswords.toNat) :
    sae'.apSecret i = answerSecret ap inp (!update) sae i := by
  unfold authSaeSendCommit at h
  obtain ⟨⟨s, data⟩, hbuild, h⟩ := Run.bind_result_ok.1 h
  cases data with
  | none =>
    dsimp only at h
    split at h <;> cases h
  | some data =>
    obtain ⟨_, -, h⟩ := Run.bind_result_ok.1 h
    obtain ⟨rfl, -⟩ := Prod.mk.inj (Except.ok.inj h)
    unfold authBuildSaeCommit at hbuild
    dsimp only at hbuild
    split at hbuild
    · cases hbuild
    · next vlanId pts _ =>
      split at hbuild
      · cases hbuild
      · obtain ⟨⟨s₁, ok⟩, hprep, hbuild⟩ := Run.bind_result_ok.1 hbuild
        cases ok with
        | false => cases hbuild
        | true =>
          have hkeeps : SendKeeps sae s₁ := ((prepareForSend_sat update inp.status pts inp.draws).value _ hprep).1
          obtain ⟨tmp', ht', hanswer⟩ := prepareForSend_holdsAnswer ht hec hprep
          rw [saeApWriteCommit_apSecret hbuild, apSecret_noteVlan]
          exact hkeeps.apSecret ht hec ht' hanswer hi

/-! ## An answer that can be sent -/

/-- What `canAnswer` asks of the instance. -/
theorem canAnswer_iff : canAnswer ap inp sae = true ↔ inp.commitSent = true ∧
    (saeGetPassword ap ((rxPwId sae).map cString)).isSome ∧ usePt ap.conf sae inp.status = false ∧
    ∃ tmp ec, sae.tmp = some tmp ∧ tmp.ec = some ec ∧ (generateScalar tmp inp.draws).1.scalar < 256 ^ tmp.primeLen ∧
      ∀ i < ap.host.passwords.length, (answerPwe ap inp false sae tmp ec i).isSome := by
  unfold canAnswer
  cases ht : sae.tmp with
  | none => simp
  | some tmp =>
    cases hec : tmp.ec with
    | none => simp [hec]
    | some ec => simp [hec, and_assoc]

/-- `sae_ap_prepare_commit` succeeds if every password element can be derived. -/
theorem saeApPrepareCommit_of_derived {ok : Bool} (ht : sae.tmp = some tmp) (hec : tmp.ec = some ec)
    (hn : tmp.numPasswords = ap.host.passwords.length) (hpt : usePt ap.conf sae inp.status = false)
    (hpwe : ∀ i < ap.host.passwords.length, (answerPwe ap inp false sae tmp ec i).isSome)
    (h : (saeApPrepareCommit ap.host ap.ownAddr ap.staAddr inp.draws sae).result = .ok (sae', ok)) : ok = true := by
  unfold saeApPrepareCommit at h
  rw [ht] at h
  dsimp only at h
  obtain ⟨⟨s, t, loopOk⟩, hloop, h⟩ := Run.bind_result_ok.1 h
  have htrue : loopOk = true := by
    refine prepareEntries_derived hloop hec fun j _ hj => ?_
    have := hpwe j (by omega)
    rwa [answerPwe, if_neg (by simp [hpt])] at this
  rw [htrue] at h
  obtain ⟨_, -, h⟩ := Run.bind_result_ok.1 h
  cases h
  rfl

/-- A prepared commit has the form in which it is written. -/
theorem saeApPrepareCommit_filled {host : Host} {addr1 addr2 : MacAddr} {draws : CommitDraws} (ht : sae.tmp = some tmp)
    (hec : tmp.ec = some ec) (hn : tmp.numPasswords = host.passwords.length) (hg : tmp.HoldsGroup)
    (hlt : (generateScalar tmp draws).1.scalar < 256 ^ tmp.primeLen)
    (h : (saeApPrepareCommit host addr1 addr2 draws sae).result = .ok (sae', true)) :
    ∃ tmp' u v, Filled sae' tmp' (generateScalar tmp draws).1.scalar u v := by
  obtain ⟨s, t, values, rfl, hs, hentries, -⟩ := saeApPrepareCommit_loops ht hec h
  have hnum : tmp.numPasswords.toNat = host.passwords.length := by rw [hn, Int.toNat_natCast]
  have hh2e : s.h2e = false := by
    have := host.two_le_passwords
    rcases hs with ⟨hzero, -⟩ | rfl
    · omega
    · rfl
  have htec : t.ec = some ec := by rw [hentries.frame]; exact hec
  have hscalar : t.ownCommitScalar = some (generateScalar tmp draws).1.scalar := by rw [hentries.frame]
  have hcount : t.numPasswords = host.passwords.length := by rw [hentries.frame]; exact hn
  have hprime : t.primeLen = tmp.primeLen := by rw [hentries.frame]
  have hlen : ∀ ys, (wovenCoefficients ec.toEcParams (hashValues host host.passwords.length) ys).length =
      host.passwords.length := by
    intro ys
    rw [length_wovenCoefficients, hashValues, List.length_map, List.length_range]
  have hfits : ∀ ys, ∀ c ∈ wovenCoefficients ec.toEcParams (hashValues host host.passwords.length) ys,
      c < 256 ^ t.primeLen := by
    intro ys c hc
    rw [hprime, hg.primeLen ec hec]
    exact lt_pow_numBytes_of_lt (wovenCoefficients_range hc).2
  rw [hnum, storeCoefficients_ecc htec]
  exact ⟨_, wovenCoefficients ec.toEcParams (hashValues host host.passwords.length) (values.map Prod.fst),
    wovenCoefficients ec.toEcParams (hashValues host host.passwords.length) (values.map Prod.snd), rfl, hscalar,
    hcount.trans (congrArg Nat.cast (hlen _).symm), (hlen _).trans (hlen _).symm, rfl, rfl, hprime ▸ hlt, hfits _, hfits _,
    hh2e⟩

theorem Filled.noteVlan {scalar : ℤ} {u v : List ℤ} (h : Filled sae tmp scalar u v) (vlanId : ℕ) :
    ∃ tmp', Filled (DecoyAuth.noteVlan vlanId sae) tmp' scalar u v := by
  rcases noteVlan_cases vlanId sae with hv | ⟨t, ht, hv⟩
  · rw [hv]
    exact ⟨tmp, h⟩
  · cases h.tmp_eq.symm.trans ht
    rw [hv]
    exact ⟨_, rfl, h.scalar_eq, h.count_eq, h.length_eq, h.u_eq, h.v_eq, h.scalar_lt, h.u_lt, h.v_lt, h.h2e⟩

/-- **An answer that can be sent is sent**, unless a step on the way does not return. -/
theorem authSaeSendCommit_of_canAnswer {r : SaeData × Status} (hn : sae.Sized ap.host)
    (hg : ∀ tmp, sae.tmp = some tmp → tmp.HoldsGroup) (hcan : canAnswer ap inp sae = true)
    (h : (authSaeSendCommit ap inp true sae).result = .ok r) : r.2 = .success := by
  obtain ⟨hsent, hpassword, hpt, tmp, ec, ht, hec, hlt, hpwe⟩ := canAnswer_iff.1 hcan
  obtain ⟨⟨vlanId, pts⟩, hpassword⟩ := Option.isSome_iff_exists.1 hpassword
  obtain ⟨⟨s, data⟩, hbuild, h⟩ := Run.bind_result_ok.1 h
  simp only [authBuildSaeCommit, hpassword, hpt, Bool.false_eq_true, false_and, if_false] at hbuild
  obtain ⟨⟨s₁, ok⟩, hprep, hbuild⟩ := Run.bind_result_ok.1 hbuild
  simp only [prepareForSend, hpt, Bool.not_true, Bool.false_eq_true, if_false] at hprep
  obtain rfl := saeApPrepareCommit_of_derived ht hec (hn tmp ht) hpt hpwe hprep
  obtain ⟨_, u, v, hfilled⟩ := saeApPrepareCommit_filled ht hec (hn tmp ht) (hg tmp ht) hlt hprep
  obtain ⟨tmp', hfilled⟩ := hfilled.noteVlan vlanId
  simp only [Bool.not_true, Bool.false_eq_true, if_false, hfilled.write_result] at hbuild
  split at hbuild
  · cases hbuild
    obtain ⟨_, -, h⟩ := Run.bind_result_ok.1 h
    rw [← Except.ok.inj h, if_pos hsent]
  · cases hbuild

end DecoyAuth
