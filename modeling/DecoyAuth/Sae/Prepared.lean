import DecoyAuth.Lib.Dragonfly
import DecoyAuth.Sae.Keys
import DecoyAuth.Sae.PweAgree
import DecoyAuth.Sae.RoundTrip
import DecoyAuth.Sae.Send

/-!
# What a prepared commit is

The instances that `sae_prepare_commit` and `sae_ap_prepare_commit` leave for an ECC group when every step succeeds: the
scalars (`Drawn`), the password elements and the commit elements, and for the access point the coefficients. With the
algebra of the exchange they give the shared secret of either side (`sharedPoint_eq`).
-/

namespace DecoyAuth

variable {host : Host} {sae sae' : SaeData} {tmp tmp' : SaeTmp} {ec : EcGroup}

/-! ## Scalars -/

/-- What `dragonfly_generate_scalar` draws when it succeeds. -/
structure Drawn (order : ℤ) (out : Scalars) : Prop where
  scalar_eq : out.scalar = (out.rand + out.mask) % order
  isScalar : IsScalar order out.scalar

theorem dragonflyGetRand2ToR1_ok {val order : ℤ} (ho : 0 < order) {draw : Option ℕ} {out : ℤ}
    (h : dragonflyGetRand2ToR1 val order draw = (out, true)) : IsScalar order out := by
  cases draw with
  | none => cases h
  | some d =>
    obtain rfl : (d : ℤ) % order = out := congrArg Prod.fst h
    have hne : (d : ℤ) % order ≠ 0 ∧ (d : ℤ) % order ≠ 1 := by
      simpa [dragonflyGetRand2ToR1] using h
    have h0 := Int.emod_nonneg (d : ℤ) ho.ne'
    have hlt := Int.emod_lt_of_pos (d : ℤ) ho
    unfold IsScalar
    omega

/-- A success comes from one round: two scalars whose sum is a scalar. -/
theorem dragonflyGenerateScalar_ok {order : ℤ} (ho : 0 < order) {draws : ℕ → Option ℕ × Option ℕ} :
    ∀ {left i : ℕ} {start out : Scalars}, dragonflyGenerateScalar order draws left i start = (out, true) →
      Drawn order out ∧ IsScalar order out.rand ∧ IsScalar order out.mask
  | 0, _, _, _, h => by cases h
  | left + 1, i, start, out, h => by
    unfold dragonflyGenerateScalar at h
    rcases hr : dragonflyGetRand2ToR1 start.rand order (draws i).1 with ⟨rand, okr⟩
    rcases hm : dragonflyGetRand2ToR1 start.mask order (draws i).2 with ⟨mask, okm⟩
    simp only [hr, hm] at h
    cases okr with
    | false => exact dragonflyGenerateScalar_ok ho h
    | true =>
      cases okm with
      | false => exact dragonflyGenerateScalar_ok ho h
      | true =>
        simp only [Bool.not_true, Bool.false_eq_true, if_false] at h
        split at h
        · exact dragonflyGenerateScalar_ok ho h
        · next hs =>
          cases h
          have hrand := dragonflyGetRand2ToR1_ok ho hr
          have hmask := dragonflyGetRand2ToR1_ok ho hm
          have heq : bnMod (rand + mask) order = (rand + mask) % order :=
            Int.tmod_eq_emod_of_nonneg (add_nonneg hrand.nonneg hmask.nonneg)
          have hlt := Int.emod_lt_of_pos (rand + mask) ho
          have hnn := Int.emod_nonneg (rand + mask) ho.ne'
          rw [heq] at hs
          refine ⟨⟨heq, ?_⟩, hrand, hmask⟩
          unfold IsScalar
          dsimp only
          rw [heq]
          omega

section GenerateScalar

variable {draws : CommitDraws} (ho : tmp.order = ec.order) (h : (generateScalar tmp draws).2 = true)
include ho h

theorem generateScalar_ok : Drawn ec.order (generateScalar tmp draws).1 := by
  have hpos : (0 : ℤ) < ec.order := Int.natCast_pos.2 ec.order_prime.pos
  rw [← ho] at hpos ⊢
  exact (dragonflyGenerateScalar_ok hpos (Prod.ext rfl h)).1

theorem generateScalar_range :
    IsScalar ec.order (generateScalar tmp draws).1.rand ∧ IsScalar ec.order (generateScalar tmp draws).1.mask := by
  have hpos : (0 : ℤ) < ec.order := Int.natCast_pos.2 ec.order_prime.pos
  rw [← ho] at hpos ⊢
  exact (dragonflyGenerateScalar_ok hpos (Prod.ext rfl h)).2

end GenerateScalar

/-! ## The shared secret -/

/-- **The shared point**, from the scalar and the element of a peer that has the same password element. -/
theorem sharedPoint_eq {out : Scalars} (hout : Drawn ec.order out) (pwe : EcPoint) (rand : ℤ) :
    sharedPoint ec.toEcParams pwe out.scalar (commitElementEcc ec.toEcParams pwe out.mask) rand =
      ec.ofPoint ((rand * out.rand) • ec.toPoint pwe) := by
  have hr : ((ec.order : ℕ) : ℤ) • ec.toPoint pwe = 0 := by
    rw [natCast_zsmul]
    exact ec.hasOrder _
  rw [← Dragonfly.secret_element hr rand out.rand out.mask, ← hout.scalar_eq]
  simp only [sharedPoint, commitElementEcc, EcParams.pointMul, EcParams.pointAdd, EcParams.pointInvert,
    EcParams.toPoint_ofPoint]
  rfl

/-! ## The client -/

/-- `sae_derive_commit` for an ECC group. -/
theorem saeDeriveCommit_ecc {draws : CommitDraws} (h : saeDeriveCommit tmp draws = (tmp', true)) (hec : tmp.ec = some ec)
    (ho : tmp.order = ec.order) :
    ∃ out, Drawn ec.order out ∧ tmp' = { tmp with
      saeRand := some out.rand
      ownCommitScalar := some out.scalar
      ownCommitElementEcc := tmp.pweEcc.map fun pwe => commitElementEcc ec.toEcParams pwe out.mask } := by
  unfold saeDeriveCommit at h
  dsimp only at h
  split at h
  · cases h
  · next hok =>
    have hdrawn := generateScalar_ok ho (by simpa using hok)
    split at h
    · next ec' hec' =>
      obtain rfl : ec' = ec := Option.some.inj (hec'.symm.trans hec)
      cases h
      exact ⟨_, hdrawn, rfl⟩
    · next hnone _ => rw [hec] at hnone; cases hnone
    · next hnone _ => rw [hec] at hnone; cases hnone

/-- `sae_prepare_commit` for an ECC group. -/
theorem saePrepareCommit_ecc {addr1 addr2 : MacAddr} {password : Bytes} {draws : CommitDraws}
    (hsel : Selected ec sae tmp) (h : saePrepareCommit host addr1 addr2 password draws sae = (sae', true)) :
    ∃ pwe out, saeDerivePweEcc host.hash ec.toEcParams sae.group addr1 addr2 password (draws.pwe 0) = some pwe ∧
      Drawn ec.order out ∧ sae' = { sae with
        h2e := false
        pk := false
        tmp := some { tmp with
          pweEcc := some pwe
          saeRand := some out.rand
          ownCommitScalar := some out.scalar
          ownCommitElementEcc := some (commitElementEcc ec.toEcParams pwe out.mask) } } := by
  unfold saePrepareCommit at h
  rw [hsel.tmp_eq] at h
  dsimp only at h
  have hdh : (tmp.dh.map fun dh => saeDerivePweFfc host.hash dh sae.group addr1 addr2 password) = none := by
    rw [hsel.dh_eq]
    rfl
  have hec : (tmp.ec.map fun ec => saeDerivePweEcc host.hash ec.toEcParams sae.group addr1 addr2 password
      (draws.pwe 0)) = some (saeDerivePweEcc host.hash ec.toEcParams sae.group addr1 addr2 password (draws.pwe 0)) := by
    rw [hsel.ec_eq]
    rfl
  rw [hdh, hec] at h
  cases hpwe : saeDerivePweEcc host.hash ec.toEcParams sae.group addr1 addr2 password (draws.pwe 0) with
  | none => simp [hpwe] at h
  | some pwe =>
    rw [hpwe, if_neg (by simp)] at h
    rcases hr : saeDeriveCommit { tmp with pweEcc := some pwe } draws with ⟨t, ok⟩
    have h' : (({ sae with
        h2e := false
        pk := false
        tmp := some (saeDeriveCommit { tmp with pweEcc := some pwe } draws).1 } : SaeData),
      (saeDeriveCommit { tmp with pweEcc := some pwe } draws).2) = (sae', true) := h
    rw [hr] at h'
    cases h'
    obtain ⟨out, hdrawn, rfl⟩ := saeDeriveCommit_ecc hr hsel.ec_eq hsel.order_eq
    exact ⟨pwe, out, rfl, hdrawn, rfl⟩

/-! ## The access point -/

theorem valid_commitElementEcc (ec : EcParams) (pwe : EcPoint) (mask : ℤ) : ec.Valid (commitElementEcc ec pwe mask) :=
  EcParams.valid_pointInvert _

section Ap

variable (host) (ec) (group : ℕ) (addr1 addr2 : MacAddr) (draws : CommitDraws) (mask : ℤ)

/-- The points of one index after `sae_ap_prepare_commit`. -/
structure EntryPrepared (tmp : SaeTmp) (j : ℕ) (pwe : EcPoint) : Prop where
  derived : saeDerivePweEcc host.hash ec.toEcParams group addr1 addr2 (host.passwords.getD j []) (draws.pwe j) = some pwe
  pwe_eq : tmp.pweEccs.entry j = some pwe
  element_eq : tmp.ownCommitElementEccs.entry j = some (commitElementEcc ec.toEcParams pwe mask)

/-- The loop of `sae_ap_prepare_commit` has prepared `left` indexes from `i` on. -/
structure EntriesPrepared (left i : ℕ) (tmp tmp' : SaeTmp) : Prop where
  frame : tmp' = { tmp with
    pweEcc := tmp'.pweEcc
    ownCommitElementEcc := tmp'.ownCommitElementEcc
    pweEccs := tmp'.pweEccs
    ownCommitElementEccs := tmp'.ownCommitElementEccs }
  prepared : ∀ j, i ≤ j → j < i + left → ∃ pwe, EntryPrepared host ec group addr1 addr2 draws mask tmp' j pwe
  before : ∀ j, j < i →
    tmp'.pweEccs.entry j = tmp.pweEccs.entry j ∧ tmp'.ownCommitElementEccs.entry j = tmp.ownCommitElementEccs.entry j

variable {host ec group addr1 addr2 draws mask}

theorem prepareEntryEcc_ok {i : ℕ}
    (h : (prepareEntryEcc host addr1 addr2 draws mask ec i sae tmp).result = .ok (sae', tmp', true)) :
    sae' = { sae with h2e := false, pk := false } ∧
      EntriesPrepared host ec sae.group addr1 addr2 draws mask 1 i tmp tmp' := by
  unfold prepareEntryEcc at h
  split at h
  · cases h
  · next pwe hpwe =>
    obtain ⟨pwes, hpwes, h⟩ := Run.bind_result_ok.1 h
    obtain ⟨elements, helements, h⟩ := Run.bind_result_ok.1 h
    cases h
    have hp := Table.entry_write hpwes
    have he := Table.entry_write helements
    rw [clonePoint_valid (saeDerivePweEcc_valid hpwe)] at hp
    rw [clonePoint_valid (valid_commitElementEcc _ _ _)] at he
    refine ⟨rfl, rfl, fun j hj hj' => ?_, fun j hj => ?_⟩
    · obtain rfl : j = i := by omega
      exact ⟨pwe, hpwe, by simp [hp], by simp [he]⟩
    · simp [hp, he, show j ≠ i by omega]

/-- The loop of `sae_ap_prepare_commit` turns hash-to-element off and prepares every index. -/
theorem prepareEntries_ecc : ∀ {left i : ℕ} {sae : SaeData} {tmp : SaeTmp},
    (prepareEntries host addr1 addr2 draws mask left i sae tmp).result = .ok (sae', tmp', true) → tmp.ec = some ec →
      (left = 0 ∧ sae' = sae ∨ sae' = { sae with h2e := false, pk := false }) ∧
        EntriesPrepared host ec sae.group addr1 addr2 draws mask left i tmp tmp'
  | 0, i, sae, tmp, h, _ => by
    cases h
    exact ⟨.inl ⟨rfl, rfl⟩, rfl, fun j hj hj' => by omega, fun _ _ => ⟨rfl, rfl⟩⟩
  | left + 1, i, sae, tmp, h, hec => by
    unfold prepareEntries at h
    obtain ⟨⟨s, t, ok⟩, hentry, hloop⟩ := Run.bind_result_ok.1 h
    cases ok with
    | false => cases hloop
    | true =>
      unfold prepareEntry at hentry
      split at hentry
      · next ec' hec' =>
        obtain rfl : ec = ec' := Option.some.inj (hec.symm.trans hec')
        obtain ⟨rfl, hone⟩ := prepareEntryEcc_ok hentry
        have htec : t.ec = some ec := by rw [hone.frame]; exact hec
        obtain ⟨hsae, hrest⟩ := prepareEntries_ecc hloop htec
        refine ⟨.inr (hsae.elim And.right id), ?_, fun j hj hj' => ?_, fun j hj => ?_⟩
        · rw [hrest.frame, hone.frame]
        · rcases Nat.eq_or_lt_of_le hj with rfl | hj
          · obtain ⟨pwe, hpwe⟩ := hone.prepared i le_rfl (by omega)
            obtain ⟨h1, h2⟩ := hrest.before i (by omega)
            exact ⟨pwe, hpwe.derived, h1.trans hpwe.pwe_eq, h2.trans hpwe.element_eq⟩
          · exact hrest.prepared j hj (by omega)
        · obtain ⟨h1, h2⟩ := hrest.before j (by omega)
          obtain ⟨h3, h4⟩ := hone.before j hj
          exact ⟨h1.trans h3, h2.trans h4⟩
      · next hnone => rw [hec] at hnone; cases hnone

/-- The loop fails only at a password whose element cannot be derived. -/
theorem prepareEntries_derived {ok : Bool} : ∀ {left i : ℕ} {sae : SaeData} {tmp : SaeTmp},
    (prepareEntries host addr1 addr2 draws mask left i sae tmp).result = .ok (sae', tmp', ok) → tmp.ec = some ec →
      (∀ j, i ≤ j → j < i + left → (saeDerivePweEcc host.hash ec.toEcParams sae.group addr1 addr2
        (host.passwords.getD j []) (draws.pwe j)).isSome) → ok = true
  | 0, i, sae, tmp, h, _, _ => by
    cases h
    rfl
  | left + 1, i, sae, tmp, h, hec, hpwe => by
    unfold prepareEntries at h
    obtain ⟨⟨s, t, entryOk⟩, hentry, hloop⟩ := Run.bind_result_ok.1 h
    have hentry' : (prepareEntryEcc host addr1 addr2 draws mask ec i sae tmp).result = .ok (s, t, entryOk) := by
      simpa only [prepareEntry, hec] using hentry
    obtain rfl : entryOk = true := by
      obtain ⟨pwe, hsome⟩ := Option.isSome_iff_exists.1 (hpwe i le_rfl (by omega))
      simp only [prepareEntryEcc, hsome] at hentry'
      obtain ⟨_, -, h⟩ := Run.bind_result_ok.1 hentry'
      obtain ⟨_, -, h⟩ := Run.bind_result_ok.1 h
      cases h
      rfl
    obtain ⟨rfl, hone⟩ := prepareEntryEcc_ok hentry'
    have htec : t.ec = some ec := by rw [hone.frame]; exact hec
    exact prepareEntries_derived hloop htec fun j hj hj' => hpwe j (by omega) (by omega)

theorem storeCoefficients_ecc (h : tmp.ec = some ec) (n : ℕ) (values : List (ℤ × ℤ)) :
    storeCoefficients host n values tmp = { tmp with
      uCoefficients := cryptoWeave ec.toEcParams (hashValues host n) (values.map Prod.fst)
      vCoefficients := cryptoWeave ec.toEcParams (hashValues host n) (values.map Prod.snd) } := by
  unfold storeCoefficients
  split
  · next hnone => rw [h] at hnone; cases hnone
  · next ec' hec' =>
    obtain rfl : ec' = ec := Option.some.inj (hec'.symm.trans h)
    rfl

/-- What a successful `sae_ap_prepare_commit` consists of: the loop over the passwords, the encodings and the
coefficients. -/
theorem saeApPrepareCommit_loops (ht : sae.tmp = some tmp) (hec : tmp.ec = some ec)
    (h : (saeApPrepareCommit host addr1 addr2 draws sae).result = .ok (sae', true)) :
    ∃ s t values, sae' = { s with tmp := some (storeCoefficients host tmp.numPasswords.toNat values t) } ∧
      (tmp.numPasswords.toNat = 0 ∧ s = sae ∨ s = { sae with h2e := false, pk := false }) ∧
      EntriesPrepared host ec sae.group addr1 addr2 draws (generateScalar tmp draws).1.mask tmp.numPasswords.toNat 0
        { tmp with
          saeRand := some (generateScalar tmp draws).1.rand
          ownCommitScalar := some (generateScalar tmp draws).1.scalar } t ∧
      encodeElements t.ec t.ownCommitElementEccs draws tmp.numPasswords.toNat 0 = .ok values := by
  unfold saeApPrepareCommit at h
  rw [ht] at h
  dsimp only at h
  obtain ⟨⟨s, t, ok⟩, hloop, h⟩ := Run.bind_result_ok.1 h
  cases ok with
  | false => cases h
  | true =>
    obtain ⟨values, hvalues, h⟩ := Run.bind_result_ok.1 h
    cases h
    obtain ⟨hs, hentries⟩ := prepareEntries_ecc hloop hec
    exact ⟨s, t, values, rfl, hs, hentries, hvalues⟩

variable (host ec group addr1 addr2 draws)

/-- What `sae_ap_prepare_commit` leaves for an ECC group. -/
structure ApPrepared (tmp tmp' : SaeTmp) (out : Scalars) (values : List (ℤ × ℤ)) : Prop where
  frame : tmp'.forgetCommit = tmp.forgetCommit
  drawn : Drawn ec.order out
  saeRand : tmp'.saeRand = some out.rand
  ownCommitScalar : tmp'.ownCommitScalar = some out.scalar
  prepared : ∀ j < host.passwords.length, ∃ pwe, EntryPrepared host ec group addr1 addr2 draws out.mask tmp' j pwe
  values_length : values.length = host.passwords.length
  encoded : ∀ j (h : j < values.length), ∃ pwe, EntryPrepared host ec group addr1 addr2 draws out.mask tmp' j pwe ∧
    Encode.pointToValues ec.toEcParams (commitElementEcc ec.toEcParams pwe out.mask) (draws.encode j) = some values[j]
  u_eq : tmp'.uCoefficients =
    cryptoWeave ec.toEcParams (hashValues host host.passwords.length) (values.map Prod.fst)
  v_eq : tmp'.vCoefficients =
    cryptoWeave ec.toEcParams (hashValues host host.passwords.length) (values.map Prod.snd)

variable {host ec group addr1 addr2 draws}

theorem saeApPrepareCommit_ecc (hsel : Selected ec sae tmp) (hh2e : sae.h2e = false) (hpk : sae.pk = false)
    (hn : tmp.numPasswords = host.passwords.length) (hscalar : (generateScalar tmp draws).2 = true)
    (h : (saeApPrepareCommit host addr1 addr2 draws sae).result = .ok (sae', true)) :
    ∃ tmp' out values, sae' = { sae with tmp := some tmp' } ∧
      ApPrepared host ec sae.group addr1 addr2 draws tmp tmp' out values := by
  obtain ⟨s, t, values, rfl, hs, hentries, hvalues⟩ := saeApPrepareCommit_loops hsel.tmp_eq hsel.ec_eq h
  obtain rfl : s = sae := by
    rcases hs with ⟨-, rfl⟩ | rfl
    · rfl
    · cases sae
      simp_all
  have hn : tmp.numPasswords.toNat = host.passwords.length := by rw [hn, Int.toNat_natCast]
  rw [hn] at hentries hvalues
  have htec : t.ec = some ec := by rw [hentries.frame]; exact hsel.ec_eq
  obtain ⟨hlen, hall⟩ := encodeElements_ok hvalues
  have hprepared : ∀ j < host.passwords.length, ∃ pwe, EntryPrepared host ec s.group addr1 addr2 draws
      (generateScalar tmp draws).1.mask t j pwe := fun j hj => hentries.prepared j (Nat.zero_le j) (by omega)
  rw [hn, storeCoefficients_ecc htec]
  refine ⟨_, (generateScalar tmp draws).1, values, rfl, ?_, generateScalar_ok hsel.order_eq hscalar, ?_, ?_, ?_, hlen,
    fun j hj => ?_, rfl, rfl⟩
  · rw [hentries.frame]
    rfl
  · rw [hentries.frame]
  · rw [hentries.frame]
  · intro j hj
    obtain ⟨pwe, hpwe⟩ := hprepared j hj
    exact ⟨pwe, hpwe.derived, hpwe.pwe_eq, hpwe.element_eq⟩
  · obtain ⟨pwe, hpwe⟩ := hprepared j (hlen ▸ hj)
    obtain ⟨group, point, hgroup, hentry, hvalue⟩ := hall j hj
    rw [Nat.zero_add] at hentry hvalue
    cases hgroup.symm.trans htec
    cases hentry.symm.trans hpwe.element_eq
    exact ⟨pwe, ⟨hpwe.derived, hpwe.pwe_eq, hpwe.element_eq⟩, hvalue⟩

end Ap

end DecoyAuth
