import DecoyAuth.Sae.Frames

/-!
# What sending a commit does

`forgetCommit` erases the fields that preparing and writing a commit change. The triples of the two functions of the
access point, `saeApPrepareCommit_sat` and `saeApWriteCommit_sat`, say that the rest is as before, that a prepared commit
is `Woven`, and that the arrays of points are not followed after they were freed unless they were freed before.
-/

namespace DecoyAuth

variable {host : Host} {sae sae' : SaeData} {tmp tmp' : SaeTmp}

/-- The temporary data without what sending a commit can change. -/
def SaeTmp.forgetCommit (tmp : SaeTmp) : SaeTmp :=
  { tmp with
    saeRand := none
    ownCommitScalar := none
    ownCommitElementFfc := none
    ownCommitElementEcc := none
    ownCommitElementEccs := .unset
    pweEcc := none
    pweEccs := .unset
    pweFfc := none
    uCoefficients := .unset
    vCoefficients := .unset
    ownRejectedGroups := none
    ownAddrHigher := false
    vlanId := 0 }

/-- The instance without what sending a commit can change. -/
def SaeData.forgetCommit (sae : SaeData) : SaeData :=
  { sae with
    h2e := false
    pk := false
    ownAkmSuiteSelector := 0
    tmp := sae.tmp.map SaeTmp.forgetCommit }

theorem ec_of_forgetCommit (h : tmp'.forgetCommit = tmp.forgetCommit) : tmp'.ec = tmp.ec := (congrArg SaeTmp.ec h :)

theorem numPasswords_of_forgetCommit (h : tmp'.forgetCommit = tmp.forgetCommit) :
    tmp'.numPasswords = tmp.numPasswords := (congrArg SaeTmp.numPasswords h :)

/-- The arrays of points have not been freed. -/
structure SaeTmp.Held (tmp : SaeTmp) : Prop where
  pweEccs : tmp.pweEccs ≠ .released
  ownCommitElementEccs : tmp.ownCommitElementEccs ≠ .released

/-- A use of a table that was freed after a successful confirm. -/
def Fault.OnReleased (f : Fault) : Prop :=
  f = .released .keys ∨ f = .released .pweEccs ∨ f = .released .ownCommitElementEccs

instance (f : Fault) : Decidable f.OnReleased := by unfold Fault.OnReleased; infer_instance

theorem not_onReleased_of_unset_or_outOfBounds {f : Fault} {id : TableId} (h : f = .unset id ∨ f = .outOfBounds id) :
    ¬f.OnReleased := by
  rcases h with rfl | rfl <;> simp [Fault.OnReleased]

/-- What preparing a commit keeps of the temporary data. -/
structure TmpKeeps (tmp tmp' : SaeTmp) : Prop where
  forget : tmp'.forgetCommit = tmp.forgetCommit
  uCoefficients : tmp'.uCoefficients = tmp.uCoefficients
  held : tmp.Held → tmp'.Held

theorem TmpKeeps.trans {a b c : SaeTmp} (h : TmpKeeps a b) (h' : TmpKeeps b c) : TmpKeeps a c :=
  ⟨h'.forget.trans h.forget, h'.uCoefficients.trans h.uCoefficients, fun hh => h'.held (h.held hh)⟩

/-- What the loop of `sae_ap_prepare_commit` keeps. -/
structure PrepareKeeps (sae : SaeData) (tmp : SaeTmp) (r : SaeData × SaeTmp × Bool) : Prop where
  sae_eq : r.1.forgetCommit = sae.forgetCommit
  keeps : TmpKeeps tmp r.2.1

theorem PrepareKeeps.refl (ok : Bool) : PrepareKeeps sae tmp (sae, tmp, ok) := ⟨rfl, rfl, rfl, id⟩

theorem PrepareKeeps.trans {r r' : SaeData × SaeTmp × Bool} (h : PrepareKeeps sae tmp r)
    (h' : PrepareKeeps r.1 r.2.1 r') : PrepareKeeps sae tmp r' :=
  ⟨h'.sae_eq.trans h.sae_eq, h.keeps.trans h'.keeps⟩

/-! ## Preparing -/

section Prepare

variable (host) (addr1 addr2 : MacAddr) (draws : CommitDraws) (mask : ℤ)

/-- The loop of `sae_ap_prepare_commit` and its body report no event, and follow no dangling pointer if none is there. -/
def PrepareSat (m : ApRun (SaeData × SaeTmp × Bool)) (sae : SaeData) (tmp : SaeTmp) : Prop :=
  m.Sat (fun _ => False) (PrepareKeeps sae tmp) (fun f => tmp.Held → ¬f.OnReleased)

theorem writeBoth_sat {pwe element : Option EcPoint} {i : ℕ} {f : Table EcPoint → Table EcPoint → SaeTmp}
    (hf : ∀ a b, (f a b).pweEccs = a ∧ (f a b).ownCommitElementEccs = b ∧ (f a b).forgetCommit = tmp.forgetCommit ∧
      (f a b).uCoefficients = tmp.uCoefficients) (hs : sae'.forgetCommit = sae.forgetCommit) :
    PrepareSat (do
      let pweEccs ← Run.lift (tmp.pweEccs.write .pweEccs i pwe)
      let elements ← Run.lift (tmp.ownCommitElementEccs.write .ownCommitElementEccs i element)
      return (sae', f pweEccs elements, true)) sae tmp := by
  refine Run.Sat.bind (Q := fun a => tmp.pweEccs.write .pweEccs i pwe = .ok a) (Run.Sat.lift (fun _ h => h) ?_) ?_
  · intro e he hh
    exact not_onReleased_of_unset_or_outOfBounds (Table.write_error he hh.pweEccs)
  · intro a _ ha
    refine Run.Sat.bind (Q := fun b => tmp.ownCommitElementEccs.write .ownCommitElementEccs i element = .ok b)
      (Run.Sat.lift (fun _ h => h) ?_) ?_
    · intro e he hh
      exact not_onReleased_of_unset_or_outOfBounds (Table.write_error he hh.ownCommitElementEccs)
    · intro b _ hb
      obtain ⟨as, -, -, rfl⟩ := Table.write_ok ha
      obtain ⟨bs, -, -, rfl⟩ := Table.write_ok hb
      obtain ⟨h1, h2, h3, h4⟩ := hf (.live (as.set i pwe)) (.live (bs.set i element))
      exact Run.Sat.pure ⟨hs, h3, h4, fun _ => ⟨by rw [h1]; nofun, by rw [h2]; nofun⟩⟩

theorem prepareEntryEcc_sat (ec : EcGroup) (i : ℕ) :
    PrepareSat (prepareEntryEcc host addr1 addr2 draws mask ec i sae tmp) sae tmp := by
  unfold prepareEntryEcc
  split
  · exact Run.Sat.pure (PrepareKeeps.refl false)
  · exact writeBoth_sat (fun _ _ => ⟨rfl, rfl, rfl, rfl⟩) rfl

theorem prepareEntryFfc_sat (i : ℕ) :
    PrepareSat (prepareEntryFfc host addr1 addr2 mask i sae tmp) sae tmp := by
  unfold prepareEntryFfc
  dsimp only
  split
  · exact Run.Sat.pure ⟨rfl, rfl, rfl, fun h => ⟨h.pweEccs, h.ownCommitElementEccs⟩⟩
  · exact writeBoth_sat (fun _ _ => ⟨rfl, rfl, rfl, rfl⟩) rfl

theorem prepareEntry_sat (i : ℕ) : PrepareSat (prepareEntry host addr1 addr2 draws mask i sae tmp) sae tmp := by
  unfold prepareEntry
  split
  · exact prepareEntryEcc_sat host addr1 addr2 draws mask _ i
  · exact prepareEntryFfc_sat host addr1 addr2 mask i

theorem prepareEntries_sat : ∀ (left i : ℕ) (sae : SaeData) (tmp : SaeTmp),
    PrepareSat (prepareEntries host addr1 addr2 draws mask left i sae tmp) sae tmp
  | 0, _, _, _ => Run.Sat.pure (PrepareKeeps.refl true)
  | left + 1, i, sae, tmp => by
    unfold prepareEntries
    refine (prepareEntry_sat host addr1 addr2 draws mask i).bind ?_
    rintro ⟨sae', tmp', ok⟩ _ h
    dsimp only
    split
    · exact Run.Sat.pure ⟨h.sae_eq, h.keeps⟩
    · have ih := prepareEntries_sat left (i + 1) sae' tmp'
      exact ⟨ih.event, fun r hr => h.trans (ih.value r hr), fun f hf hh => ih.fault f hf (h.keeps.held hh)⟩

end Prepare

theorem encodeElements_ok {ec : Option EcGroup} {elements : Table EcPoint} {draws : CommitDraws} :
    ∀ {left i : ℕ} {values : List (ℤ × ℤ)}, encodeElements ec elements draws left i = .ok values →
      values.length = left ∧ ∀ k (h : k < values.length), ∃ group point, ec = some group ∧
        elements.entry (i + k) = some point ∧
        Encode.pointToValues group.toEcParams point (draws.encode (i + k)) = some values[k]
  | 0, _, _, h => by
    cases h
    exact ⟨rfl, fun k hk => absurd hk (Nat.not_lt_zero k)⟩
  | left + 1, i, values, h => by
    unfold encodeElements at h
    obtain ⟨element, hslot, h⟩ := except_bind_ok h
    cases ec with
    | none => cases h
    | some group =>
      dsimp only at h
      split at h
      · cases h
      · next first hfirst =>
        obtain ⟨others, hothers, h⟩ := except_bind_ok h
        cases h
        obtain ⟨point, rfl, hpoint⟩ := Option.bind_eq_some_iff.1 hfirst
        obtain ⟨hlen, hall⟩ := encodeElements_ok hothers
        refine ⟨by simp [hlen], fun k hk => ?_⟩
        cases k with
        | zero => exact ⟨group, point, rfl, Table.slot_ok hslot, hpoint⟩
        | succ k =>
          have := hall k (by simpa using hk)
          rwa [Nat.add_right_comm] at this

theorem encodeElements_error {ec : Option EcGroup} {elements : Table EcPoint} {draws : CommitDraws} {f : Fault}
    (ht : elements ≠ .released) : ∀ {left i : ℕ}, encodeElements ec elements draws left i = .error f → ¬f.OnReleased
  | 0, _, h => by cases h
  | left + 1, i, h => by
    unfold encodeElements at h
    rcases except_bind_error h with h | ⟨element, -, h⟩
    · exact not_onReleased_of_unset_or_outOfBounds (Table.slot_error h ht)
    · split at h
      · cases h; simp [Fault.OnReleased]
      · split at h
        · cases h; simp [Fault.OnReleased]
        · rcases except_bind_error h with h | ⟨_, -, h⟩
          · exact encodeElements_error ht h
          · cases h

/-- The two arrays hold the coefficients that weave the elements in the group of the instance: the ordinates are encodings
of the elements, one for each password, and the abscissae are the hashes of the passwords. -/
def Woven (host : Host) (group : Option EcGroup) (u v : Table ℤ) (elements : Table EcPoint) : Prop :=
  ∃ (ec : EcGroup) (values : List (ℤ × ℤ)), group = some ec ∧ values.length = host.passwords.length ∧
    (∀ i (h : i < values.length), ∃ point draws, elements.entry i = some point ∧
      Encode.pointToValues ec.toEcParams point draws = some values[i]) ∧
    u = cryptoWeave ec.toEcParams (hashValues host host.passwords.length) (values.map Prod.fst) ∧
    v = cryptoWeave ec.toEcParams (hashValues host host.passwords.length) (values.map Prod.snd)

/-! ## Instances between the steps of a send -/

/-- The arrays of points have not been freed. -/
def SaeData.Held (sae : SaeData) : Prop := ∀ tmp, sae.tmp = some tmp → tmp.Held

/-- Only an instance with an ECC group has coefficients. -/
def SaeData.CoefficientsEcc (sae : SaeData) : Prop :=
  ∀ tmp, sae.tmp = some tmp → ∀ entries, tmp.uCoefficients = .live entries → tmp.ec.isSome

/-- The number of passwords of the instance is that of the host. -/
def SaeData.Sized (host : Host) (sae : SaeData) : Prop :=
  ∀ tmp, sae.tmp = some tmp → tmp.numPasswords = host.passwords.length

/-- The instance holds the coefficients of its elements. -/
def SaeData.Woven (host : Host) (sae : SaeData) : Prop :=
  ∀ tmp, sae.tmp = some tmp → DecoyAuth.Woven host tmp.ec tmp.uCoefficients tmp.vCoefficients tmp.ownCommitElementEccs

/-- What sending a commit keeps. -/
structure SendKeeps (sae sae' : SaeData) : Prop where
  forget : sae'.forgetCommit = sae.forgetCommit
  held : sae.Held → sae'.Held
  coefficientsEcc : sae.CoefficientsEcc → sae'.CoefficientsEcc

theorem SendKeeps.refl (sae : SaeData) : SendKeeps sae sae := ⟨rfl, id, id⟩

theorem SendKeeps.trans {a b c : SaeData} (h : SendKeeps a b) (h' : SendKeeps b c) : SendKeeps a c :=
  ⟨h'.forget.trans h.forget, fun hh => h'.held (h.held hh), fun hh => h'.coefficientsEcc (h.coefficientsEcc hh)⟩

/-- The fields of the temporary data that sending a commit does not change. -/
theorem SendKeeps.exists_tmp (h : SendKeeps sae sae') (ht : sae.tmp = some tmp) :
    ∃ tmp', sae'.tmp = some tmp' ∧ tmp'.forgetCommit = tmp.forgetCommit := by
  have hf := congrArg SaeData.tmp h.forget
  simp only [SaeData.forgetCommit, ht, Option.map_some] at hf
  exact Option.map_eq_some_iff.1 hf

/-- Changes of the temporary data that sending a commit makes. -/
theorem sendKeeps_tmp (hs : sae'.forgetCommit = sae.forgetCommit) (ht : sae.tmp = some tmp)
    (hf : tmp'.forgetCommit = tmp.forgetCommit) (hh : tmp.Held → tmp'.Held)
    (hc : ∀ es, tmp'.uCoefficients = .live es → tmp.uCoefficients = .live es ∨ tmp'.ec.isSome) :
    SendKeeps sae { sae' with tmp := some tmp' } where
  forget := by
    simp only [SaeData.forgetCommit, SaeData.mk.injEq, Option.map_some, ht, hf, true_and] at hs ⊢
    tauto
  held h t h' := by
    cases h'
    exact hh (h tmp ht)
  coefficientsEcc h t h' es hes := by
    cases h'
    rcases hc es hes with hu | hec
    · rw [ec_of_forgetCommit hf]
      exact h tmp ht es hu
    · exact hec

theorem TmpKeeps.send (h : TmpKeeps tmp tmp') (hs : sae'.forgetCommit = sae.forgetCommit) (ht : sae.tmp = some tmp) :
    SendKeeps sae { sae' with tmp := some tmp' } :=
  sendKeeps_tmp hs ht h.forget h.held fun _ hes => .inl (h.uCoefficients ▸ hes)

/-! ## `sae_ap_prepare_commit` -/

section StoreCoefficients

variable {n : ℕ} {values : List (ℤ × ℤ)}

theorem storeCoefficients_forgetCommit : (storeCoefficients host n values tmp).forgetCommit = tmp.forgetCommit := by
  unfold storeCoefficients
  split <;> rfl

theorem storeCoefficients_held (h : tmp.Held) : (storeCoefficients host n values tmp).Held := by
  unfold storeCoefficients
  split
  · exact h
  · exact ⟨h.pweEccs, h.ownCommitElementEccs⟩

theorem storeCoefficients_live {es : List (Option ℤ)} (h : (storeCoefficients host n values tmp).uCoefficients = .live es) :
    tmp.uCoefficients = .live es ∨ (storeCoefficients host n values tmp).ec.isSome := by
  unfold storeCoefficients at h ⊢
  split at h
  · exact .inl h
  · next hec => exact .inr (by simp [hec])

end StoreCoefficients

theorem saeApPrepareCommit_sat (addr1 addr2 : MacAddr) (draws : CommitDraws) :
    (saeApPrepareCommit host addr1 addr2 draws sae).Sat (fun _ => False)
      (fun r => SendKeeps sae r.1 ∧ (r.2 = true → sae.Sized host → r.1.Woven host))
      (fun f => sae.Held → ¬f.OnReleased) := by
  unfold saeApPrepareCommit
  split
  · exact Run.Sat.of_fault fun _ => by simp [Fault.OnReleased]
  · next tmp ht =>
    dsimp only
    set start : SaeTmp := { tmp with
      saeRand := some (generateScalar tmp draws).1.rand
      ownCommitScalar := some (generateScalar tmp draws).1.scalar }
    have hstart : TmpKeeps tmp start := ⟨rfl, rfl, fun h => ⟨h.1, h.2⟩⟩
    have hloop := prepareEntries_sat host addr1 addr2 draws (generateScalar tmp draws).1.mask tmp.numPasswords.toNat 0 sae
      start
    refine Run.Sat.bind ⟨hloop.event, hloop.value, fun f hf hh => hloop.fault f hf (hstart.held (hh tmp ht))⟩ ?_
    rintro ⟨sae', tmp', ok⟩ _ ⟨hsae, hkeeps⟩
    have hkeeps : TmpKeeps tmp tmp' := hstart.trans hkeeps
    dsimp only
    split
    · exact Run.Sat.pure ⟨hkeeps.send hsae ht, nofun⟩
    · refine Run.Sat.bind (Q := fun values => encodeElements tmp'.ec tmp'.ownCommitElementEccs draws
        tmp.numPasswords.toNat 0 = .ok values) (Run.Sat.lift (fun _ hv => hv) fun f hf hh => ?_) ?_
      · exact encodeElements_error (hkeeps.held (hh tmp ht)).ownCommitElementEccs hf
      intro values _ hvalues
      obtain ⟨hlen, hall⟩ := encodeElements_ok hvalues
      refine Run.Sat.pure ⟨sendKeeps_tmp hsae ht (storeCoefficients_forgetCommit.trans hkeeps.forget)
        (fun hh => storeCoefficients_held (hkeeps.held hh)) fun es hes => ?_, fun _ hn t ht' => ?_⟩
      · exact (storeCoefficients_live hes).imp_left fun hu => hkeeps.uCoefficients ▸ hu
      · cases ht'
        have hn : tmp.numPasswords.toNat = host.passwords.length := by
          have := hn tmp ht
          omega
        rw [hn] at hlen ⊢
        -- at least one element was encoded, so there is a group
        obtain ⟨ec, -, hec, -⟩ := hall 0 (by have := host.two_le_passwords; omega)
        rw [storeCoefficients, hec]
        refine ⟨ec, values, rfl, hlen, fun i hi => ?_, rfl, rfl⟩
        obtain ⟨group, point, hgroup, hentry, hvalue⟩ := hall i hi
        rw [hec] at hgroup
        cases hgroup
        rw [Nat.zero_add] at hentry hvalue
        exact ⟨point, _, hentry, hvalue⟩

/-! ## `sae_prepare_commit_pt` -/

theorem saeDeriveCommit_keeps (draws : CommitDraws) : TmpKeeps tmp (saeDeriveCommit tmp draws).1 := by
  unfold saeDeriveCommit
  dsimp only
  split
  · exact ⟨rfl, rfl, fun h => ⟨h.1, h.2⟩⟩
  · split <;> exact ⟨rfl, rfl, fun h => ⟨h.1, h.2⟩⟩

theorem pweFromPt_keeps (H : HashFns) (pt : SaePt) (addr1 addr2 : MacAddr) :
    TmpKeeps tmp (pweFromPt H pt addr1 addr2 tmp).1 := by
  cases pt <;> exact ⟨rfl, rfl, fun h => ⟨h.1, h.2⟩⟩

theorem saePrepareCommitPt_keeps (pts : List SaePt) (addr1 addr2 : MacAddr) (draws : CommitDraws) :
    SendKeeps sae (saePrepareCommitPt host pts addr1 addr2 draws sae).1 := by
  unfold saePrepareCommitPt
  split
  · exact SendKeeps.refl sae
  · next tmp ht =>
    split
    · exact SendKeeps.refl sae
    · next pt _ =>
      have hpwe : TmpKeeps tmp (pweFromPt host.hash pt addr1 addr2 tmp).1 := pweFromPt_keeps host.hash pt addr1 addr2
      dsimp only
      split
      · exact hpwe.send rfl ht
      · have hs : ({ sae with h2e := true } : SaeData).forgetCommit = sae.forgetCommit := rfl
        exact (hpwe.trans (saeDeriveCommit_keeps draws)).send hs ht

/-! ## `sae_ap_write_commit` -/

theorem writeCoefficients_ok {size primeLen : ℕ} {id : TableId} {coefficients : Table ℤ} {left i : ℕ}
    {buf : Bytes} {out : Option Bytes} (h : writeCoefficients size primeLen id coefficients left i buf = .ok out)
    (hleft : 0 < left) : ∃ entries, coefficients = .live entries := by
  cases left with
  | zero => exact absurd hleft (lt_irrefl 0)
  | succ left =>
    unfold writeCoefficients at h
    obtain ⟨_, -, h⟩ := except_bind_ok h
    obtain ⟨c, hc, -⟩ := except_bind_ok h
    cases coefficients with
    | unset => cases hc
    | released => cases hc
    | live entries => exact ⟨entries, rfl⟩

theorem wpabufPut_error {size len : ℕ} {buf : Bytes} {f : Fault} (h : wpabufPut size buf len = .error f) :
    f = .bufferOverflow := by
  unfold wpabufPut at h
  split at h
  · cases h
  · cases h; rfl

theorem read_error_not_onReleased {t : Table ℤ} {id : TableId} {i : ℕ} {f : Fault} (h : t.read id i = .error f)
    (hid : id = .uCoefficients ∨ id = .vCoefficients) : ¬f.OnReleased := by
  by_cases ht : t = .released
  · subst ht
    cases h
    rcases hid with rfl | rfl <;> simp [Fault.OnReleased]
  · exact not_onReleased_of_unset_or_outOfBounds (Table.read_error h ht)

theorem writeCoefficients_error {size primeLen : ℕ} {id : TableId} {coefficients : Table ℤ} {f : Fault}
    (hid : id = .uCoefficients ∨ id = .vCoefficients) :
    ∀ {left i : ℕ} {buf : Bytes}, writeCoefficients size primeLen id coefficients left i buf = .error f → ¬f.OnReleased
  | 0, _, _, h => by cases h
  | left + 1, i, buf, h => by
    unfold writeCoefficients at h
    rcases except_bind_error h with h | ⟨_, -, h⟩
    · rw [wpabufPut_error h]
      simp [Fault.OnReleased]
    · rcases except_bind_error h with h | ⟨_, -, h⟩
      · exact read_error_not_onReleased h hid
      · split at h
        · cases h
        · exact writeCoefficients_error hid h

/-- `sae_ap_write_commit` reports the arrays it is called on, and what it writes came from live coefficients. -/
theorem saeApWriteCommit_sat (size : ℕ) (identifier : Option Bytes) :
    (saeApWriteCommit host size identifier sae).Sat
      (fun e => ∃ tmp, sae.tmp = some tmp ∧
        e = .writeCommit tmp.ec tmp.uCoefficients tmp.vCoefficients tmp.ownCommitElementEccs)
      (fun r => SendKeeps sae r.1 ∧ (r.2.isSome → ∃ tmp, sae.tmp = some tmp ∧
        (0 < tmp.numPasswords → ∃ entries, tmp.uCoefficients = .live entries)))
      (fun f => ¬f.OnReleased) := by
  unfold saeApWriteCommit
  split
  · exact Run.Sat.pure ⟨SendKeeps.refl sae, nofun⟩
  · next tmp ht =>
    refine Run.Sat.bind (Q := fun _ => True) (Run.Sat.emit ⟨tmp, ht, rfl⟩ trivial) fun _ _ _ => ?_
    dsimp only
    split
    · exact Run.Sat.pure ⟨SendKeeps.refl sae, nofun⟩
    · next scalar _ =>
      refine Run.Sat.bind (Q := fun _ => True) (Run.Sat.lift (fun _ _ => trivial) fun f hf => ?_) fun _ _ _ => ?_
      · rw [wpabufPut_error hf]
        simp [Fault.OnReleased]
      refine Run.Sat.bind (Q := fun _ => 0 < tmp.numPasswords → ∃ entries, tmp.uCoefficients = .live entries)
        (Run.Sat.lift (fun _ hu hn => writeCoefficients_ok hu (by omega)) fun f hf =>
          writeCoefficients_error (.inl rfl) hf) fun u _ hu => ?_
      cases u with
      | none => exact Run.Sat.pure ⟨sendKeeps_tmp rfl ht rfl (fun h => ⟨h.1, h.2⟩) nofun, nofun⟩
      | some buf =>
        refine Run.Sat.bind (Q := fun _ => True) (Run.Sat.lift (fun _ _ => trivial) fun f hf =>
          writeCoefficients_error (.inr rfl) hf) fun v _ _ => ?_
        cases v with
        | none => exact Run.Sat.pure ⟨sendKeeps_tmp rfl ht rfl (fun h => ⟨h.1, h.2⟩) nofun, nofun⟩
        | some buf =>
          refine Run.Sat.bind (Q := fun _ => True) (Run.Sat.lift (fun _ _ => trivial) fun f hf => ?_) fun _ _ _ => ?_
          · rw [wpabufPut_error hf]
            simp [Fault.OnReleased]
          refine Run.Sat.pure ⟨sendKeeps_tmp ?_ ht rfl (fun h => ⟨h.1, h.2⟩) nofun, fun _ => ⟨tmp, ht, hu⟩⟩
          unfold SaeData.noteAkmSuite
          split <;> rfl

end DecoyAuth
