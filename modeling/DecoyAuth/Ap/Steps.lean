import DecoyAuth.Ap.Commits

/-!
# Received frames

What `handle_auth_sae` does with a frame: `commitGate_base` says what is left of the instance when a commit reaches (or
does not reach) the state machine, and `handleConfirm_cases` what a confirm does. The invariant `Inv` of the tables is
kept by every step (`handleAuthSae_inv`).
-/

namespace DecoyAuth

variable {ap : Ap} {host : Host} {inp : Input} {sae sae' s : SaeData} {tmp tmp' : SaeTmp}

/-! ## Commits before the state machine -/

/-- What a received commit is parsed into: the instance, perhaps restarted, or a fresh one. -/
def GateBase (host : Host) (sae base : SaeData) : Prop :=
  base = sae ∨ base = { sae with state := .nothing } ∨ Fresh host base

theorem GateBase.nothing {base : SaeData} (h : GateBase host sae base) :
    GateBase host sae { base with state := .nothing } := by
  rcases h with rfl | rfl | h
  · exact .inr (.inl rfl)
  · exact .inr (.inl rfl)
  · exact .inr (.inr ⟨rfl, h.processed, h.tmp⟩)

theorem restart_base (body : Bytes) : GateBase ap.host sae (restart ap body sae).1 := by
  unfold restart
  split
  · exact .inl rfl
  · have hg : (saeGroupAllowed ap.host sae ap.conf.groups (Bytes.getLe16 body)).1 = sae ∨ _ := saeGroupAllowed_cases _ _
    dsimp only
    split
    · rcases hg with hg | hg
      · rw [hg]
        exact .inr (.inl rfl)
      · exact .inr (.inr ⟨rfl, hg.processed, hg.tmp⟩)
    · exact .inr (.inr fresh_clearData)

theorem restart_state (body : Bytes) : (restart ap body sae).1.state ≠ .committed := by
  unfold restart
  split
  · next h => exact h
  · dsimp only
    split <;> nofun

theorem gateParsed_sae (ap : Ap) (inp : Input) (allowReuse : Bool) (p : CommitParse) :
    (gateParsed ap inp allowReuse p).sae = p.sae ∨ (gateParsed ap inp allowReuse p).sae = { p.sae with state := .nothing } := by
  unfold gateParsed
  repeat' split
  all_goals first
    | exact .inl rfl
    | exact .inr rfl

theorem forgetPeer_nothing {base : SaeData} (h : s.forgetPeer = base.forgetPeer) :
    ({ s with state := .nothing } : SaeData).forgetPeer = ({ base with state := .nothing } : SaeData).forgetPeer := by
  simp only [SaeData.forgetPeer, SaeData.mk.injEq] at h ⊢
  tauto

theorem saeParseCommit_base {base : SaeData} (hb : GateBase host sae base) (data : Bytes) (allowed : Option (List ℤ))
    (h2e : Bool) : ∃ base', GateBase host sae base' ∧
      (saeParseCommit host base data allowed h2e).sae.forgetPeer = base'.forgetPeer := by
  obtain ⟨s, hs, hf⟩ : ∃ s, (s = base ∨ Fresh host s) ∧ _ = s.forgetPeer := saeParseCommit_frame data allowed h2e
  rcases hs with rfl | hs
  · exact ⟨s, hb, hf⟩
  · exact ⟨s, .inr (.inr hs), hf⟩

/-- **A commit before the state machine** changes the peer's fields of the instance, which may be restarted or fresh. -/
theorem commitGate_base : ∃ base, GateBase ap.host sae base ∧ (commitGate ap inp sae).sae.forgetPeer = base.forgetPeer := by
  unfold commitGate
  split
  · exact ⟨sae, .inl rfl, rfl⟩
  · split
    · exact ⟨sae, .inl rfl, rfl⟩
    · dsimp only
      obtain ⟨base, hb, hf⟩ := saeParseCommit_base (restart_base inp.body) inp.body ap.conf.groups (isH2e inp.status)
      rcases gateParsed_sae ap inp (restart ap inp.body sae).2 (saeParseCommit ap.host
        (restart ap inp.body sae).1 inp.body ap.conf.groups (isH2e inp.status)) with h | h
      · rw [h]
        exact ⟨base, hb, hf⟩
      · rw [h]
        exact ⟨_, hb.nothing, forgetPeer_nothing hf⟩

theorem gateParsed_step {allowReuse allowReuse' : Bool} {p : CommitParse}
    (h : gateParsed ap inp allowReuse p = .step s allowReuse') :
    s = p.sae ∧ allowReuse' = allowReuse ∧ p.status = .success := by
  unfold gateParsed at h
  split at h
  · cases h
  split at h
  · cases h
  split at h
  · cases h
  split at h
  · cases h
  · next hstatus =>
    split at h
    · cases h
    split at h
    · cases h
    cases h
    exact ⟨rfl, rfl, not_not.1 hstatus⟩

/-- A commit that reaches the state machine was parsed successfully. -/
theorem commitGate_step {allowReuse : Bool} (h : commitGate ap inp sae = .step s allowReuse) :
    s = (saeParseCommit ap.host (restart ap inp.body sae).1 inp.body ap.conf.groups (isH2e inp.status)).sae ∧
      allowReuse = (restart ap inp.body sae).2 ∧
      (saeParseCommit ap.host (restart ap inp.body sae).1 inp.body ap.conf.groups (isH2e inp.status)).status = .success := by
  unfold commitGate at h
  split at h
  · cases h
  split at h
  · cases h
  exact gateParsed_step h

/-- A commit that reaches the state machine never finds the state Committed. -/
theorem commitGate_step_state {allowReuse : Bool} (h : commitGate ap inp sae = .step s allowReuse) :
    s.state ≠ .committed := by
  obtain ⟨rfl, -, -⟩ := commitGate_step h
  obtain ⟨base, hbase, hf⟩ : ∃ b, (b = (restart ap inp.body sae).1 ∨ Fresh ap.host b) ∧ _ = b.forgetPeer :=
    saeParseCommit_frame inp.body ap.conf.groups (isH2e inp.status)
  have hstate := congrArg SaeData.state hf
  change _ = base.state at hstate
  intro hcommitted
  rcases hbase with rfl | hbase
  · exact restart_state inp.body (hstate.symm.trans hcommitted)
  · have := hbase.state.symm.trans (hstate.symm.trans hcommitted)
    cases this

theorem restart_reuse_nothing {body : Bytes} (h : (restart ap body sae).2 = true) :
    (restart ap body sae).1.state = .nothing := by
  unfold restart at h ⊢
  split at h
  · cases h
  · next hcommitted =>
    rw [if_neg hcommitted]
    dsimp only at h ⊢
    split at h
    · next hallowed => rw [if_pos hallowed]
    · cases h

theorem saeStatusSuccess_cases {conf : Conf} {status : Status} (h : saeStatusSuccess conf status = true) :
    status = .success ∨ isH2e status = true := by
  unfold saeStatusSuccess at h
  dsimp only at h
  split at h
  · exact .inl (of_decide_eq_true h)
  · exact .inl (of_decide_eq_true h)
  · exact .inr (by rw [of_decide_eq_true h]; rfl)
  · rcases Bool.or_eq_true_iff.1 h with h | h
    · exact .inl (of_decide_eq_true h)
    · exact .inr (by rw [of_decide_eq_true h]; rfl)
  · cases h

/-! ## The invariant of the tables -/

theorem exists_tmp_of_forgetPeer {base : SaeData} (h : s.forgetPeer = base.forgetPeer) (ht : s.tmp = some tmp) :
    ∃ t, base.tmp = some t ∧ tmp.forgetPeer = t.forgetPeer := by
  have hf := congrArg SaeData.tmp h
  simp only [SaeData.forgetPeer, ht, Option.map_some] at hf
  obtain ⟨t, ht, hf⟩ := Option.map_eq_some_iff.1 hf.symm
  exact ⟨t, ht, hf.symm⟩

theorem saeProtoInstanceDisabled_of_forgetPeer {base : SaeData} (h : s.forgetPeer = base.forgetPeer) :
    saeProtoInstanceDisabled inp s = saeProtoInstanceDisabled inp base := by
  have hforget : ∀ sae : SaeData, sae.forgetPeer.tmp.bind (·.disabledUntil) = sae.tmp.bind (·.disabledUntil) := by
    intro sae
    cases ht : sae.tmp with
    | none => simp [SaeData.forgetPeer, ht]
    | some tmp => simp [SaeData.forgetPeer, ht, SaeTmp.forgetPeer]
  unfold saeProtoInstanceDisabled
  rw [← hforget s, h, hforget]

theorem Fresh.enabled (h : Fresh host sae) : saeProtoInstanceDisabled inp sae = false := by
  unfold saeProtoInstanceDisabled
  cases ht : sae.tmp with
  | none => rfl
  | some tmp => simp [(h.tmp tmp ht).disabledUntil]

theorem keyView_forgetPeer : sae.forgetPeer.keyView = sae.keyView := by
  simp only [SaeData.keyView, SaeData.forgetPeer, Option.map_map]
  rfl

/-- **A commit reaches the state machine** with a status of a commit, in an instance that is not disabled. -/
theorem commitGate_step_reaches {allowReuse : Bool} (h : commitGate ap inp sae = .step s allowReuse) :
    Reaches inp allowReuse s := by
  have hstate := commitGate_step_state h
  obtain ⟨hs, hreuse, -⟩ := commitGate_step h
  obtain ⟨b, hb, hbf⟩ : ∃ b, (b = (restart ap inp.body sae).1 ∨ Fresh ap.host b) ∧ _ = b.forgetPeer :=
    saeParseCommit_frame inp.body ap.conf.groups (isH2e inp.status)
  obtain ⟨base, hbase, hf⟩ : ∃ base, GateBase ap.host sae base ∧ (commitGate ap inp sae).sae.forgetPeer = _ :=
    commitGate_base
  have hf : s.forgetPeer = base.forgetPeer := by
    rw [h] at hf
    exact hf
  unfold commitGate at h
  split at h
  · cases h
  · next hstatus =>
    split at h
    · cases h
    · next hdisabled =>
      refine ⟨?_, hstate, fun hr => ?_, saeStatusSuccess_cases (by simpa using hstatus)⟩
      · rw [saeProtoInstanceDisabled_of_forgetPeer hf]
        rcases hbase with rfl | rfl | hbase
        · simpa using hdisabled
        · simpa [saeProtoInstanceDisabled] using hdisabled
        · exact hbase.enabled
      · have hstate' : s.state = b.state := hs ▸ (congrArg SaeData.state hbf :)
        rw [hstate']
        rcases hb with rfl | hb
        · exact restart_reuse_nothing (hreuse.symm.trans hr)
        · exact hb.state

theorem relabels_of_forgetPeer {base : SaeData} (h : s.forgetPeer = base.forgetPeer) : Relabels base s where
  keyView := by rw [← keyView_forgetPeer, h, keyView_forgetPeer]
  held hh tmp ht := by
    obtain ⟨t, ht, hf⟩ := exists_tmp_of_forgetPeer h ht
    have h1 : tmp.pweEccs = t.pweEccs := (congrArg SaeTmp.pweEccs hf :)
    have h2 : tmp.ownCommitElementEccs = t.ownCommitElementEccs := (congrArg SaeTmp.ownCommitElementEccs hf :)
    exact ⟨h1 ▸ (hh t ht).1, h2 ▸ (hh t ht).2⟩
  coefficientsEcc hc tmp ht es hes := by
    obtain ⟨t, ht, hf⟩ := exists_tmp_of_forgetPeer h ht
    have h1 : tmp.uCoefficients = t.uCoefficients := (congrArg SaeTmp.uCoefficients hf :)
    have h2 : tmp.ec = t.ec := (congrArg SaeTmp.ec hf :)
    rw [h2]
    exact hc t ht es (h1 ▸ hes)
  accepted hs := by
    have := congrArg SaeData.state h
    exact this.symm.trans hs

/-- What holds of the tables in every reachable instance. Without a processed commit the last key was never stored,
because `sae_ap_process_commit` stores it last. -/
structure Inv (host : Host) (sae : SaeData) : Prop where
  sized : sae.Sized host
  coefficientsEcc : sae.CoefficientsEcc
  keysEcc : ∀ tmp, sae.tmp = some tmp → tmp.keys ≠ .unset → tmp.ec.isSome
  ofSize : ∀ tmp, sae.tmp = some tmp → tmp.keys.OfSize host.passwords.length
  incomplete : sae.processed = false → ∀ tmp, sae.tmp = some tmp → tmp.keys.entry (host.passwords.length - 1) = none
  holdsGroup : sae.HoldsGroup

theorem inv_of_tmp_none (h : sae.tmp = none) : Inv host sae where
  sized tmp ht := by rw [h] at ht; cases ht
  coefficientsEcc tmp ht := by rw [h] at ht; cases ht
  keysEcc tmp ht := by rw [h] at ht; cases ht
  ofSize tmp ht := by rw [h] at ht; cases ht
  incomplete _ tmp ht := by rw [h] at ht; cases ht
  holdsGroup tmp ht := by rw [h] at ht; cases ht

theorem Fresh.inv (h : Fresh host sae) : Inv host sae where
  sized tmp ht := (h.tmp tmp ht).numPasswords
  coefficientsEcc tmp ht es hes := by
    rw [(h.tmp tmp ht).uCoefficients] at hes
    cases hes
  keysEcc tmp ht hk := absurd (h.tmp tmp ht).keys hk
  ofSize tmp ht es hes := by
    rw [(h.tmp tmp ht).keys] at hes
    cases hes
  incomplete _ tmp ht := by
    rw [(h.tmp tmp ht).keys]
    rfl
  holdsGroup tmp ht := (h.tmp tmp ht).holdsGroup

theorem Inv.of_keyView (h : Inv host sae) (hv : sae'.keyView = sae.keyView) (hc : sae'.CoefficientsEcc) :
    Inv host sae' where
  sized tmp' ht' := by
    obtain ⟨tmp, ht, -, -, hn⟩ := exists_tmp_of_keyView hv ht'
    rw [hn]
    exact h.sized tmp ht
  coefficientsEcc := hc
  keysEcc tmp' ht' hk := by
    obtain ⟨tmp, ht, hkeys, hec, -⟩ := exists_tmp_of_keyView hv ht'
    rw [hec]
    exact h.keysEcc tmp ht (hkeys ▸ hk)
  ofSize tmp' ht' := by
    obtain ⟨tmp, ht, hkeys, -⟩ := exists_tmp_of_keyView hv ht'
    rw [hkeys]
    exact h.ofSize tmp ht
  incomplete hp tmp' ht' := by
    obtain ⟨tmp, ht, hkeys, -⟩ := exists_tmp_of_keyView hv ht'
    rw [hkeys]
    have hp' : sae'.processed = sae.processed := (congrArg Prod.fst hv :)
    exact h.incomplete (hp' ▸ hp) tmp ht
  holdsGroup := holdsGroup_of_keyView hv h.holdsGroup

theorem Inv.keepsTables (h : Inv host sae) (hk : KeepsTables sae sae') : Inv host sae' :=
  h.of_keyView hk.keyView (hk.coefficientsEcc h.coefficientsEcc)

section Processed

variable {log : List Event} {ok : Bool}

theorem Inv.numPasswords_processed (h : Inv host sae) (hp : Processes host sae log sae' s tmp tmp' ok) :
    tmp.numPasswords.toNat = host.passwords.length := by
  obtain ⟨t, ht, -, -, hn⟩ := exists_tmp_of_keyView hp.start hp.start_tmp
  have := h.sized t ht
  omega

theorem Inv.apDeriveKeys_none_iff (h : Inv host sae) (hp : Processes host sae log sae' s tmp tmp' ok) (i : ℕ) :
    apDeriveKeys host s tmp i = .ok none ↔ s.apSecret i = some .infinity := by
  obtain ⟨ec, hec⟩ := Option.isSome_iff_exists.1 hp.ec
  exact DecoyAuth.apDeriveKeys_none_iff hp.start_tmp hec
    (holdsGroup_of_keyView hp.start h.holdsGroup tmp hp.start_tmp)

/-- `sae_ap_process_commit` fails at a shared point at infinity. -/
theorem Inv.exists_infinity (h : Inv host sae) (hp : Processes host sae log sae' s tmp tmp' false) :
    ∃ i < host.passwords.length, s.apSecret i = some .infinity := by
  obtain ⟨i, -, hi, hnone⟩ := hp.stores.failed rfl
  refine ⟨i, ?_, (h.apDeriveKeys_none_iff hp i).1 hnone⟩
  rwa [Nat.zero_add, h.numPasswords_processed hp] at hi

/-- If the first shared point is at infinity, it stores no key. -/
theorem Inv.keys_of_infinity (h : Inv host sae) (hp : Processes host sae log sae' s tmp tmp' ok)
    (h0 : s.apSecret 0 = some .infinity) : tmp'.keys = tmp.keys := by
  refine (hp.stores.first ?_ ((h.apDeriveKeys_none_iff hp 0).2 h0)).2
  have := host.two_le_passwords
  have := h.numPasswords_processed hp
  omega

/-- `sae_ap_process_commit` keeps the invariant. -/
theorem Inv.processes (h : Inv host sae) (hp : Processes host sae log sae' s tmp tmp' ok) (hc : sae'.CoefficientsEcc) :
    Inv host sae' := by
  obtain ⟨t, ht, hkeys, hec, hn⟩ := exists_tmp_of_keyView hp.start hp.start_tmp
  have hnum := h.numPasswords_processed hp
  have hpos : 0 < host.passwords.length := lt_of_lt_of_le Nat.zero_lt_two host.two_le_passwords
  refine ⟨fun t' ht' => ?_, hc, fun t' ht' _ => ?_, fun t' ht' => ?_, fun hproc t' ht' => ?_, fun t' ht' => ?_⟩
  all_goals
    rw [hp.final_tmp] at ht'
    cases ht'
  · rw [hp.stores.frame]
    exact hn.trans (h.sized t ht)
  · rw [hp.stores.frame]
    exact hp.ec
  · have := hp.stores.ofSize (by rw [hkeys, hnum]; exact h.ofSize t ht)
    rwa [hnum] at this
  · have hproc' := hp.processed.symm.trans hproc
    rw [Bool.or_eq_false_iff] at hproc'
    have hlast := hp.stores.last hproc'.2
    rw [hnum, Nat.zero_add] at hlast
    rw [hlast, hkeys]
    have hs : s.processed = sae.processed := (congrArg Prod.fst hp.start :)
    exact h.incomplete (hs ▸ hproc'.1) t ht
  · have hs := holdsGroup_of_keyView hp.start h.holdsGroup tmp hp.start_tmp
    rw [hp.stores.frame]
    exact ⟨hs.order, hs.orderLen, hs.primeLen⟩

end Processed

/-- What is left of the instance before the state machine satisfies the invariant. -/
theorem Inv.commitGate (h : Inv ap.host sae) : Inv ap.host (commitGate ap inp sae).sae := by
  obtain ⟨base, hbase, hf⟩ : ∃ base, GateBase ap.host sae base ∧ (DecoyAuth.commitGate ap inp sae).sae.forgetPeer = _ :=
    commitGate_base
  have hinv : Inv ap.host base := by
    rcases hbase with rfl | rfl | hbase
    · exact h
    · exact h.keepsTables (keepsTables_of_tmp_eq rfl rfl)
    · exact hbase.inv
  exact hinv.keepsTables (relabels_of_forgetPeer hf).toKeepsTables

/-! ## Steps of the machine -/

theorem sendReply_sat (status : Status) (data : Bytes) :
    (sendReply inp status data).Sat Event.IsReply (fun _ => True) (fun _ => False) := by
  unfold sendReply
  split
  · exact Run.Sat.pure trivial
  · exact Run.Sat.emit ⟨_, _, _, rfl⟩ trivial

/-- The continuation after a reply adds no other event. -/
theorem mem_sendReply_log {m : ApRun SaeData} {status : Status} {data : Bytes} {e : Event} (he : ¬e.IsReply) :
    e ∈ (sendReply inp status data >>= fun _ => m).log ↔ e ∈ m.log := by
  have hr : (sendReply inp status data).result = .ok () := by
    unfold sendReply
    split <;> rfl
  rw [Run.bind_of_ok hr, List.mem_append]
  exact ⟨fun h => h.resolve_left fun h => he ((sendReply_sat status data).event e h), .inr⟩

theorem sendReply_result {status : Status} {data : Bytes} {r : SaeData}
    (h : (sendReply inp status data >>= fun _ => (pure sae : ApRun SaeData)).result = .ok r) : r = sae := by
  obtain ⟨_, -, h⟩ := Run.bind_result_ok.1 h
  cases h
  rfl

/-- **A commit step** ends before the state machine, or in it. -/
theorem handleCommit_cases (h : (handleCommit ap inp sae).result = .ok sae') :
    ((∀ s r, commitGate ap inp sae ≠ .step s r) ∧ sae' = (commitGate ap inp sae).sae ∧
        ∀ e ∈ (handleCommit ap inp sae).log, e.IsReply) ∨
      ∃ s r status, commitGate ap inp sae = .step s r ∧ (smStepCommit ap inp r s).result = .ok (sae', status) ∧
        ∀ e, ¬e.IsReply → (e ∈ (handleCommit ap inp sae).log ↔ e ∈ (smStepCommit ap inp r s).log) := by
  unfold handleCommit at h ⊢
  cases hg : commitGate ap inp sae with
  | drop s =>
    rw [hg] at h
    cases h
    exact .inl ⟨by simp, rfl, by simp⟩
  | reply s status data =>
    rw [hg] at h
    refine .inl ⟨by simp, sendReply_result h, fun e he => ?_⟩
    by_contra hne
    exact absurd ((mem_sendReply_log hne).1 he) (by simp)
  | step s r =>
    rw [hg] at h
    obtain ⟨⟨s', status⟩, hs, h⟩ := Run.bind_result_ok.1 h
    cases sendReply_result h
    refine .inr ⟨s, r, status, rfl, hs, fun e he => ?_⟩
    dsimp only
    rw [Run.bind_of_ok hs]
    dsimp only
    rw [List.mem_append, mem_sendReply_log he]
    simp

/-- **A confirm step** does not reach `sae_ap_check_confirm`, finds no key, or finds one and goes into the state machine. -/
theorem handleConfirm_cases (h : (handleConfirm ap inp sae).result = .ok sae') :
    (confirmReachesCheck inp sae = false ∧ sae' = sae ∧ ∀ e ∈ (handleConfirm ap inp sae).log, e.IsReply) ∨
      (∃ tmp s t, sae.tmp = some tmp ∧
        searchEntries ap.host inp.body tmp.numPasswords.toNat 0 sae tmp = .ok (s, t, none) ∧
        sae' = { s with tmp := some t } ∧ confirmReachesCheck inp sae = true ∧
        ∀ e ∈ (handleConfirm ap inp sae).log, e = .checkConfirm false ∨ e.IsReply) ∨
      ∃ tmp s t offset status, sae.tmp = some tmp ∧
        searchEntries ap.host inp.body tmp.numPasswords.toNat 0 sae tmp = .ok (s, t, some offset) ∧
        (smStepConfirm ap inp { s with tmp := some t, rc := Bytes.getLe16 inp.body }).result = .ok (sae', status) ∧
        confirmReachesCheck inp sae = true ∧ Event.checkConfirm true ∈ (handleConfirm ap inp sae).log ∧
        ∀ e, ¬e.IsReply → e ≠ .checkConfirm true → (e ∈ (handleConfirm ap inp sae).log ↔
          e ∈ (smStepConfirm ap inp { s with tmp := some t, rc := Bytes.getLe16 inp.body }).log) := by
  unfold handleConfirm at h ⊢
  split at h
  · next hreach =>
    rw [if_pos hreach]
    obtain ⟨⟨s₁, found⟩, hcheck, h⟩ := Run.bind_result_ok.1 h
    obtain ⟨tmp, s, t, offset, ht, hloop, heq, hlog⟩ := saeApCheckConfirm_ok hcheck
    cases heq
    rw [Run.bind_of_ok hcheck]
    dsimp only
    rw [hlog]
    cases offset with
    | none =>
      refine .inr (.inl ⟨tmp, s, t, ht, hloop, sendReply_result h, hreach, fun e he => ?_⟩)
      rcases List.mem_append.1 he with he | he
      · exact .inl (by simpa using he)
      · by_contra hne
        exact absurd ((mem_sendReply_log fun hr => hne (.inr hr)).1 he) (by simp)
    | some offset =>
      obtain ⟨⟨s', status⟩, hs, h⟩ := Run.bind_result_ok.1 h
      cases sendReply_result h
      refine .inr (.inr ⟨tmp, s, t, offset, status, ht, hloop, hs, hreach, by simp, fun e he hne => ?_⟩)
      rw [List.mem_append]
      simp only [Option.isSome_some, Bool.not_true, Bool.false_eq_true, if_false]
      rw [Run.bind_of_ok hs]
      dsimp only
      rw [List.mem_append, mem_sendReply_log he]
      simp [hne]
  · next hreach =>
    rw [if_neg hreach]
    have hreach : confirmReachesCheck inp sae = false := by simpa using hreach
    split at h
    · next hshort =>
      rw [if_pos hshort]
      refine .inl ⟨hreach, sendReply_result h, fun e he => ?_⟩
      by_contra hne
      exact absurd ((mem_sendReply_log hne).1 he) (by simp)
    · next hshort =>
      rw [if_neg hshort]
      cases h
      exact .inl ⟨hreach, rfl, by simp⟩

end DecoyAuth
