import DecoyAuth.Ap.Stations

/-!
# The anti-clogging threshold

`use_anti_clogging` counts the open SAE sessions and the queued frames. A session opens only with a commit that reaches the
state machine (`handleAuthSae_opens`), so with an accepted token or while the sessions are fewer than the threshold
(`serve_opens`). In every run the sessions are no more than the threshold and the accepted tokens together
(**`open_sessions_bounded`**), and the state of the tokens is one that the calls of `comeback_token.c` lead to
(`run_comeback`).
-/

namespace DecoyAuth

variable {bss : Bss} {env : Answers} {frame : Mgmt} {s s' : BssState} {ap : Ap} {inp : Input} {sae sae' : SaeData}

/-! ## Counting -/

section Count

variable {α β : Type} [DecidableEq α] (p : β → Bool) (l : AList fun _ : α => β) (a : α)

theorem countP_erase : ((l.erase a).entries.map Sigma.snd).countP p + (if (l.lookup a).any p then 1 else 0) =
    (l.entries.map Sigma.snd).countP p := by
  change ((List.kerase a l.entries).map Sigma.snd).countP p + _ = _
  by_cases ha : a ∈ l
  · obtain ⟨b, l₁, l₂, -, hl, herase⟩ := List.exists_of_kerase (AList.mem_keys.1 ha)
    have hlookup : l.lookup a = some b := AList.mem_lookup_iff.2 (by simp [hl])
    rw [herase, hl, hlookup]
    simp only [List.map_append, List.map_cons, List.countP_append, List.countP_cons, Option.any_some]
    omega
  · rw [List.kerase_of_notMem_keys ha, AList.lookup_eq_none.2 ha]
    rfl

theorem countP_insert (b : β) :
    ((l.insert a b).entries.map Sigma.snd).countP p + (if (l.lookup a).any p then 1 else 0) =
      (l.entries.map Sigma.snd).countP p + if p b then 1 else 0 := by
  rw [← countP_erase p l a, AList.entries_insert, List.map_cons, List.countP_cons]
  change ((l.erase a).entries.map Sigma.snd).countP p + (if p b then 1 else 0) + _ = _
  omega

end Count

def BssState.openCount (s : BssState) : ℕ := s.staList.countP Sta.isOpen

theorem openCount_congr (h : s'.stas = s.stas) : s'.openCount = s.openCount := by
  rw [BssState.openCount, BssState.staList, h]
  rfl

/-- One station changes. -/
theorem openCount_setSta (s : BssState) (addr : MacAddr) (sta : Sta) :
    (s.setSta addr sta).openCount + (if (s.staFor addr).isOpen then 1 else 0) =
      s.openCount + if sta.isOpen then 1 else 0 := by
  have hopen : (s.staFor addr).isOpen = (s.stas.lookup addr).any Sta.isOpen := by
    unfold BssState.staFor
    cases s.stas.lookup addr <;> rfl
  rw [hopen]
  exact countP_insert Sta.isOpen s.stas addr sta

theorem openCount_receive : (s.receive frame).openCount = s.openCount := by
  have h := openCount_setSta s frame.sa { s.staFor frame.sa with lastSeqCtrl := frame.seqCtrl }
  exact Nat.add_right_cancel h

theorem countOpen_eq (threshold : ℕ) : ∀ (stas : List Sta) {count : ℕ}, count < threshold →
    countOpen threshold stas count =
      if count + stas.countP Sta.isOpen < threshold then some (count + stas.countP Sta.isOpen) else none
  | [], count, h => by simp [countOpen, h]
  | sta :: stas, count, h => by
    have hcount : (if sta.isOpen then count + 1 else count) + stas.countP Sta.isOpen =
        count + (sta :: stas).countP Sta.isOpen := by
      rw [List.countP_cons]
      split <;> omega
    unfold countOpen
    dsimp only
    by_cases hlt : (if sta.isOpen then count + 1 else count) < threshold
    · rw [if_neg (not_le.2 hlt), countOpen_eq threshold stas hlt, hcount]
    · rw [if_pos (not_lt.1 hlt), if_neg (by omega)]

/-- `use_anti_clogging` lets a commit pass below the threshold only. -/
theorem useAntiClogging_eq_false {threshold : ℕ} (h : useAntiClogging threshold s = false) :
    s.openCount + s.queue.length < threshold := by
  unfold useAntiClogging at h
  split at h
  · cases h
  · next h0 =>
    rw [countOpen_eq threshold s.staList (Nat.pos_of_ne_zero h0), Nat.zero_add] at h
    split at h
    · cases h
    · next hcount =>
      split at hcount
      · cases hcount
        simpa [BssState.openCount] using h
      · cases hcount

/-! ## Opening a session -/

/-- A commit that reaches the state machine has an accepted token or needs none. -/
theorem gateParsed_step_token {allowReuse allowReuse' : Bool} {p : CommitParse} {t : SaeData}
    (h : gateParsed ap inp allowReuse p = .step t allowReuse') :
    (p.token.isSome → inp.tokenOk = true) ∧ (p.token = none → inp.antiClogging = true → allowReuse = true) := by
  unfold gateParsed at h
  split at h
  · cases h
  split at h
  · cases h
  split at h
  · cases h
  · next htoken =>
    split at h
    · cases h
    split at h
    · cases h
    split at h
    · cases h
    · next hclog =>
      refine ⟨fun hs => ?_, fun hnone hc => ?_⟩
      · simpa [hs] using htoken
      · simpa [hnone, hc] using hclog

/-- What `handle_auth_sae` saw of a commit that reaches the state machine. -/
theorem commitGate_step_token {allowReuse : Bool} {t : SaeData} (htrans : inp.transaction = 1)
    (h : commitGate ap inp sae = .step t allowReuse) :
    reachesToken ap inp sae = true ∧ allowReuse = (restart ap inp.body sae).2 ∧
      ((commitParse ap inp sae).token.isSome → inp.tokenOk = true) ∧
      ((commitParse ap inp sae).token = none → inp.antiClogging = true → allowReuse = true) := by
  obtain ⟨-, hreuse, hstatus⟩ := commitGate_step h
  unfold commitGate at h
  split at h
  · cases h
  · next hsuccess =>
    split at h
    · cases h
    · next hdisabled =>
      obtain ⟨htoken, hclog⟩ := gateParsed_step_token h
      refine ⟨?_, hreuse, htoken, hreuse ▸ hclog⟩
      have hne : Status.success ≠ .saeSilentlyDiscard ∧ Status.success ≠ .unknownPasswordIdentifier := by decide
      simp only [Bool.not_eq_true', Bool.not_eq_false, Bool.not_eq_true] at hsuccess hdisabled
      simp [reachesToken, commitParse, hstatus, htrans, hsuccess, hdisabled, hne]

/-- Only an instance in the state Committed is restarted with its elements. -/
theorem restart_reuse {body : Bytes} (h : (restart ap body sae).2 = true) : sae.state = .committed := by
  unfold restart at h
  split at h
  · cases h
  · next hs => exact not_not.1 hs

theorem authSaeSendConfirm_state {q : SaeData × Status} (h : (authSaeSendConfirm ap inp sae).result = .ok q) :
    q.1.state = sae.state := by
  obtain ⟨⟨s₁, data⟩, hwrite, h⟩ := Run.bind_result_ok.1 h
  have hstate : s₁.state = sae.state := by
    simp only [Run.lift_result, saeWriteConfirm] at hwrite
    split at hwrite
    · cases hwrite
      rfl
    · obtain ⟨_, -, hwrite⟩ := except_bind_ok hwrite
      cases hwrite
      rfl
  cases data with
  | none =>
    cases h
    exact hstate
  | some data =>
    obtain ⟨_, -, h⟩ := Run.bind_result_ok.1 h
    cases h
    exact hstate

/-- A confirm opens no session. -/
theorem smStepConfirm_not_waiting {q : SaeData × Status} (h : (smStepConfirm ap inp sae).result = .ok q)
    (hw : sae.isWaiting = false) : q.1.isWaiting = false := by
  unfold smStepConfirm at h
  cases hs : sae.state with
  | nothing =>
    rw [hs] at h
    cases h
    exact hw
  | committed => simp [SaeData.isWaiting, hs] at hw
  | confirmed => simp [SaeData.isWaiting, hs] at hw
  | accepted =>
    rw [hs] at h
    unfold confirmInAccepted at h
    rcases hbig : saeCheckBigSync ap inp sae with ⟨s₁, big⟩
    rw [hbig] at h
    unfold saeCheckBigSync at hbig
    split at hbig
    · cases hbig
      cases h
      rfl
    · cases hbig
      obtain ⟨⟨s₂, ret⟩, hsend, h⟩ := Run.bind_result_ok.1 h
      cases h
      have hstate : s₂.state = sae.state := authSaeSendConfirm_state hsend
      have hclear : s₂.clearTempData.state = s₂.state := by
        unfold SaeData.clearTempData
        split <;> rfl
      rw [SaeData.isWaiting, hclear, hstate, hs]
      rfl

theorem handleConfirm_not_waiting (h : (handleConfirm ap inp sae).result = .ok sae') (hw : sae.isWaiting = false) :
    sae'.isWaiting = false := by
  rcases handleConfirm_cases h with ⟨-, rfl, -⟩ | ⟨tmp, s, t, -, hloop, rfl, -, -⟩ |
    ⟨tmp, s, t, offset, status, -, hloop, hs, -, -, -⟩
  · exact hw
  · have hstate : s.state = sae.state := by rw [(searchEntries_none hloop).1.sae_eq]
    rwa [SaeData.isWaiting, hstate]
  · obtain ⟨j, key, pwe, element, hf, -⟩ := searchEntries_some hloop
    have hstate : s.state = sae.state := by
      rw [hf.sae_eq]
      rfl
    refine smStepConfirm_not_waiting hs ?_
    rwa [SaeData.isWaiting, hstate]

/-- **A session opens** with a commit that reaches the state machine, and not by the restart of one. -/
theorem handleAuthSae_opens {sta : Option SaeData} (h : (handleAuthSae ap sta inp).result = .ok (some sae'))
    (hclosed : ∀ sae, sta = some sae → sae.isWaiting = false) (hopen : sae'.isWaiting = true) :
    ∃ sae t, openInstance ap sta inp = some sae ∧ inp.transaction = 1 ∧ commitGate ap inp sae = .step t false := by
  rcases handleAuthSae_cases h with ⟨sae, s₁, hinst, heq, htrans, hs, -⟩ | ⟨sae, s₁, hsta, heq, -, hs, -⟩ | ⟨heq, -, -⟩
  · cases heq
    have hw : sae.isWaiting = false := by
      rcases openInstance_some hinst with hsta | ⟨-, -, rfl⟩
      · exact hclosed sae hsta
      · rfl
    refine ⟨sae, ?_⟩
    rcases handleCommit_cases hs with ⟨-, rfl, -⟩ | ⟨t, r, status, hgate, -, -⟩
    · -- before the state machine the instance waits only if it did
      obtain ⟨base, hbase, hf⟩ : ∃ base, GateBase ap.host sae base ∧ (commitGate ap inp sae).sae.forgetPeer = _ :=
        commitGate_base
      have hstate : (commitGate ap inp sae).sae.state = base.state := (congrArg SaeData.state hf :)
      have heq : base = sae := hbase.waiting hf hopen
      rw [SaeData.isWaiting, hstate, heq] at hopen
      exact absurd (hw.symm.trans hopen) Bool.false_ne_true
    · refine ⟨t, hinst, htrans, ?_⟩
      cases r with
      | false => exact hgate
      | true =>
        have hcommitted := restart_reuse (commitGate_step hgate).2.1.symm
        simp [SaeData.isWaiting, hcommitted] at hw
  · cases heq
    rw [handleConfirm_not_waiting hs (hclosed sae hsta)] at hopen
    cases hopen
  · rw [hclosed sae' heq.symm] at hopen
    cases hopen

/-- The answers about tokens of a commit without a token. -/
theorem tokens_of_none (hinst : openInstance (bss.ap frame.sa) (s.staFor frame.sa).sae (frame.input env) = some sae)
    (hreach : reachesToken (bss.ap frame.sa) (frame.input env) sae = true)
    (hnone : (commitParse (bss.ap frame.sa) (frame.input env) sae).token = none) :
    frame.tokens bss env s = requestToken bss env frame (s.staFor frame.sa) sae s := by
  simp only [Mgmt.tokens, tokenAnswers, hinst, hreach, hnone, Bool.not_true, Bool.false_eq_true, if_false]

/-- The sessions are counted with the station as the parser leaves it. -/
theorem requestToken_antiClogging (sta : Sta) : ∃ sta', (requestToken bss env frame sta sae s).antiClogging =
    useAntiClogging bss.antiCloggingThreshold (s.setSta frame.sa sta') := by
  unfold requestToken
  dsimp only
  split
  · next h => exact ⟨_, (Bool.and_eq_true_iff.1 h).1.symm⟩
  · exact ⟨_, rfl⟩

/-- **A station's session opens** with an accepted token, or below the threshold. -/
theorem serve_opens (h : (serve bss env frame s).result = .ok (some sae')) (hclosed : (s.staFor frame.sa).isOpen = false)
    (hopen : sae'.isWaiting = true) :
    (frame.tokens bss env s).accepted.isSome ∨ s.openCount < bss.antiCloggingThreshold := by
  have hclosed' : ∀ sae, (s.staFor frame.sa).sae = some sae → sae.isWaiting = false := by
    intro sae hsae
    simpa [Sta.isOpen, hsae] using hclosed
  obtain ⟨sae, t, hinst, htrans, hgate⟩ := handleAuthSae_opens h hclosed' hopen
  obtain ⟨hreach, -, htoken, hclog⟩ := commitGate_step_token htrans hgate
  have hinst' : openInstance (bss.ap frame.sa) (s.staFor frame.sa).sae (frame.input env) = some sae := hinst
  have hreach' : reachesToken (bss.ap frame.sa) (frame.input env) sae = true := hreach
  cases hp : (commitParse (bss.ap frame.sa) (frame.input env) sae).token with
  | some token =>
    refine .inl (htoken ?_)
    change (commitParse (bss.ap frame.sa) (frame.input env) sae).token.isSome = true
    rw [hp]
    rfl
  | none =>
    right
    have htokens := tokens_of_none hinst' hreach' hp
    have hfalse : (frame.tokens bss env s).antiClogging = false := by
      by_contra hc
      exact absurd (hclog hp (Bool.eq_true_of_not_eq_false hc)) Bool.false_ne_true
    obtain ⟨sta', hclogged⟩ : ∃ sta', (requestToken bss env frame (s.staFor frame.sa) sae s).antiClogging = _ :=
      requestToken_antiClogging _
    rw [htokens, hclogged] at hfalse
    have hcount := openCount_setSta s frame.sa sta'
    have hbelow := useAntiClogging_eq_false hfalse
    rw [hclosed, if_neg Bool.false_ne_true] at hcount
    omega

/-! ## The bound -/

def acceptedTokens (log : List BssEvent) : ℕ :=
  log.countP fun
    | .tokenAccepted _ _ => true
    | _ => false

theorem acceptedTokens_append (l l' : List BssEvent) : acceptedTokens (l ++ l') = acceptedTokens l + acceptedTokens l' :=
  List.countP_append

theorem acceptedTokens_staEvents (log : List BssEvent) : acceptedTokens (staEvents log) = acceptedTokens log := by
  unfold acceptedTokens staEvents
  rw [List.countP_filter]
  refine List.countP_congr fun e _ => ?_
  cases e <;> simp [BssEvent.isSta]

theorem acceptedTokens_servedEvents (h : (frame.tokens bss env s).accepted.isSome) :
    1 ≤ acceptedTokens (servedEvents bss env frame s) := by
  obtain ⟨token, htoken⟩ := Option.isSome_iff_exists.1 h
  rw [servedEvents, acceptedTokens_append, htoken]
  exact Nat.le_add_right 1 _

theorem openCount_served (s : BssState) (sae : Option SaeData) :
    (s.served bss env frame sae).openCount + (if (s.staFor frame.sa).isOpen then 1 else 0) =
      s.openCount + if Sta.isOpen { s.staFor frame.sa with sae := sae } then 1 else 0 :=
  openCount_setSta s frame.sa { s.staFor frame.sa with sae := sae }

theorem StaStep.openCount_le {events : List BssEvent} {n : ℕ} (h : StaStep bss s s' events)
    (hle : s.openCount ≤ bss.antiCloggingThreshold + n) :
    s'.openCount ≤ bss.antiCloggingThreshold + (n + acceptedTokens events) := by
  cases h with
  | keep hstas _ =>
    rw [openCount_congr hstas]
    exact hle
  | free addr hstas _ =>
    have := countP_erase Sta.isOpen s.stas addr
    rw [BssState.openCount, BssState.staList, hstas]
    rw [BssState.openCount, BssState.staList] at hle
    omega
  | refuse frame hstas _ =>
    rw [openCount_congr hstas, openCount_receive]
    exact hle
  | serve env frame s₀ sae hstas₀ _ hresult hstas _ =>
    have hcount₀ : s₀.openCount = s.openCount := (openCount_congr hstas₀).trans openCount_receive
    have hcount : (s₀.served bss env frame sae).openCount + _ = _ := openCount_served s₀ sae
    rw [openCount_congr hstas]
    cases hafter : Sta.isOpen { s₀.staFor frame.sa with sae := sae } with
    | false =>
      rw [hafter, if_neg Bool.false_ne_true] at hcount
      omega
    | true =>
      rw [hafter, if_pos rfl] at hcount
      cases hbefore : (s₀.staFor frame.sa).isOpen with
      | true =>
        rw [hbefore, if_pos rfl] at hcount
        omega
      | false =>
        rw [hbefore, if_neg Bool.false_ne_true] at hcount
        cases sae with
        | none => cases hafter
        | some sae =>
          rcases serve_opens hresult hbefore hafter with htoken | hbelow
          · have := acceptedTokens_servedEvents htoken
            omega
          · omega

/-- The token of the station with address 92 under the key of the small access point. -/
def Small.token : Bytes := tokenFor Small.hash [1, 2, 3, 4, 5, 6, 7, 8] (Small.addr 92) 1

/-- **The open sessions are bounded** by the threshold and the tokens that were accepted: whatever is received, no station
can open a session beyond the threshold without having sent a token back. -/
theorem open_sessions_bounded {inputs : List BssInput} (h : (bss.run inputs).result = .ok s) :
    s.openCount ≤ bss.antiCloggingThreshold + acceptedTokens (bss.run inputs).log := by
  refine Bss.run_invariant (J := fun log s => s.openCount ≤ bss.antiCloggingThreshold + acceptedTokens log)
    (Nat.zero_le _) (fun log s i s' hle hs => ?_) h
  rw [acceptedTokens_append, ← acceptedTokens_staEvents (bss.step s i).log]
  exact (Bss.step_stations hs).openCount_le hle

/-- Behind an open session a second station is asked for a token, and opens its session with it. -/
theorem open_sessions_bounded_small : ∃ s,
    (Small.bss.run (Small.served 2 [] ++ Small.served 92 [] ++ Small.served 92 Small.token)).result = .ok s ∧
      s.openCount = 2 ∧ s.openCount ≤ Small.bss.antiCloggingThreshold + acceptedTokens
        (Small.bss.run (Small.served 2 [] ++ Small.served 92 [] ++ Small.served 92 Small.token)).log := by
  have hcount : (Small.bss.run (Small.served 2 [] ++ Small.served 92 [] ++ Small.served 92 Small.token)).valueOf.map
      BssState.openCount = some 2 := by decide +kernel
  obtain ⟨s, hs, hcount⟩ := Option.map_eq_some_iff.1 hcount
  have hs := Run.result_of_valueOf hs
  exact ⟨s, hs, hcount, open_sessions_bounded hs⟩

/-! ## The state of the tokens -/

/-- The state is that of some calls of `comeback_token.c`. -/
def Comeback.Reachable (H : HashFns) (c : Comeback) : Prop := ∃ calls, c = Comeback.after H calls

theorem Comeback.Reachable.call {H : HashFns} {c : Comeback} (h : c.Reachable H) (call : ComebackCall) :
    (c.call H call).1.Reachable H := by
  obtain ⟨calls, rfl⟩ := h
  exact ⟨calls ++ [call], (Comeback.after_concat calls call).symm⟩

theorem tokens_reachable (h : s.comeback.Reachable bss.host.hash) :
    (frame.tokens bss env s).comeback.Reachable bss.host.hash := by
  unfold Mgmt.tokens tokenAnswers
  dsimp only
  split
  · exact h
  · split
    · exact h
    · split
      · next token _ => exact h.call (.check frame.sa token)
      · unfold requestToken
        dsimp only
        split
        · exact h.call (.request env.now env.freshKey _ frame.sa _)
        · exact h

/-- In every run the state of the tokens is one that calls of `auth_build_token_req` and `check_comeback_token` lead to. -/
theorem run_comeback {inputs : List BssInput} (h : (bss.run inputs).result = .ok s) :
    s.comeback.Reachable bss.host.hash := by
  refine Bss.run_invariant (J := fun _ s => s.comeback.Reachable bss.host.hash) ⟨[], rfl⟩ (fun _ s i s' hc hs => ?_) h
  have hstep := Bss.step_stations hs
  generalize staEvents (bss.step s i).log = events at hstep
  cases hstep with
  | keep _ hcomeback | free _ _ hcomeback | refuse _ _ hcomeback => rwa [hcomeback]
  | serve env frame s₀ sae _ hcomeback₀ _ _ hcomeback =>
    rw [hcomeback]
    exact tokens_reachable (hcomeback₀ ▸ hc)

end DecoyAuth
