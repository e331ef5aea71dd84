import DecoyAuth.Ap.Queue

/-!
# Serving a frame

A frame that gets as far as the station's machine is served: the machine takes a step on an input made of the frame and the
answers about its token (`serve`). `StaStep` says what a step of the access point does to its stations, with its events
about them (`Bss.step_stations`), and a step that faults faults in serving a frame (`Bss.step_error`).
-/

namespace DecoyAuth

variable {bss : Bss} {env : Answers} {frame : Mgmt} {s s' : BssState}

/-! ## One frame -/

/-- The station of an address, or the one that `ap_sta_add` makes. -/
def BssState.staFor (s : BssState) (addr : MacAddr) : Sta := (s.stas.lookup addr).getD {}

@[simp] theorem staFor_setSta (s : BssState) (addr : MacAddr) (sta : Sta) : (s.setSta addr sta).staFor addr = sta := by
  simp [BssState.staFor, BssState.setSta]

/-- The answers about tokens for a frame of a station in the list. -/
def Mgmt.tokens (bss : Bss) (env : Answers) (frame : Mgmt) (s : BssState) : TokenAnswers :=
  tokenAnswers bss env frame (s.staFor frame.sa) s

/-- What the machine of the station gets with its frame. -/
def Mgmt.servedInput (bss : Bss) (env : Answers) (frame : Mgmt) (s : BssState) : Input :=
  (frame.tokens bss env s).input (frame.input env)

/-- The machine of the station on its frame. -/
def serve (bss : Bss) (env : Answers) (frame : Mgmt) (s : BssState) : ApRun (Option SaeData) :=
  handleAuthSae (bss.ap frame.sa) (s.staFor frame.sa).sae (frame.servedInput bss env s)

/-- An event about a station: its frame, its instance, its token or its removal. -/
def BssEvent.isSta : BssEvent → Bool
  | .served _ _ => true
  | .station _ _ => true
  | .tokenAccepted _ _ => true
  | .freed _ => true
  | _ => false

def staEvents (log : List BssEvent) : List BssEvent := log.filter BssEvent.isSta

@[simp] theorem staEvents_append (l l' : List BssEvent) : staEvents (l ++ l') = staEvents l ++ staEvents l' :=
  List.filter_append ..

/-- The events of `serve` in the log of the access point. -/
def servedEvents (bss : Bss) (env : Answers) (frame : Mgmt) (s : BssState) : List BssEvent :=
  (frame.tokens bss env s).accepted.toList.map (.tokenAccepted frame.sa) ++
    .served frame (frame.servedInput bss env s) :: (serve bss env frame s).log.map (.station frame.sa)

theorem mem_servedEvents {e : BssEvent} (h : e ∈ servedEvents bss env frame s) :
    (∃ token, e = .tokenAccepted frame.sa token) ∨ e = .served frame (frame.servedInput bss env s) ∨
      ∃ e', e = .station frame.sa e' := by
  rcases List.mem_append.1 h with h | h
  · obtain ⟨token, -, rfl⟩ := List.mem_map.1 h
    exact .inl ⟨token, rfl⟩
  · rcases List.mem_cons.1 h with rfl | h
    · exact .inr (.inl rfl)
    · obtain ⟨e', -, rfl⟩ := List.mem_map.1 h
      exact .inr (.inr ⟨e', rfl⟩)

theorem staEvents_servedEvents : staEvents (servedEvents bss env frame s) = servedEvents bss env frame s := by
  refine List.filter_eq_self.2 fun e he => ?_
  rcases mem_servedEvents he with ⟨_, rfl⟩ | rfl | ⟨_, rfl⟩ <;> rfl

/-- The state after a frame was served. -/
def BssState.served (bss : Bss) (env : Answers) (frame : Mgmt) (s : BssState) (sae : Option SaeData) : BssState :=
  { s.setSta frame.sa { s.staFor frame.sa with sae := sae } with comeback := (frame.tokens bss env s).comeback }

theorem authenticateSta_eq : authenticateSta bss env frame (s.staFor frame.sa) s =
    ⟨servedEvents bss env frame s, (serve bss env frame s).result.map (s.served bss env frame)⟩ := by
  have hnote : noteToken frame.sa (frame.tokens bss env s).accepted =
      ⟨(frame.tokens bss env s).accepted.toList.map (.tokenAccepted frame.sa), .ok ()⟩ := by
    cases (frame.tokens bss env s).accepted <;> rfl
  change (noteToken frame.sa (frame.tokens bss env s).accepted >>= fun _ =>
    Run.emit (.served frame (frame.servedInput bss env s)) >>= fun _ =>
      (serve bss env frame s).mapLog (.station frame.sa) >>= fun sae => pure (s.served bss env frame sae)) = _
  rw [Run.bind_of_ok (a := ()) (by rw [hnote]), hnote, Run.bind_of_ok (Run.emit_result _), Run.bind_pure_eq]
  rfl

/-- The state in which a station's machine gets a frame: the station is in the list, with the number of the frame. -/
def BssState.receive (s : BssState) (frame : Mgmt) : BssState :=
  s.setSta frame.sa { s.staFor frame.sa with lastSeqCtrl := frame.seqCtrl }

/-- **A frame that is not queued** is ignored or refused, before or after its station was found, or served. -/
theorem handleNow_cases (bss : Bss) (env : Answers) (frame : Mgmt) (s : BssState) :
    handleNow bss env frame s = pure s ∨
      (∃ status, handleNow bss env frame s = refuse frame status s ∨
        handleNow bss env frame s = refuse frame status (s.receive frame)) ∨
      handleNow bss env frame s = ⟨servedEvents bss env frame (s.receive frame),
        (serve bss env frame (s.receive frame)).result.map ((s.receive frame).served bss env frame)⟩ := by
  have hknown : ∀ sta, s.staFor frame.sa = sta →
      (∃ status, authenticateKnown bss env frame sta s = refuse frame status (s.receive frame)) ∨
      authenticateKnown bss env frame sta s = ⟨servedEvents bss env frame (s.receive frame),
        (serve bss env frame (s.receive frame)).result.map ((s.receive frame).served bss env frame)⟩ := by
    rintro sta rfl
    unfold authenticateKnown
    dsimp only
    split
    · exact .inl ⟨_, rfl⟩
    · split
      · exact .inl ⟨_, rfl⟩
      · rw [← authenticateSta_eq]
        exact .inr (by simp only [BssState.receive, staFor_setSta])
  unfold handleNow
  split
  · next sta hsta =>
    split
    · exact .inl rfl
    · rcases hknown sta (by simp [BssState.staFor, hsta]) with ⟨status, h⟩ | h
      · exact .inr (.inl ⟨status, .inr h⟩)
      · exact .inr (.inr h)
  · next hsta =>
    split
    · exact .inr (.inl ⟨_, .inl rfl⟩)
    · rcases hknown {} (by simp [BssState.staFor, hsta]) with ⟨status, h⟩ | h
      · exact .inr (.inl ⟨status, .inr h⟩)
      · exact .inr (.inr h)

/-! ## One step -/

/-- What a step does to the stations and the tokens, with its events about them. -/
inductive StaStep (bss : Bss) (s s' : BssState) : List BssEvent → Prop
  | keep (hstas : s'.stas = s.stas) (hcomeback : s'.comeback = s.comeback) : StaStep bss s s' []
  | free (addr : MacAddr) (hstas : s'.stas = s.stas.erase addr) (hcomeback : s'.comeback = s.comeback) :
      StaStep bss s s' [.freed addr]
  | refuse (frame : Mgmt) (hstas : s'.stas = (s.receive frame).stas) (hcomeback : s'.comeback = s.comeback) :
      StaStep bss s s' []
  | serve (env : Answers) (frame : Mgmt) (s₀ : BssState) (sae : Option SaeData) (hstas₀ : s₀.stas = (s.receive frame).stas)
      (hcomeback₀ : s₀.comeback = s.comeback) (hresult : (serve bss env frame s₀).result = .ok sae)
      (hstas : s'.stas = (s₀.served bss env frame sae).stas)
      (hcomeback : s'.comeback = (s₀.served bss env frame sae).comeback) :
      StaStep bss s s' (servedEvents bss env frame s₀)

/-- The computation changes the stations as a step does. -/
def StaSat (bss : Bss) (s : BssState) (m : BssRun BssState) : Prop :=
  ∀ s', m.result = .ok s' → StaStep bss s s' (staEvents m.log)

theorem refuse_stations {t : BssState} {status : Status}
    (h : t = s ∨ t = s.receive frame) : StaSat bss s (refuse frame status t) := by
  rintro s' ⟨⟩
  rcases h with rfl | rfl
  · exact .keep rfl rfl
  · exact .refuse frame rfl rfl

theorem handleNow_stations : StaSat bss s (handleNow bss env frame s) := by
  rcases handleNow_cases bss env frame s with h | ⟨status, h | h⟩ | h <;> rw [h]
  · rintro s' ⟨⟩
    exact .keep rfl rfl
  · exact refuse_stations (.inl rfl)
  · exact refuse_stations (.inr rfl)
  · intro s' hs'
    obtain ⟨sae, hr, rfl⟩ := except_map_ok hs'
    rw [staEvents_servedEvents]
    exact .serve env frame (s.receive frame) sae rfl rfl hr rfl rfl

theorem handleAuth_stations (fromQueue : Bool) : StaSat bss s (handleAuth bss env fromQueue frame s) := by
  rcases handleAuth_cases bss env fromQueue frame s with h | h | ⟨-, -, h⟩ | h <;> rw [h]
  · exact refuse_stations (.inl rfl)
  · rintro s' ⟨⟩
    exact .keep rfl rfl
  · intro s' hs'
    unfold authSaeQueue at hs' ⊢
    split at hs'
    · next hfull =>
      rw [if_pos hfull]
      cases hs'
      exact .keep rfl rfl
    · next hfull =>
      rw [if_neg hfull]
      cases hs'
      exact .keep rfl rfl
  · exact handleNow_stations

/-- The queue does not matter for the stations. -/
theorem StaStep.congr {t t' : BssState} {events : List BssEvent} (h : StaStep bss t t' events) (hstas : t.stas = s.stas)
    (hcomeback : t.comeback = s.comeback) (hstas' : s'.stas = t'.stas) (hcomeback' : s'.comeback = t'.comeback) :
    StaStep bss s s' events := by
  have hreceive : ∀ frame : Mgmt, (t.receive frame).stas = (s.receive frame).stas := fun frame => by
    simp only [BssState.receive, BssState.setSta, BssState.staFor, hstas]
  cases h with
  | keep h h' => exact .keep (hstas'.trans (h.trans hstas)) (hcomeback'.trans (h'.trans hcomeback))
  | free addr h h' =>
    exact .free addr (hstas'.trans (h.trans (by rw [hstas]))) (hcomeback'.trans (h'.trans hcomeback))
  | refuse frame h h' =>
    exact .refuse frame (hstas'.trans (h.trans (hreceive frame))) (hcomeback'.trans (h'.trans hcomeback))
  | serve env frame s₀ sae h₀ h₀' hresult h h' =>
    exact .serve env frame s₀ sae (h₀.trans (hreceive frame)) (h₀'.trans hcomeback) hresult (hstas'.trans h)
      (hcomeback'.trans h')

/-- **A step** leaves the stations alone, removes one, notes a frame that is refused, or serves a frame. -/
theorem Bss.step_stations {i : BssInput} (h : (bss.step s i).result = .ok s') :
    StaStep bss s s' (staEvents (bss.step s i).log) := by
  cases i with
  | rx frame env => exact handleAuth_stations false s' h
  | freeSta addr =>
    cases h
    exact .free addr rfl rfl
  | queueTimeout env =>
    unfold Bss.step at h ⊢
    by_cases ht : s.queueTimer = true
    · simp only [ht, if_true] at h ⊢
      unfold authSaeProcessCommit at h ⊢
      cases hq : s.queue with
      | nil =>
        rw [hq] at h
        cases h
        exact .keep rfl rfl
      | cons frame rest =>
        rw [hq] at h
        dsimp only at h ⊢
        rw [Run.bind_of_ok (Run.emit_result _), Run.bind_pure_eq] at h ⊢
        obtain ⟨t, hr, rfl⟩ := except_map_ok h
        exact (handleAuth_stations true t hr).congr rfl rfl rfl rfl
    · simp only [ht] at h ⊢
      cases h
      exact .keep rfl rfl

/-- The frame with whose station's machine a computation faults, and the events. -/
def FaultsServing (bss : Bss) (s : BssState) (m : BssRun BssState) (f : Fault) : Prop :=
  ∃ env frame s₀, s₀.stas = (s.receive frame).stas ∧ (serve bss env frame s₀).result = .error f ∧
    staEvents m.log = servedEvents bss env frame s₀

theorem handleNow_error {f : Fault} (h : (handleNow bss env frame s).result = .error f) :
    FaultsServing bss s (handleNow bss env frame s) f := by
  rcases handleNow_cases bss env frame s with he | ⟨status, he | he⟩ | he <;> rw [he] at h
  · cases h
  · cases h
  · cases h
  · rw [he]
    exact ⟨env, frame, s.receive frame, rfl, except_map_error h, staEvents_servedEvents⟩

theorem handleAuth_error {fromQueue : Bool} {f : Fault} (h : (handleAuth bss env fromQueue frame s).result = .error f) :
    FaultsServing bss s (handleAuth bss env fromQueue frame s) f := by
  rcases handleAuth_cases bss env fromQueue frame s with he | he | ⟨-, -, he⟩ | he <;> rw [he] at h ⊢
  · cases h
  · cases h
  · unfold authSaeQueue at h
    split at h <;> cases h
  · exact handleNow_error h

/-- A step faults only where the machine of a station does. -/
theorem Bss.step_error {i : BssInput} {f : Fault} (h : (bss.step s i).result = .error f) :
    FaultsServing bss s (bss.step s i) f := by
  cases i with
  | rx frame env => exact handleAuth_error h
  | freeSta addr => cases h
  | queueTimeout env =>
    unfold Bss.step at h ⊢
    dsimp only at h ⊢
    by_cases ht : s.queueTimer = true
    · rw [if_pos ht] at h ⊢
      unfold authSaeProcessCommit at h ⊢
      cases hq : s.queue with
      | nil =>
        rw [hq] at h
        cases h
      | cons frame rest =>
        rw [hq] at h
        dsimp only at h ⊢
        rw [Run.bind_of_ok (Run.emit_result _), Run.bind_pure_eq] at h ⊢
        exact handleAuth_error (except_map_error h)
    · rw [if_neg ht] at h
      cases h

end DecoyAuth
