import DecoyAuth.Ap.Serving

/-!
# The stations of the access point

Whatever the stations send and in whatever order, the instance of each is in the state of the run of the machine for one
station on the frames that it was served since it was last removed, with the events of that run, and a fault of the access
point is a fault of such a run (`run_stations`). What a station is served was received (`run_servedFrom`).
-/

namespace DecoyAuth

variable {bss : Bss} {env : Answers} {frame : Mgmt} {s s' : BssState}

/-! ## Every station runs its own machine -/

section Project

variable (addr : MacAddr)

/-- The station is removed. -/
def BssEvent.isFreed : BssEvent → Bool
  | .freed a => a = addr
  | _ => false

/-- What the station's machine gets. -/
def BssEvent.inputTo : BssEvent → Option Input
  | .served frame inp => if frame.sa = addr then some inp else none
  | _ => none

/-- An event of the station's instance. -/
def BssEvent.eventOf : BssEvent → Option Event
  | .station a e => if a = addr then some e else none
  | _ => none

/-- The events of one station's instances. -/
def eventsOf (log : List BssEvent) : List Event := log.filterMap (BssEvent.eventOf addr)

/-- What one station was served since it was last removed. -/
def servedTo (log : List BssEvent) : List Input := Run.since (BssEvent.isFreed addr) (BssEvent.inputTo addr) log

/-- The events of one station's instance since it was last removed. -/
def eventsSince (log : List BssEvent) : List Event := Run.since (BssEvent.isFreed addr) (BssEvent.eventOf addr) log

end Project

variable {log log' : List BssEvent} {addr : MacAddr} {sae : Option SaeData}

theorem since_staEvents {A : Type} {pick : BssEvent → Option A} (hpick : ∀ e, e.isSta = false → pick e = none) :
    Run.since (BssEvent.isFreed addr) pick (log ++ staEvents log') =
      Run.since (BssEvent.isFreed addr) pick (log ++ log') := by
  refine Run.since_append_filter fun e he => ⟨?_, hpick e he⟩
  cases e <;> first | rfl | cases he

theorem servedTo_staEvents : servedTo addr (log ++ staEvents log') = servedTo addr (log ++ log') :=
  since_staEvents fun e he => by cases e <;> first | rfl | cases he

theorem eventsSince_staEvents : eventsSince addr (log ++ staEvents log') = eventsSince addr (log ++ log') :=
  since_staEvents fun e he => by cases e <;> first | rfl | cases he

theorem isFreed_servedEvents : ∀ e ∈ servedEvents bss env frame s, e.isFreed addr = false := by
  intro e he
  rcases mem_servedEvents he with ⟨_, rfl⟩ | rfl | ⟨_, rfl⟩ <;> rfl

theorem filterMap_inputTo_servedEvents : (servedEvents bss env frame s).filterMap (BssEvent.inputTo addr) =
    if frame.sa = addr then [frame.servedInput bss env s] else [] := by
  have htokens : (frame.tokens bss env s).accepted.toList.filterMap
      (BssEvent.inputTo addr ∘ BssEvent.tokenAccepted frame.sa) = [] := List.filterMap_eq_nil_iff.2 fun _ _ => rfl
  have hstation : (serve bss env frame s).log.filterMap (BssEvent.inputTo addr ∘ BssEvent.station frame.sa) = [] :=
    List.filterMap_eq_nil_iff.2 fun _ _ => rfl
  rw [servedEvents, List.filterMap_append, List.filterMap_map, htokens, List.nil_append, List.filterMap_cons,
    List.filterMap_map, hstation]
  by_cases h : frame.sa = addr <;> simp [BssEvent.inputTo, h]

theorem filterMap_eventOf_servedEvents : (servedEvents bss env frame s).filterMap (BssEvent.eventOf addr) =
    if frame.sa = addr then (serve bss env frame s).log else [] := by
  have htokens : (frame.tokens bss env s).accepted.toList.filterMap
      (BssEvent.eventOf addr ∘ BssEvent.tokenAccepted frame.sa) = [] := List.filterMap_eq_nil_iff.2 fun _ _ => rfl
  have hstation : BssEvent.eventOf addr ∘ BssEvent.station frame.sa = fun e => if frame.sa = addr then some e else none :=
    rfl
  rw [servedEvents, List.filterMap_append, List.filterMap_map, htokens, List.nil_append, List.filterMap_cons_none rfl,
    List.filterMap_map, hstation]
  by_cases h : frame.sa = addr <;> simp [h]

theorem servedTo_servedEvents : servedTo addr (log ++ servedEvents bss env frame s) =
    servedTo addr log ++ if frame.sa = addr then [frame.servedInput bss env s] else [] := by
  rw [← filterMap_inputTo_servedEvents]
  exact Run.since_append isFreed_servedEvents

theorem eventsSince_servedEvents : eventsSince addr (log ++ servedEvents bss env frame s) =
    eventsSince addr log ++ if frame.sa = addr then (serve bss env frame s).log else [] := by
  rw [← filterMap_eventOf_servedEvents]
  exact Run.since_append isFreed_servedEvents

/-- The instance is where its machine alone is after what the station was served, with the same events. -/
def RunsAlone (bss : Bss) (log : List BssEvent) (addr : MacAddr) (sae : Option SaeData) : Prop :=
  runStation (bss.ap addr) (servedTo addr log) = ⟨eventsSince addr log, .ok sae⟩

/-- Every station runs alone. -/
def Separate (bss : Bss) (log : List BssEvent) (s : BssState) : Prop :=
  ∀ addr, RunsAlone bss log addr (s.staFor addr).sae

/-- One frame more, for the station that it is from and for the others. -/
theorem RunsAlone.serve {s₀ : BssState} (h : RunsAlone bss log addr (s₀.staFor addr).sae) :
    runStation (bss.ap addr) (servedTo addr (log ++ servedEvents bss env frame s₀)) =
      ⟨eventsSince addr (log ++ servedEvents bss env frame s₀),
        if frame.sa = addr then (serve bss env frame s₀).result else .ok (s₀.staFor addr).sae⟩ := by
  unfold RunsAlone at h
  rw [servedTo_servedEvents, eventsSince_servedEvents]
  split
  · next haddr =>
    subst haddr
    have hconcat : runStation (bss.ap frame.sa) (servedTo frame.sa log ++ [frame.servedInput bss env s₀]) = _ :=
      Run.steps_concat (congrArg Run.result h)
    rw [hconcat]
    exact congrArg (fun l => (⟨l ++ (DecoyAuth.serve bss env frame s₀).log, _⟩ : ApRun _)) (congrArg Run.log h)
  · rw [List.append_nil, List.append_nil, h]

theorem staFor_congr (h : s'.stas = s.stas) (addr : MacAddr) : s'.staFor addr = s.staFor addr := by
  rw [BssState.staFor, h]
  rfl

theorem staFor_setSta_of_ne (s : BssState) (sta : Sta) {addr addr' : MacAddr} (h : addr ≠ addr') :
    (s.setSta addr' sta).staFor addr = s.staFor addr := by
  rw [BssState.staFor, BssState.setSta, AList.lookup_insert_ne h]
  rfl

theorem sae_receive (s : BssState) (frame : Mgmt) (addr : MacAddr) :
    ((s.receive frame).staFor addr).sae = (s.staFor addr).sae := by
  by_cases h : addr = frame.sa
  · rw [h, BssState.receive, staFor_setSta]
  · rw [BssState.receive, staFor_setSta_of_ne s _ h]

theorem sae_served (s : BssState) (frame : Mgmt) (sae : Option SaeData) (addr : MacAddr) :
    ((s.served bss env frame sae).staFor addr).sae = if frame.sa = addr then sae else (s.staFor addr).sae := by
  change ((s.setSta frame.sa { s.staFor frame.sa with sae := sae }).staFor addr).sae = _
  by_cases h : frame.sa = addr
  · rw [if_pos h, ← h, staFor_setSta]
  · rw [if_neg h, staFor_setSta_of_ne s _ (Ne.symm h)]

theorem StaStep.separate (h : StaStep bss s s' (staEvents log')) (hsep : Separate bss log s) :
    Separate bss (log ++ log') s' := by
  intro addr
  rw [RunsAlone, ← servedTo_staEvents, ← eventsSince_staEvents]
  generalize staEvents log' = events at h
  cases h with
  | keep hstas hcomeback =>
    rw [List.append_nil, staFor_congr hstas]
    exact hsep addr
  | free addr' hstas hcomeback =>
    rw [servedTo, eventsSince, Run.since_concat, Run.since_concat, BssState.staFor, hstas]
    by_cases haddr : addr' = addr
    · rw [haddr, AList.lookup_erase]
      simp only [BssEvent.isFreed, decide_true, if_true]
      rfl
    · rw [AList.lookup_erase_ne (Ne.symm haddr)]
      have hkept : BssEvent.isFreed addr (.freed addr') = false := decide_eq_false haddr
      simp only [hkept, Bool.false_eq_true, if_false, BssEvent.inputTo, BssEvent.eventOf, Option.toList_none,
        List.append_nil]
      exact hsep addr
  | refuse frame hstas hcomeback =>
    rw [List.append_nil, staFor_congr hstas, sae_receive]
    exact hsep addr
  | serve env frame s₀ sae hstas₀ hcomeback₀ hresult hstas hcomeback =>
    have hbefore : RunsAlone bss log addr (s₀.staFor addr).sae := by
      rw [staFor_congr hstas₀, sae_receive]
      exact hsep addr
    rw [hbefore.serve, staFor_congr hstas, sae_served]
    split
    · rw [hresult]
    · rfl

theorem run_separate {inputs : List BssInput} (h : (bss.run inputs).result = .ok s) :
    Separate bss (bss.run inputs).log s :=
  Bss.run_invariant (J := Separate bss) (fun _ => rfl)
    (fun _ _ _ _ hsep hs => (Bss.step_stations hs).separate hsep) h

/-! ## What is served was received -/

/-- A frame that was served is one of `R`, and the machine got it as it is. -/
def BssEvent.ServedFrom (R : Mgmt → Prop) : BssEvent → Prop
  | .served frame inp => R frame ∧ inp.toFrame = frame.toFrame
  | _ => True

/-- The frames in the queue are of `R`. -/
def QueueFrom (R : Mgmt → Prop) (s : BssState) : Prop := ∀ frame ∈ s.queue, R frame

section Received

variable {R : Mgmt → Prop}

theorem servedFrom_refuse {status : Status} {t : BssState} (h : QueueFrom R t) :
    (refuse frame status t).Sat (BssEvent.ServedFrom R) (QueueFrom R) (fun _ => True) :=
  Run.Sat.bind (Q := fun _ => True) (Run.Sat.emit trivial trivial) fun _ _ _ => Run.Sat.pure h

theorem handleNow_servedFrom (hframe : R frame) (hqueue : QueueFrom R s) :
    (handleNow bss env frame s).Sat (BssEvent.ServedFrom R) (QueueFrom R) (fun _ => True) := by
  rcases handleNow_cases bss env frame s with h | ⟨status, h | h⟩ | h <;> rw [h]
  · exact Run.Sat.pure hqueue
  · exact servedFrom_refuse hqueue
  · exact servedFrom_refuse hqueue
  · refine ⟨fun e he => ?_, fun s' hs' => ?_, fun _ _ => trivial⟩
    · rcases mem_servedEvents he with ⟨_, rfl⟩ | rfl | ⟨_, rfl⟩
      · trivial
      · exact ⟨hframe, rfl⟩
      · trivial
    · obtain ⟨sae, -, rfl⟩ := except_map_ok hs'
      exact hqueue

theorem handleAuth_servedFrom (fromQueue : Bool) (hframe : R frame) (hqueue : QueueFrom R s) :
    (handleAuth bss env fromQueue frame s).Sat (BssEvent.ServedFrom R) (QueueFrom R) (fun _ => True) := by
  rcases handleAuth_cases bss env fromQueue frame s with h | h | ⟨-, -, h⟩ | h <;> rw [h]
  · exact servedFrom_refuse hqueue
  · exact Run.Sat.pure hqueue
  · unfold authSaeQueue
    split
    · exact Run.Sat.pure hqueue
    · refine Run.Sat.bind (Q := fun _ => True) (Run.Sat.emit trivial trivial) fun _ _ _ => Run.Sat.pure fun f hf => ?_
      rcases KeyedQueue.mem_put hf with rfl | hf
      · exact hframe
      · exact hqueue f hf
  · exact handleNow_servedFrom hframe hqueue

theorem Bss.step_servedFrom {i : BssInput} (hi : ∀ frame env, i = .rx frame env → R frame) (hqueue : QueueFrom R s) :
    (bss.step s i).Sat (BssEvent.ServedFrom R) (QueueFrom R) (fun _ => True) := by
  cases i with
  | rx frame env => exact handleAuth_servedFrom false (hi frame env rfl) hqueue
  | freeSta addr =>
    exact Run.Sat.bind (Q := fun _ => True) (Run.Sat.emit trivial trivial) fun _ _ _ => Run.Sat.pure hqueue
  | queueTimeout env =>
    unfold Bss.step
    dsimp only
    split
    · unfold authSaeProcessCommit
      split
      · next hq => exact Run.Sat.pure (by simp [QueueFrom, hq])
      · next frame rest hq =>
        have hmem : ∀ f ∈ frame :: rest, R f := hq ▸ hqueue
        refine Run.Sat.bind (Q := fun _ => True) (Run.Sat.emit trivial trivial) fun _ _ _ => ?_
        exact (handleAuth_servedFrom true (hmem frame List.mem_cons_self) fun f hf =>
          hmem f (List.mem_cons_of_mem frame hf)).bind fun _ _ h => Run.Sat.pure h
    · exact Run.Sat.pure hqueue

end Received

/-- Every frame that is served was received. -/
theorem run_servedFrom (bss : Bss) (inputs : List BssInput) :
    ∀ e ∈ (bss.run inputs).log, e.ServedFrom fun frame => ∃ env, .rx frame env ∈ inputs :=
  (Run.Sat.steps (fun _ _ hqueue hi => Bss.step_servedFrom hi hqueue) (fun _ h => by cases h)
    (Run.allSteps_of_forall_mem fun _ _ hi _ env heq => ⟨env, heq ▸ hi⟩)).event

/-- **The access point is its stations side by side**: whatever is received and in whatever order, the instance of every
station is in the state of the run of the machine for that station alone, on the frames that it was served since it was last
removed and with the same events, and the access point faults only where such a machine does. -/
theorem run_stations (bss : Bss) (inputs : List BssInput) :
    (∀ s, (bss.run inputs).result = .ok s → ∀ addr sta, s.stas.lookup addr = some sta →
      runStation (bss.ap addr) (servedTo addr (bss.run inputs).log) =
        ⟨eventsSince addr (bss.run inputs).log, .ok sta.sae⟩) ∧
      (∀ f, (bss.run inputs).result = .error f →
        ∃ addr, runStation (bss.ap addr) (servedTo addr (bss.run inputs).log) =
          ⟨eventsSince addr (bss.run inputs).log, .error f⟩) ∧
      (∀ addr, List.IsSuffix (eventsSince addr (bss.run inputs).log) (eventsOf addr (bss.run inputs).log)) ∧
      ∀ frame inp, .served frame inp ∈ (bss.run inputs).log →
        (∃ env, .rx frame env ∈ inputs) ∧ inp.toFrame = frame.toFrame := by
  refine ⟨fun s h addr sta hsta => ?_, fun f h => ?_, fun addr => Run.since_suffix _ _ _, fun frame inp hmem =>
    run_servedFrom bss inputs _ hmem⟩
  · have hrun := run_separate h addr
    rwa [BssState.staFor, hsta] at hrun
  · obtain ⟨before, i, s, hs, hf, hlog⟩ := Run.steps_error h
    obtain ⟨env, frame, s₀, hstas, hserve, hevents⟩ := Bss.step_error hf
    have hbefore : RunsAlone bss (bss.run before).log frame.sa (s₀.staFor frame.sa).sae := by
      rw [staFor_congr hstas, sae_receive]
      exact run_separate hs frame.sa
    refine ⟨frame.sa, ?_⟩
    rw [Bss.run, hlog, ← servedTo_staEvents, ← eventsSince_staEvents, hevents]
    refine hbefore.serve.trans ?_
    rw [if_pos rfl, hserve]
    rfl

end DecoyAuth
