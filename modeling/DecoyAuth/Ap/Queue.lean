import DecoyAuth.Ap.Bss

/-!
# The queue of the access point

Commits wait in a queue, and confirms behind them. `QueueStep` says what a step does to the queue. In every run the queue
is bounded, has one frame for each station and transaction, and is not forgotten (`run_queueInv`); timeouts empty it in its
order (`queue_drains`); and a frame that comes out of the queue is the last one that its station put there
(`dequeued_is_last_queued`).
-/

namespace DecoyAuth

variable {bss : Bss} {env : Answers} {frame : Mgmt} {s s' : BssState}

/-! ## One step -/

/-- **What `handle_auth` does with a frame**: refuse it, ignore it, queue it, or handle it. -/
theorem handleAuth_cases (bss : Bss) (env : Answers) (fromQueue : Bool) (frame : Mgmt) (s : BssState) :
    handleAuth bss env fromQueue frame s = refuse frame .unspecifiedFailure s ∨
      handleAuth bss env fromQueue frame s = pure s ∨
      (fromQueue = false ∧ (frame.transaction = 1 ∨ frame.transaction = 2) ∧
        handleAuth bss env fromQueue frame s = authSaeQueue frame s) ∨
      handleAuth bss env fromQueue frame s = handleNow bss env frame s := by
  unfold handleAuth
  split
  · exact .inl rfl
  split
  · exact .inl rfl
  split
  · exact .inl rfl
  · exact .inr (.inl rfl)
  split
  · next h =>
    simp only [Bool.and_eq_true, Bool.or_eq_true, Bool.not_eq_true', decide_eq_true_eq] at h
    exact .inr (.inr (.inl ⟨h.1, h.2.imp id And.left, rfl⟩))
  · exact .inr (.inr (.inr rfl))

/-- The frame that an event puts into the queue or takes out of it. -/
def BssEvent.queueFrame : BssEvent → Option Mgmt
  | .queued frame => some frame
  | .dequeued frame => some frame
  | _ => none

def queueEvents (log : List BssEvent) : List BssEvent := log.filter fun e => e.queueFrame.isSome

@[simp] theorem queueEvents_append (l l' : List BssEvent) : queueEvents (l ++ l') = queueEvents l ++ queueEvents l' :=
  List.filter_append ..

theorem queueEvents_eq_nil {log : List BssEvent} (h : ∀ e ∈ log, e.queueFrame = none) : queueEvents log = [] :=
  List.filter_eq_nil_iff.2 fun e he => by simp [h e he]

/-- The queue is left alone. -/
def KeepsQueue (s s' : BssState) : Prop := s'.queue = s.queue ∧ s'.queueTimer = s.queueTimer

def QueueSat (s : BssState) (m : BssRun BssState) : Prop :=
  m.Sat (fun e => e.queueFrame = none) (KeepsQueue s) (fun _ => True)

theorem refuse_queue {status : Status} : QueueSat s (refuse frame status s) := by
  refine Run.Sat.bind (Q := fun _ => True) (Run.Sat.emit ?_ trivial) fun _ _ _ => Run.Sat.pure ⟨rfl, rfl⟩
  rfl

theorem authenticateSta_queue {sta : Sta} : QueueSat s (authenticateSta bss env frame sta s) := by
  refine Run.Sat.bind (Q := fun _ => True) ?_ fun _ _ _ => ?_
  · unfold noteToken
    split
    · exact Run.Sat.emit rfl trivial
    · exact Run.Sat.pure trivial
  · refine Run.Sat.bind (Q := fun _ => True) (Run.Sat.emit rfl trivial) fun _ _ _ => ?_
    refine Run.Sat.bind (Q := fun _ => True) ⟨?_, fun _ _ => trivial, fun _ _ => trivial⟩ fun _ _ _ =>
      Run.Sat.pure ⟨rfl, rfl⟩
    intro e he
    obtain ⟨_, -, rfl⟩ := List.mem_map.1 he
    rfl

theorem authenticateKnown_queue {sta : Sta} : QueueSat s (authenticateKnown bss env frame sta s) := by
  unfold authenticateKnown
  dsimp only
  split
  · exact refuse_queue
  · split
    · exact refuse_queue
    · exact authenticateSta_queue

theorem handleNow_queue : QueueSat s (handleNow bss env frame s) := by
  unfold handleNow
  split
  · split
    · exact Run.Sat.pure ⟨rfl, rfl⟩
    · exact authenticateKnown_queue
  · split
    · exact refuse_queue
    · exact authenticateKnown_queue

/-- A frame that comes out of the queue does not go back. -/
theorem handleAuth_fromQueue : QueueSat s (handleAuth bss env true frame s) := by
  rcases handleAuth_cases bss env true frame s with h | h | ⟨h, -⟩ | h
  · rw [h]
    exact refuse_queue
  · rw [h]
    exact Run.Sat.pure ⟨rfl, rfl⟩
  · cases h
  · rw [h]
    exact handleNow_queue

/-- What a step does to the queue, with its events. -/
inductive QueueStep (s s' : BssState) : List BssEvent → Prop
  | keep (h : KeepsQueue s s') : QueueStep s s' []
  | stop (h : s.queue = []) (h' : s'.queue = []) : QueueStep s s' []
  | put (frame : Mgmt) (htrans : frame.transaction = 1 ∨ frame.transaction = 2) (hroom : s.queue.length < 15)
      (hqueue : s'.queue = KeyedQueue.put Mgmt.queueKey frame s.queue) (htimer : s'.queueTimer = true) :
      QueueStep s s' [.queued frame]
  | take (frame : Mgmt) (hqueue : s.queue = frame :: s'.queue) (htimer : s'.queueTimer = true) :
      QueueStep s s' [.dequeued frame]

theorem QueueSat.keep {m : BssRun BssState} (h : QueueSat s m) (hr : m.result = .ok s') :
    QueueStep s s' (queueEvents m.log) := by
  rw [queueEvents_eq_nil h.event]
  exact .keep (h.value _ hr)

theorem handleAuth_received (h : (handleAuth bss env false frame s).result = .ok s') :
    QueueStep s s' (queueEvents (handleAuth bss env false frame s).log) := by
  rcases handleAuth_cases bss env false frame s with he | he | ⟨-, htrans, he⟩ | he
  · rw [he] at h ⊢
    exact refuse_queue.keep h
  · rw [he] at h ⊢
    cases h
    exact .keep ⟨rfl, rfl⟩
  · rw [he] at h ⊢
    unfold authSaeQueue at h ⊢
    by_cases hfull : s.queue.length ≥ 15
    · rw [if_pos hfull] at h ⊢
      cases h
      exact .keep ⟨rfl, rfl⟩
    · rw [if_neg hfull] at h ⊢
      cases h
      exact .put frame htrans (by omega) rfl rfl
  · rw [he] at h ⊢
    exact handleNow_queue.keep h

/-- The first frame is taken out of the queue, whatever becomes of it. -/
theorem authSaeProcessCommit_cons (bss : Bss) (env : Answers) {rest : List Mgmt} (hq : s.queue = frame :: rest) :
    queueEvents (authSaeProcessCommit bss env s).log = [.dequeued frame] ∧
      ∀ s', (authSaeProcessCommit bss env s).result = .ok s' → s'.queue = rest ∧ s'.queueTimer = true := by
  have hsat : QueueSat { s with queue := rest, queueTimer := false } (handleAuth bss env true frame _) :=
    handleAuth_fromQueue
  unfold authSaeProcessCommit
  rw [hq]
  dsimp only
  rw [Run.bind_of_ok (Run.emit_result _)]
  constructor
  · have hnil : queueEvents (handleAuth bss env true frame { s with queue := rest, queueTimer := false }).log = [] :=
      queueEvents_eq_nil hsat.event
    rw [queueEvents_append, Run.bind_pure_eq, hnil]
    rfl
  · intro s' h
    obtain ⟨t, ht, h⟩ := Run.bind_result_ok.1 h
    cases h
    exact ⟨(hsat.value t ht).1, rfl⟩

/-- **A step** keeps the queue, puts a frame into it, or takes the first one out of it. -/
theorem Bss.step_queue {i : BssInput} (h : (bss.step s i).result = .ok s') :
    QueueStep s s' (queueEvents (bss.step s i).log) := by
  cases i with
  | rx frame env => exact handleAuth_received h
  | freeSta addr =>
    cases h
    exact .keep ⟨rfl, rfl⟩
  | queueTimeout env =>
    unfold Bss.step at h ⊢
    by_cases ht : s.queueTimer = true
    · simp only [ht, if_true] at h ⊢
      cases hq : s.queue with
      | nil =>
        unfold authSaeProcessCommit at h ⊢
        rw [hq] at h ⊢
        cases h
        exact .stop hq rfl
      | cons frame rest =>
        obtain ⟨hlog, hres⟩ := authSaeProcessCommit_cons bss env hq
        obtain ⟨rfl, htimer⟩ := hres s' h
        rw [hlog]
        exact .take frame hq htimer
    · simp only [ht] at h ⊢
      cases h
      exact .keep ⟨rfl, rfl⟩

/-- The events of a step about the queue, also of one that ends in a fault. -/
theorem Bss.step_events (s : BssState) (i : BssInput) :
    queueEvents (bss.step s i).log = [] ∨ (∃ frame, queueEvents (bss.step s i).log = [.queued frame]) ∨
      ∃ frame rest, s.queue = frame :: rest ∧ queueEvents (bss.step s i).log = [.dequeued frame] := by
  cases i with
  | rx frame env =>
    change queueEvents (handleAuth bss env false frame s).log = [] ∨
      (∃ f, queueEvents (handleAuth bss env false frame s).log = [.queued f]) ∨ _
    rcases handleAuth_cases bss env false frame s with he | he | ⟨-, -, he⟩ | he <;> rw [he]
    · exact .inl (queueEvents_eq_nil refuse_queue.event)
    · exact .inl rfl
    · unfold authSaeQueue
      split
      · exact .inl rfl
      · exact .inr (.inl ⟨frame, rfl⟩)
    · exact .inl (queueEvents_eq_nil handleNow_queue.event)
  | freeSta addr => exact .inl rfl
  | queueTimeout env =>
    unfold Bss.step
    by_cases ht : s.queueTimer = true
    · simp only [ht, if_true]
      cases hq : s.queue with
      | nil =>
        unfold authSaeProcessCommit
        rw [hq]
        exact .inl rfl
      | cons frame rest => exact .inr (.inr ⟨frame, rest, rfl, (authSaeProcessCommit_cons bss env hq).1⟩)
    · simp only [ht]
      exact .inl rfl

/-! ## The invariant -/

/-- The queue is bounded and has one frame for each station and transaction, and its timeout is registered while there is
one. -/
structure QueueInv (s : BssState) : Prop where
  bounded : s.queue.length ≤ 15
  distinct : (s.queue.map Mgmt.queueKey).Nodup
  transaction : ∀ frame ∈ s.queue, frame.transaction = 1 ∨ frame.transaction = 2
  scheduled : s.queue ≠ [] → s.queueTimer = true

theorem queueInv_new : QueueInv {} := ⟨by simp, by simp, by simp, by simp⟩

theorem QueueStep.inv {events : List BssEvent} (h : QueueStep s s' events) (hinv : QueueInv s) : QueueInv s' := by
  cases h with
  | keep h =>
    obtain ⟨hqueue, htimer⟩ := h
    exact ⟨hqueue ▸ hinv.bounded, hqueue ▸ hinv.distinct, hqueue ▸ hinv.transaction, by
      rw [hqueue, htimer]
      exact hinv.scheduled⟩
  | stop _ h' => exact ⟨by simp [h'], by simp [h'], by simp [h'], fun hne => absurd h' hne⟩
  | put frame htrans hroom hqueue htimer =>
    refine ⟨?_, hqueue ▸ KeyedQueue.nodup_put hinv.distinct, fun f hf => ?_, fun _ => htimer⟩
    · rw [hqueue]
      exact (KeyedQueue.length_put_le _).trans hroom
    · rw [hqueue] at hf
      rcases KeyedQueue.mem_put hf with rfl | hf
      · exact htrans
      · exact hinv.transaction f hf
  | take frame hqueue htimer =>
    have hsub : List.Sublist s'.queue s.queue := hqueue ▸ List.sublist_cons_self frame s'.queue
    exact ⟨hsub.length_le.trans hinv.bounded, hinv.distinct.sublist (hsub.map _),
      fun f hf => hinv.transaction f (hsub.subset hf), fun _ => htimer⟩

/-- The queue in every run. -/
theorem run_queueInv {inputs : List BssInput} (h : (bss.run inputs).result = .ok s) : QueueInv s :=
  Bss.run_invariant (J := fun _ s => QueueInv s) queueInv_new (fun _ _ _ _ hinv hs => (Bss.step_queue hs).inv hinv) h

/-! ## Nothing is lost in the queue -/

def timeouts (answers : List Answers) : List BssInput := answers.map .queueTimeout

theorem step_queueTimeout (hinv : QueueInv s) (h : (bss.step s (.queueTimeout env)).result = .ok s') :
    s'.queue = s.queue.drop 1 ∧ queueEvents (bss.step s (.queueTimeout env)).log = (s.queue.take 1).map .dequeued := by
  cases hq : s.queue with
  | nil =>
    unfold Bss.step authSaeProcessCommit at h ⊢
    rw [hq] at h ⊢
    dsimp only at h ⊢
    split at h
    · next ht =>
      rw [if_pos ht]
      cases h
      exact ⟨rfl, rfl⟩
    · next ht =>
      rw [if_neg ht]
      cases h
      exact ⟨hq, rfl⟩
  | cons frame rest =>
    have ht : s.queueTimer = true := hinv.scheduled (by simp [hq])
    have hstep : bss.step s (.queueTimeout env) = authSaeProcessCommit bss env s := by
      unfold Bss.step
      exact if_pos ht
    rw [hstep] at h ⊢
    obtain ⟨hlog, hres⟩ := authSaeProcessCommit_cons bss env hq
    exact ⟨(hres s' h).1, hlog⟩

theorem steps_timeouts : ∀ {answers : List Answers} {s s' : BssState}, QueueInv s →
    (Run.steps bss.step s (timeouts answers)).result = .ok s' →
      s'.queue = s.queue.drop answers.length ∧
        queueEvents (Run.steps bss.step s (timeouts answers)).log = (s.queue.take answers.length).map .dequeued
  | [], _, _, _, h => by
    cases h
    exact ⟨rfl, rfl⟩
  | env :: answers, s, s', hinv, h => by
    obtain ⟨t, ht, h⟩ := Run.bind_result_ok.1 h
    obtain ⟨hqueue, hlog⟩ := step_queueTimeout hinv ht
    obtain ⟨hqueue', hlog'⟩ := steps_timeouts ((Bss.step_queue ht).inv hinv) h
    refine ⟨by rw [hqueue', hqueue, List.drop_drop, List.length_cons, Nat.add_comm], ?_⟩
    rw [timeouts, List.map_cons, Run.steps, Run.bind_of_ok ht, queueEvents_append, hlog]
    change _ ++ queueEvents (Run.steps bss.step t (timeouts answers)).log = _
    rw [hlog', hqueue, ← List.map_append, ← List.take_add, List.length_cons, Nat.add_comm]

/-- **The queue empties in its order**: in every run it has at most 15 frames, no two of one station and transaction, and
timeouts take out as many of them as there are timeouts, the first ones first. -/
theorem queue_drains {inputs : List BssInput} (h : (bss.run inputs).result = .ok s) :
    s.queue.length ≤ 15 ∧ (s.queue.map Mgmt.queueKey).Nodup ∧
      ∀ answers s', (Run.steps bss.step s (timeouts answers)).result = .ok s' →
        s'.queue = s.queue.drop answers.length ∧
        queueEvents (Run.steps bss.step s (timeouts answers)).log = (s.queue.take answers.length).map .dequeued :=
  have hinv := run_queueInv h
  ⟨hinv.bounded, hinv.distinct, fun _ _ h' => steps_timeouts hinv h'⟩

/-- Two commits wait, and two timeouts take them out. -/
theorem queue_drains_small : ∃ s s',
    (Small.bss.run [.rx (Small.mgmt 2 []) Small.answers, .rx (Small.mgmt 92 []) Small.answers]).result = .ok s ∧
      (Run.steps Small.bss.step s (timeouts [Small.answers, Small.answers])).result = .ok s' ∧
      s.queue = [Small.mgmt 2 [], Small.mgmt 92 []] ∧ s'.queue = [] := by
  have hsome : (Run.steps Small.bss.step { queue := [Small.mgmt 2 [], Small.mgmt 92 []], queueTimer := true }
      (timeouts [Small.answers, Small.answers])).valueOf.isSome := by decide +kernel
  obtain ⟨s', hs'⟩ := Option.isSome_iff_exists.1 hsome
  have hrun : (Small.bss.run [.rx (Small.mgmt 2 []) Small.answers, .rx (Small.mgmt 92 []) Small.answers]).result =
      .ok { queue := [Small.mgmt 2 [], Small.mgmt 92 []], queueTimer := true } := rfl
  have hdrains := (queue_drains hrun).2.2 _ s' (Run.result_of_valueOf hs')
  exact ⟨_, s', hrun, Run.result_of_valueOf hs', rfl, hdrains.1⟩

/-- The events about the frames of one station and transaction. -/
def keyEvents (k : MacAddr × ℕ) (log : List BssEvent) : List BssEvent :=
  log.filter fun e => e.queueFrame.map Mgmt.queueKey = some k

@[simp] theorem keyEvents_append (k : MacAddr × ℕ) (l l' : List BssEvent) :
    keyEvents k (l ++ l') = keyEvents k l ++ keyEvents k l' := List.filter_append ..

theorem keyEvents_queueEvents (k : MacAddr × ℕ) (log : List BssEvent) : keyEvents k (queueEvents log) = keyEvents k log := by
  unfold keyEvents queueEvents
  rw [List.filter_filter]
  refine List.filter_congr fun e _ => ?_
  cases e.queueFrame <;> simp

/-- The frame of the last event, if that put it into the queue. -/
def lastQueued (events : List BssEvent) : Option Mgmt :=
  match events.getLast? with
  | some (.queued frame) => some frame
  | _ => none

theorem lastQueued_concat (events : List BssEvent) (e : BssEvent) : lastQueued (events ++ [e]) = lastQueued [e] := by
  simp [lastQueued]

theorem exists_of_lastQueued {events : List BssEvent} (h : lastQueued events = some frame) :
    ∃ before, events = before ++ [.queued frame] := by
  unfold lastQueued at h
  split at h
  · next f hlast =>
    cases h
    exact ⟨events.dropLast, (List.dropLast_append_getLast? _ hlast).symm⟩
  · cases h

/-- The queue holds what was put there last under each key. -/
structure Mailbox (log : List BssEvent) (s : BssState) : Prop where
  inv : QueueInv s
  held : ∀ k, KeyedQueue.find Mgmt.queueKey k s.queue = lastQueued (keyEvents k log)

theorem mailbox_new : Mailbox [] {} := ⟨queueInv_new, fun _ => rfl⟩

theorem QueueStep.held {log events : List BssEvent} (h : QueueStep s s' events) (hm : Mailbox log s) (k : MacAddr × ℕ) :
    KeyedQueue.find Mgmt.queueKey k s'.queue = lastQueued (keyEvents k log ++ keyEvents k events) := by
  cases h with
  | keep h =>
    rw [h.1, hm.held k]
    simp [keyEvents]
  | stop h h' =>
    rw [h', ← h, hm.held k]
    simp [keyEvents]
  | put frame htrans hroom hqueue htimer =>
    rw [hqueue, KeyedQueue.find_put, hm.held k]
    by_cases hk : k = frame.queueKey
    · have hev : keyEvents k [.queued frame] = [.queued frame] := by simp [keyEvents, BssEvent.queueFrame, hk]
      rw [if_pos hk, hev, lastQueued_concat]
      rfl
    · have hev : keyEvents k [.queued frame] = [] := by simp [keyEvents, BssEvent.queueFrame, Ne.symm hk]
      rw [if_neg hk, hev, List.append_nil]
  | take frame hqueue htimer =>
    rw [KeyedQueue.find_tail (hqueue ▸ hm.inv.distinct), ← hqueue, hm.held k]
    by_cases hk : k = frame.queueKey
    · have hev : keyEvents k [.dequeued frame] = [.dequeued frame] := by simp [keyEvents, BssEvent.queueFrame, hk]
      rw [if_pos hk, hev, lastQueued_concat]
      rfl
    · have hev : keyEvents k [.dequeued frame] = [] := by simp [keyEvents, BssEvent.queueFrame, Ne.symm hk]
      rw [if_neg hk, hev, List.append_nil]

theorem Bss.step_mailbox {log : List BssEvent} {i : BssInput} (hm : Mailbox log s)
    (h : (bss.step s i).result = .ok s') : Mailbox (log ++ (bss.step s i).log) s' := by
  have hq := Bss.step_queue h
  refine ⟨hq.inv hm.inv, fun k => ?_⟩
  rw [hq.held hm k, keyEvents_append, keyEvents_queueEvents]

/-- Every frame that came out of the queue is the one that went there last. -/
def TakesLast (log : List BssEvent) : Prop :=
  ∀ k before after frame, keyEvents k log = before ++ .dequeued frame :: after → ∃ l, before = l ++ [.queued frame]

/-- One more event: it is the one that takes a frame out, or that event is among those before. -/
theorem split_concat {events before after : List BssEvent} {e e' : BssEvent} (h : events ++ [e] = before ++ e' :: after) :
    (e = e' ∧ events = before) ∨ ∃ after', events = before ++ e' :: after' := by
  rcases List.eq_nil_or_concat after with rfl | ⟨after', b, rfl⟩
  · obtain ⟨h, he⟩ := List.append_inj' h rfl
    exact .inl ⟨List.head_eq_of_cons_eq he, h⟩
  · rw [List.concat_eq_append, ← List.cons_append, ← List.append_assoc] at h
    exact .inr ⟨after', (List.append_inj' h rfl).1⟩

theorem keyEvents_singleton (k : MacAddr × ℕ) (e : BssEvent) :
    keyEvents k [e] = [] ∨ keyEvents k [e] = [e] ∧ e.queueFrame.map Mgmt.queueKey = some k := by
  by_cases h : e.queueFrame.map Mgmt.queueKey = some k
  · exact .inr ⟨List.filter_cons_of_pos (decide_eq_true h), h⟩
  · exact .inl (List.filter_cons_of_neg (by simpa only [decide_eq_true_eq] using h))

theorem TakesLast.append {log events : List BssEvent} (h : TakesLast log) (hm : Mailbox log s)
    (he : queueEvents events = [] ∨ (∃ frame, queueEvents events = [.queued frame]) ∨
      ∃ frame rest, s.queue = frame :: rest ∧ queueEvents events = [.dequeued frame]) : TakesLast (log ++ events) := by
  intro k before after frame hsplit
  rw [keyEvents_append, ← keyEvents_queueEvents k events] at hsplit
  rcases he with he | ⟨f, he⟩ | ⟨f, rest, hq, he⟩ <;> rw [he] at hsplit
  · exact h k before after frame ((List.append_nil _).symm.trans hsplit)
  · rcases keyEvents_singleton k (.queued f) with hk | ⟨hk, -⟩ <;> rw [hk] at hsplit
    · exact h k before after frame ((List.append_nil _).symm.trans hsplit)
    · rcases split_concat hsplit with ⟨hf, -⟩ | ⟨after', hsplit⟩
      · cases hf
      · exact h k before after' frame hsplit
  · rcases keyEvents_singleton k (.dequeued f) with hk | ⟨hk, hkey⟩ <;> rw [hk] at hsplit
    · exact h k before after frame ((List.append_nil _).symm.trans hsplit)
    · rcases split_concat hsplit with ⟨hf, rfl⟩ | ⟨after', hsplit⟩
      · cases hf
        -- the frame was the first of the queue, so it went there last
        have hheld := hm.held k
        rw [hq, KeyedQueue.find, List.find?_cons_of_pos (by simpa [BssEvent.queueFrame] using hkey)] at hheld
        exact exists_of_lastQueued hheld.symm
      · exact h k before after' frame hsplit

/-- **A frame that comes out of the queue is the last one that went there**: among the events about one station and
transaction, before a frame comes out that very frame went in. So none is handled twice, or after a newer one. -/
theorem dequeued_is_last_queued (bss : Bss) (inputs : List BssInput) : TakesLast (bss.run inputs).log := by
  have hnil : TakesLast [] := by simp [TakesLast, keyEvents]
  have h : TakesLast ([] ++ (Run.steps bss.step {} inputs).log) :=
    Run.steps_log (J := fun log s => Mailbox log s ∧ TakesLast log)
      (fun _ s i _ hJ hs => ⟨Bss.step_mailbox hJ.1 hs, hJ.2.append hJ.1 (Bss.step_events s i)⟩)
      (fun _ s i hJ => hJ.2.append hJ.1 (Bss.step_events s i)) ⟨mailbox_new, hnil⟩ hnil
  exact h

end DecoyAuth
