import Mathlib.Data.List.Induction

/-!
# Computations that log and can fault

A `Run E F α` has written a list of events and ended in a value or a fault; what was logged before a fault is kept. `Sat`
is the triple of the development: every event satisfies `P`, a value satisfies `Q` and a fault satisfies `R`. `steps`
runs a step function over a list of inputs, and `Sat.steps` lifts an invariant of one step to whole runs in which every
step meets a condition (`AllSteps`). `since` is what a log says since the last event of some kind.
-/

namespace DecoyAuth

theorem except_bind_ok {F α β : Type} {x : Except F α} {f : α → Except F β} {b : β} (h : (x >>= f) = .ok b) :
    ∃ a, x = .ok a ∧ f a = .ok b := by
  cases x with
  | error e => cases h
  | ok a => exact ⟨a, rfl, h⟩

theorem except_bind_error {F α β : Type} {x : Except F α} {f : α → Except F β} {e : F} (h : (x >>= f) = .error e) :
    x = .error e ∨ ∃ a, x = .ok a ∧ f a = .error e := by
  cases x with
  | error e' => cases h; exact .inl rfl
  | ok a => exact .inr ⟨a, rfl, h⟩

theorem except_map_ok {F α β : Type} {x : Except F α} {f : α → β} {b : β} (h : x.map f = .ok b) :
    ∃ a, x = .ok a ∧ f a = b := by
  cases x with
  | error e => cases h
  | ok a => exact ⟨a, rfl, Except.ok.inj h⟩

theorem except_map_error {F α β : Type} {x : Except F α} {f : α → β} {e : F} (h : x.map f = .error e) : x = .error e := by
  cases x with
  | error e' =>
    cases h
    rfl
  | ok a => cases h

theorem except_map_bind {F α β γ : Type} (x : Except F α) (f : α → Except F β) (g : β → γ) :
    (x >>= f).map g = x >>= fun a => (f a).map g := by
  cases x <;> rfl

structure Run (E F α : Type) where
  log : List E
  result : Except F α

namespace Run

variable {E F α β : Type}

protected def pure (a : α) : Run E F α := ⟨[], .ok a⟩

protected def bind (m : Run E F α) (f : α → Run E F β) : Run E F β :=
  match m.result with
  | .ok a => ⟨m.log ++ (f a).log, (f a).result⟩
  | .error e => ⟨m.log, .error e⟩

instance : Monad (Run E F) where
  pure := Run.pure
  bind := Run.bind

def emit (e : E) : Run E F Unit := ⟨[e], .ok ()⟩

def fault (f : F) : Run E F α := ⟨[], .error f⟩

def lift (x : Except F α) : Run E F α := ⟨[], x⟩

/-- The same computation with another value. -/
def mapValue (g : α → β) (m : Run E F α) : Run E F β := ⟨m.log, m.result.map g⟩

/-- The same computation with other events. -/
def mapLog {E' : Type} (g : E → E') (m : Run E F α) : Run E' F α := ⟨m.log.map g, m.result⟩

/-- The fault that ended the computation, if any. -/
def faultOf (m : Run E F α) : Option F :=
  match m.result with
  | .ok _ => none
  | .error f => some f

/-- The value of the computation, if any. -/
def valueOf (m : Run E F α) : Option α :=
  match m.result with
  | .ok a => some a
  | .error _ => none

/-! ## Reading a computation backwards -/

@[simp] theorem pure_log (a : α) : (pure a : Run E F α).log = [] := rfl

@[simp] theorem pure_result (a : α) : (pure a : Run E F α).result = .ok a := rfl

@[simp] theorem emit_log (e : E) : (emit e : Run E F Unit).log = [e] := rfl

@[simp] theorem emit_result (e : E) : (emit e : Run E F Unit).result = .ok () := rfl

@[simp] theorem fault_log (f : F) : (fault f : Run E F α).log = [] := rfl

@[simp] theorem fault_result (f : F) : (fault f : Run E F α).result = .error f := rfl

@[simp] theorem lift_log (x : Except F α) : (lift x : Run E F α).log = [] := rfl

@[simp] theorem lift_result (x : Except F α) : (lift x : Run E F α).result = x := rfl

@[simp] theorem mapLog_log {E' : Type} (g : E → E') (m : Run E F α) : (m.mapLog g).log = m.log.map g := rfl

@[simp] theorem mapLog_result {E' : Type} (g : E → E') (m : Run E F α) : (m.mapLog g).result = m.result := rfl

variable {m : Run E F α} {f : α → Run E F β}

theorem result_of_faultOf {e : F} (h : m.faultOf = some e) : m.result = .error e := by
  unfold faultOf at h
  split at h
  · cases h
  · next h' => cases h; exact h'

theorem result_of_valueOf {a : α} (h : m.valueOf = some a) : m.result = .ok a := by
  unfold valueOf at h
  split at h
  · next h' => cases h; exact h'
  · cases h

theorem valueOf_of_result {a : α} (h : m.result = .ok a) : m.valueOf = some a := by
  rw [valueOf, h]

theorem bind_of_ok {a : α} (h : m.result = .ok a) : (m >>= f) = ⟨m.log ++ (f a).log, (f a).result⟩ := by
  change Run.bind m f = _
  unfold Run.bind
  rw [h]

theorem bind_of_error {e : F} (h : m.result = .error e) : (m >>= f) = ⟨m.log, .error e⟩ := by
  change Run.bind m f = _
  unfold Run.bind
  rw [h]

theorem pure_bind_eq (a : α) : ((pure a : Run E F α) >>= f) = f a := by
  rw [bind_of_ok (pure_result a)]
  rfl

theorem bind_congr {f' : α → Run E F β} (h : ∀ a, f a = f' a) : (m >>= f) = m >>= f' := by
  rw [funext h]

theorem mapValue_ok {a : α} (g : α → β) (h : m.result = .ok a) : (m.mapValue g).result = .ok (g a) := by
  rw [mapValue, h]
  rfl

theorem mapValue_bind {γ : Type} (g : β → γ) : (m >>= f).mapValue g = m >>= fun a => (f a).mapValue g := by
  cases h : m.result with
  | ok a =>
    rw [bind_of_ok h, bind_of_ok h]
    rfl
  | error e =>
    rw [bind_of_error h, bind_of_error h]
    rfl

theorem bind_mapValue {γ : Type} (g : α → β) {f : β → Run E F γ} : m.mapValue g >>= f = m >>= fun a => f (g a) := by
  cases h : m.result with
  | ok a =>
    rw [bind_of_ok h, bind_of_ok (mapValue_ok g h)]
    rfl
  | error e =>
    have he : (m.mapValue g).result = .error e := by
      rw [mapValue, h]
      rfl
    rw [bind_of_error h, bind_of_error he]
    rfl

theorem bind_pure_eq (g : α → β) : (m >>= fun a => (pure (g a) : Run E F β)) = ⟨m.log, m.result.map g⟩ := by
  cases h : m.result with
  | ok a => simp [bind_of_ok h, Except.map]
  | error e => simp [bind_of_error h, Except.map]

/-- A step that succeeds where `p` holds, and one after it that succeeds where the stronger `q` does. -/
theorem bind_result_ite {p q : Prop} [Decidable p] [Decidable q] {a : α} {b : β} {e : F} (hqp : q → p)
    (hm : m.result = if p then .ok a else .error e) (hf : p → (f a).result = if q then .ok b else .error e) :
    (m >>= f).result = if q then .ok b else .error e := by
  by_cases hp : p
  · rw [if_pos hp] at hm
    rw [bind_of_ok hm]
    exact hf hp
  · rw [if_neg hp] at hm
    rw [bind_of_error hm, if_neg (mt hqp hp)]

theorem bind_result_ok {b : β} :
    (m >>= f).result = .ok b ↔ ∃ a, m.result = .ok a ∧ (f a).result = .ok b := by
  cases h : m.result with
  | ok a => simp [bind_of_ok h]
  | error e => simp [bind_of_error h]

theorem bind_result_error {e : F} :
    (m >>= f).result = .error e ↔ m.result = .error e ∨ ∃ a, m.result = .ok a ∧ (f a).result = .error e := by
  cases h : m.result with
  | ok a => simp [bind_of_ok h]
  | error e => simp [bind_of_error h]

theorem mem_bind_log {e : E} : e ∈ (m >>= f).log ↔ e ∈ m.log ∨ ∃ a, m.result = .ok a ∧ e ∈ (f a).log := by
  cases h : m.result with
  | ok a => simp [bind_of_ok h]
  | error e => simp [bind_of_error h]

theorem forall_mem_bind_log {P : E → Prop} : (∀ e ∈ (m >>= f).log, P e) ↔
    (∀ e ∈ m.log, P e) ∧ ∀ a, m.result = .ok a → ∀ e ∈ (f a).log, P e := by
  simp only [mem_bind_log, or_imp, forall_and, forall_exists_index, and_imp]
  exact and_congr_right fun _ => ⟨fun h a ha e he => h e a ha he, fun h e a ha he => h a ha e he⟩

/-! ## Triples -/

/-- Every event satisfies `P`, a value satisfies `Q`, and a fault satisfies `R`. -/
structure Sat (m : Run E F α) (P : E → Prop) (Q : α → Prop) (R : F → Prop) : Prop where
  event : ∀ e ∈ m.log, P e
  value : ∀ a, m.result = .ok a → Q a
  fault : ∀ f, m.result = .error f → R f

variable {P P' : E → Prop} {Q Q' : α → Prop} {R R' : F → Prop}

theorem Sat.pure {a : α} (h : Q a) : (Pure.pure a : Run E F α).Sat P Q R :=
  ⟨by simp, by rintro a h'; cases h'; exact h, nofun⟩

theorem Sat.emit {e : E} {Q : Unit → Prop} (he : P e) (h : Q ()) : (Run.emit e : Run E F Unit).Sat P Q R :=
  ⟨by simpa using he, fun _ _ => h, nofun⟩

theorem Sat.lift {x : Except F α} (hok : ∀ a, x = .ok a → Q a) (herr : ∀ f, x = .error f → R f) :
    (Run.lift x : Run E F α).Sat P Q R := ⟨by simp, hok, herr⟩

theorem Sat.lift_mapError {G : Type} {x : Except G α} {g : G → F} (herr : ∀ e, R (g e)) :
    (Run.lift (x.mapError g) : Run E F α).Sat P (fun a => x = .ok a) R := by
  cases x with
  | ok a => exact Sat.lift (fun _ h => congrArg Except.ok (Except.ok.inj h)) nofun
  | error e => exact Sat.lift nofun fun f h => Except.error.inj h ▸ herr e

theorem Sat.of_fault {f : F} (h : R f) : (Run.fault f : Run E F α).Sat P Q R :=
  ⟨by simp, nofun, by rintro g h'; cases h'; exact h⟩

theorem Sat.imp (h : m.Sat P Q R) (hP : ∀ e, P e → P' e) (hQ : ∀ a, Q a → Q' a) (hR : ∀ f, R f → R' f) :
    m.Sat P' Q' R' :=
  ⟨fun e he => hP e (h.event e he), fun a ha => hQ a (h.value a ha), fun f hf => hR f (h.fault f hf)⟩

theorem Sat.mono (h : m.Sat P Q R) (hQ : ∀ a, Q a → Q' a) : m.Sat P Q' R :=
  ⟨h.event, fun a ha => hQ a (h.value a ha), h.fault⟩

theorem Sat.bind {S : β → Prop} (hm : m.Sat P Q R) (hf : ∀ a, m.result = .ok a → Q a → (f a).Sat P S R) :
    (m >>= f).Sat P S R where
  event e he := by
    rcases mem_bind_log.1 he with h | ⟨a, ha, h⟩
    · exact hm.event e h
    · exact (hf a ha (hm.value a ha)).event e h
  value b hb := by
    obtain ⟨a, ha, hb⟩ := bind_result_ok.1 hb
    exact (hf a ha (hm.value a ha)).value b hb
  fault e he := by
    rcases bind_result_error.1 he with h | ⟨a, ha, h⟩
    · exact hm.fault e h
    · exact (hf a ha (hm.value a ha)).fault e h

/-! ## What a computation shows -/

section Yields

variable {O : Type} (obs : E → Option O)

/-- The computation ends in `a`, and of its events `obs` sees `os`. -/
structure Yields (m : Run E F α) (a : α) (os : List O) : Prop where
  result : m.result = .ok a
  seen : m.log.filterMap obs = os

variable {obs} {a : α} {os : List O}

theorem Yields.pure (a : α) : (Pure.pure a : Run E F α).Yields obs a [] := ⟨rfl, rfl⟩

theorem Yields.emit (e : E) : (Run.emit e : Run E F Unit).Yields obs () (obs e).toList := by
  refine ⟨rfl, ?_⟩
  cases h : obs e <;> simp [h]

theorem Yields.lift {x : Except F α} (h : x = .ok a) : (Run.lift x : Run E F α).Yields obs a [] := ⟨h, rfl⟩

/-- A computation whose events `obs` does not see. -/
theorem Yields.silent (h : m.result = .ok a) (hlog : ∀ e ∈ m.log, obs e = none) : m.Yields obs a [] :=
  ⟨h, List.filterMap_eq_nil_iff.2 hlog⟩

theorem Yields.bind {b : β} {os' : List O} (hm : m.Yields obs a os) (hf : (f a).Yields obs b os') :
    (m >>= f).Yields obs b (os ++ os') := by
  rw [bind_of_ok hm.result]
  exact ⟨hf.result, by rw [List.filterMap_append, hm.seen, hf.seen]⟩

theorem Yields.bind_silent {b : β} (hm : m.Yields obs a os) (hf : (f a).Yields obs b []) :
    (m >>= f).Yields obs b os := by
  simpa using hm.bind hf

end Yields

/-! ## Whole runs -/

section Steps

variable {σ ι : Type} (step : σ → ι → Run E F σ)

/-- The step function over a list of inputs. -/
def steps : σ → List ι → Run E F σ
  | s, [] => pure s
  | s, i :: is => step s i >>= fun s' => steps s' is

/-- Every step of the run from `s` meets the condition `C` on its state and input. -/
def AllSteps (C : σ → ι → Prop) : σ → List ι → Prop
  | _, [] => True
  | s, i :: is => C s i ∧ ∀ s', (step s i).result = .ok s' → AllSteps C s' is

/-- A test of `AllSteps` for a decidable condition. -/
def checkSteps (c : σ → ι → Bool) : σ → List ι → Bool
  | _, [] => true
  | s, i :: is => c s i && match (step s i).result with
    | .ok s' => checkSteps c s' is
    | .error _ => true

variable {step} {C : σ → ι → Prop} {I : σ → Prop}

theorem allSteps_of_checkSteps {c : σ → ι → Bool} : ∀ {s : σ} {is : List ι}, checkSteps step c s is = true →
    AllSteps step (fun s i => c s i = true) s is
  | _, [], _ => trivial
  | s, i :: is, h => by
    simp only [checkSteps, Bool.and_eq_true] at h
    refine ⟨h.1, fun s' hs' => allSteps_of_checkSteps ?_⟩
    simpa only [hs'] using h.2

theorem allSteps_of_forall_mem : ∀ {s : σ} {is : List ι}, (∀ s, ∀ i ∈ is, C s i) → AllSteps step C s is
  | _, [], _ => trivial
  | s, i :: _, h => ⟨h s i List.mem_cons_self, fun _ _ => allSteps_of_forall_mem fun s j hj => h s j (List.mem_cons_of_mem i hj)⟩

theorem allSteps_of_forall (h : ∀ s i, C s i) {s : σ} {is : List ι} : AllSteps step C s is :=
  allSteps_of_forall_mem fun s i _ => h s i

/-- **An invariant of one step is an invariant of every run** whose steps meet the condition. -/
theorem Sat.steps (h : ∀ s i, I s → C s i → (step s i).Sat P I R) : ∀ {s : σ} {is : List ι}, I s →
    AllSteps step C s is → (Run.steps step s is).Sat P I R
  | _, [], hs, _ => Sat.pure hs
  | s, i :: _, hs, hC => (h s i hs hC.1).bind fun s' hs' hI => Sat.steps h hI (hC.2 s' hs')

/-- An invariant of states and of the events so far. -/
theorem steps_invariant {J : List E → σ → Prop}
    (h : ∀ l s i s', J l s → C s i → (step s i).result = .ok s' → J (l ++ (step s i).log) s') :
    ∀ {l : List E} {s s' : σ} {is : List ι}, J l s → AllSteps step C s is →
      (Run.steps step s is).result = .ok s' → J (l ++ (Run.steps step s is).log) s'
  | l, s, s', [], hJ, _, hr => by
    cases hr
    simpa [Run.steps] using hJ
  | l, s, s', i :: is, hJ, hC, hr => by
    obtain ⟨t, ht, hr⟩ := bind_result_ok.1 hr
    have ht' := steps_invariant h (h l s i t hJ hC.1 ht) (hC.2 t ht) hr
    simpa [Run.steps, bind_of_ok ht] using ht'

/-- A property of the events of every run, also of one that ends in a fault. -/
theorem steps_log {J : List E → σ → Prop} {K : List E → Prop}
    (hstep : ∀ l s i s', J l s → (step s i).result = .ok s' → J (l ++ (step s i).log) s')
    (hlog : ∀ l s i, J l s → K (l ++ (step s i).log)) :
    ∀ {l : List E} {s : σ} {is : List ι}, J l s → K l → K (l ++ (Run.steps step s is).log)
  | l, s, [], _, hK => by simpa [Run.steps] using hK
  | l, s, i :: is, hJ, _ => by
    cases h : (step s i).result with
    | error e => simpa [Run.steps, bind_of_error h] using hlog l s i hJ
    | ok t => simpa [Run.steps, bind_of_ok h] using steps_log hstep hlog (hstep l s i t hJ h) (hlog l s i hJ)

/-- The last step of a run. -/
theorem steps_concat_ok {i : ι} {s' : σ} : ∀ {s : σ} {is : List ι}, (steps step s (is ++ [i])).result = .ok s' →
    ∃ t, (steps step s is).result = .ok t ∧ (step t i).result = .ok s'
  | s, [], h => by
    obtain ⟨t, ht, h⟩ := bind_result_ok.1 h
    cases h
    exact ⟨s, rfl, ht⟩
  | s, j :: is, h => by
    obtain ⟨t, ht, h⟩ := bind_result_ok.1 h
    obtain ⟨u, hu, h⟩ := steps_concat_ok h
    exact ⟨u, bind_result_ok.2 ⟨t, ht, hu⟩, h⟩

/-- A fault of a run is a fault of one of its steps, the last one that it makes. -/
theorem steps_error {e : F} : ∀ {s : σ} {is : List ι}, (steps step s is).result = .error e →
    ∃ before i t, (steps step s before).result = .ok t ∧ (step t i).result = .error e ∧
      (steps step s is).log = (steps step s before).log ++ (step t i).log
  | s, [], h => by cases h
  | s, i :: is, h => by
    rcases bind_result_error.1 h with h | ⟨t, ht, h⟩
    · exact ⟨[], i, s, rfl, h, by simp [steps, bind_of_error h]⟩
    · obtain ⟨before, j, u, hu, hj, hlog⟩ := steps_error h
      refine ⟨i :: before, j, u, bind_result_ok.2 ⟨t, ht, hu⟩, hj, ?_⟩
      simp only [steps, bind_of_ok ht, hlog, List.append_assoc]

/-- One more step. -/
theorem steps_concat {i : ι} {s t : σ} {is : List ι} (h : (steps step s is).result = .ok t) :
    steps step s (is ++ [i]) = ⟨(steps step s is).log ++ (step t i).log, (step t i).result⟩ := by
  induction is generalizing s with
  | nil =>
    obtain rfl : s = t := Except.ok.inj h
    have hone : steps step s [i] = step s i >>= pure := rfl
    rw [List.nil_append, hone]
    cases hr : (step s i).result with
    | ok a => simp [bind_of_ok hr, steps]
    | error e => simp [bind_of_error hr, steps]
  | cons j js ih =>
    obtain ⟨u, hu, h⟩ := bind_result_ok.1 h
    rw [List.cons_append, steps, bind_of_ok hu, ih h, steps, bind_of_ok hu, List.append_assoc]

end Steps

/-! ## Logs -/

section Since

variable {E A : Type} {cut : E → Bool} {pick : E → Option A} {l l' : List E}

/-- What `pick` finds in a log since the last event of which `cut` is true. -/
def since (cut : E → Bool) (pick : E → Option A) (log : List E) : List A :=
  log.foldl (fun acc e => if cut e then [] else acc ++ (pick e).toList) []

theorem since_concat (l : List E) (e : E) :
    since cut pick (l ++ [e]) = if cut e then [] else since cut pick l ++ (pick e).toList := by
  rw [since, List.foldl_append]
  rfl

theorem since_append (h : ∀ e ∈ l', cut e = false) :
    since cut pick (l ++ l') = since cut pick l ++ l'.filterMap pick := by
  induction l' using List.reverseRecOn with
  | nil => simp
  | append_singleton l' e ih =>
    have he : cut e = false := h e (by simp)
    rw [← List.append_assoc, since_concat, he, if_neg Bool.false_ne_true, ih fun e' he' => h e' (by simp [he']),
      List.append_assoc, List.filterMap_append]
    cases hp : pick e <;> simp [hp]

/-- Events that are neither cuts nor picked do not matter. -/
theorem since_append_filter {p : E → Bool} (h : ∀ e, p e = false → cut e = false ∧ pick e = none) :
    since cut pick (l ++ l'.filter p) = since cut pick (l ++ l') := by
  induction l' using List.reverseRecOn with
  | nil => rfl
  | append_singleton l' e ih =>
    rw [List.filter_append, ← List.append_assoc, ← List.append_assoc, since_concat]
    cases hp : p e with
    | true => rw [List.filter_cons_of_pos hp, List.filter_nil, since_concat, ih]
    | false =>
      obtain ⟨hcut, hpick⟩ := h e hp
      simp [hp, hcut, hpick, ih]

theorem since_suffix (cut : E → Bool) (pick : E → Option A) (l : List E) :
    List.IsSuffix (since cut pick l) (l.filterMap pick) := by
  induction l using List.reverseRecOn with
  | nil => exact List.nil_suffix
  | append_singleton l e ih =>
    obtain ⟨before, hbefore⟩ := ih
    rw [since_concat, List.filterMap_append, ← hbefore]
    split
    · exact List.nil_suffix
    · exact ⟨before, by cases hp : pick e <;> simp [hp]⟩

end Since

end Run

end DecoyAuth
