import Mathlib.Init
import Mathlib.Data.Nat.Notation

/-!
# Loops that end

A `while` loop is a step that goes on with a new state or returns. `run` makes at most a given number of passes, and
`none` says that they did not end the loop. A result does not depend on the number of passes (`run_mono`), and an
invariant with a variant gives one (`exists_run`). A loop over a list in a monad is the pure loop where no pass has an
effect (`mapM_eq_pure`, `foldlM_eq_pure`).
-/

namespace DecoyAuth.Loop

variable {σ ρ : Type*} {step : σ → σ ⊕ ρ}

/-- At most `fuel` passes of the loop. -/
def run (step : σ → σ ⊕ ρ) : ℕ → σ → Option ρ
  | 0, _ => none
  | fuel + 1, s =>
    match step s with
    | .inl s' => run step fuel s'
    | .inr r => some r

theorem run_of_inl {s s' : σ} (h : step s = .inl s') (fuel : ℕ) : run step (fuel + 1) s = run step fuel s' := by
  simp only [run, h]

theorem run_of_inr {s : σ} {r : ρ} (h : step s = .inr r) (fuel : ℕ) : run step (fuel + 1) s = some r := by
  simp only [run, h]

/-- More passes do not change the result. -/
theorem run_mono {r : ρ} : ∀ {fuel fuel' : ℕ} {s : σ}, run step fuel s = some r → fuel ≤ fuel' →
    run step fuel' s = some r := by
  intro fuel
  induction fuel with
  | zero => intro fuel' s h _; cases h
  | succ fuel ih =>
    intro fuel' s h hle
    obtain ⟨k, rfl⟩ : ∃ k, fuel' = k + 1 := ⟨fuel' - 1, by omega⟩
    cases hs : step s with
    | inl s' =>
      rw [run_of_inl hs] at h ⊢
      exact ih h (by omega)
    | inr r' =>
      rw [run_of_inr hs] at h ⊢
      exact h

/-- **The rule for loops**: a variant that each pass lowers bounds the number of passes, and what the last pass returns
has the postcondition. -/
theorem exists_run (inv : σ → Prop) (variant : σ → ℕ) (post : ρ → Prop)
    (hinl : ∀ s s', inv s → step s = .inl s' → inv s' ∧ variant s' < variant s)
    (hinr : ∀ s r, inv s → step s = .inr r → post r) {s : σ} (hs : inv s) :
    ∃ r, post r ∧ ∀ fuel, variant s < fuel → run step fuel s = some r := by
  suffices h : ∀ k s, variant s < k → inv s → ∃ r, post r ∧ run step k s = some r by
    obtain ⟨r, hr, hrun⟩ := h (variant s + 1) s (Nat.lt_succ_self _) hs
    exact ⟨r, hr, fun fuel hf => run_mono hrun hf⟩
  intro k
  induction k with
  | zero => intro s h _; omega
  | succ k ih =>
    intro s hk hinv
    cases hstep : step s with
    | inl s' =>
      obtain ⟨hinv', hlt⟩ := hinl s s' hinv hstep
      rw [run_of_inl hstep]
      exact ih s' (by omega) hinv'
    | inr r =>
      rw [run_of_inr hstep]
      exact ⟨r, hinr s r hinv hstep, rfl⟩

/-! ## Loops over a list -/

section Effects

variable {α β : Type} {m : Type → Type*} [Monad m] [LawfulMonad m]

theorem mapM_eq_pure {f : α → m β} {g : α → β} :
    ∀ {l : List α}, (∀ a ∈ l, f a = pure (g a)) → l.mapM f = pure (l.map g)
  | [], _ => by simp
  | a :: l, h => by
    rw [List.mapM_cons, h a List.mem_cons_self, mapM_eq_pure fun b hb => h b (List.mem_cons_of_mem _ hb)]
    simp

theorem foldlM_eq_pure {f : β → α → m β} {g : β → α → β} :
    ∀ {l : List α}, (∀ a ∈ l, ∀ b, f b a = pure (g b a)) → ∀ b, l.foldlM f b = pure (l.foldl g b)
  | [], _, _ => by simp
  | a :: l, h, b => by
    rw [List.foldlM_cons, h a List.mem_cons_self, pure_bind, List.foldl_cons]
    exact foldlM_eq_pure (fun c hc => h c (List.mem_cons_of_mem _ hc)) (g b a)

end Effects

end DecoyAuth.Loop
