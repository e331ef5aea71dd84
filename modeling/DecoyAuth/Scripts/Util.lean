import DecoyAuth.Crypto.Bignum
import DecoyAuth.Lib.Loop
import DecoyAuth.Lib.TonelliShanks

/-!
# Arithmetic of the Python scripts

`scripts/util.py` on Python's integers, and the exceptions of the scripts. `modular_sqrt` has three `while` loops, which
`modularSqrtWithin` cuts off after a number of passes. A prime that is 3 mod 4 is served before them
(`modularSqrt_of_isSquare`).
-/

namespace DecoyAuth.Util

/-- The exceptions that leave the modelled functions. -/
inductive PyError
  | valueError
  | assertionError
  | indexError
  | typeError
deriving DecidableEq, Repr

/-- `pow(a, -1, p)`: the inverse in `[0, p)`, and an exception where there is none. -/
def invertMod (a : ℤ) (p : ℕ) : Except PyError ℤ :=
  match bnModInverse a p with
  | some r => .ok r
  | none => .error .valueError

def legendreSymbol (a : ℤ) (p : ℕ) : ℤ :=
  if a % p = 0 then 0
  else
    let ls := bnModExp a ((p - 1) / 2) p
    if ls = p - 1 then -1 else ls

def isQuadraticResidue (a : ℤ) (p : ℕ) : Bool := legendreSymbol a p = 1

/-! ## Square roots -/

/-- `while s % 2 == 0`, with the exponent of two in `e`. -/
def oddPartStep : ℕ × ℕ → (ℕ × ℕ) ⊕ (ℕ × ℕ)
  | (s, e) => if s % 2 = 0 then .inl (s / 2, e + 1) else .inr (s, e)

/-- `while legendre_symbol(n, p) != -1` -/
def nonResidueStep (p : ℕ) (n : ℤ) : ℤ ⊕ ℤ := if legendreSymbol n p ≠ -1 then .inl (n + 1) else .inr n

/-- `for m in range(r)`, over the rest of the range: `t` is squared until it is one. The last argument is `m`, which keeps
its value after the loop, whether or not the loop was left by its `break`. -/
def orderLoop (p : ℕ) : List ℕ → ℤ → ℕ → ℕ
  | [], _, m => m
  | m :: rest, t, _ => if t = 1 then m else orderLoop p rest (bnModExp t 2 p) m

/-- The variables of the loop of Tonelli and Shanks. -/
structure Tonelli where
  x : ℤ
  b : ℤ
  g : ℤ
  r : ℕ

/-- The body of `while True`. -/
def tonelliStep (p : ℕ) (st : Tonelli) : Tonelli ⊕ ℤ :=
  let m := orderLoop p (List.range st.r) st.b 0
  if m = 0 then .inr st.x
  else
    let gs := bnModExp st.g (2 ^ (st.r - m - 1)) p
    let g := gs * gs % p
    .inl ⟨st.x * gs % p, st.b * g % p, g, m⟩

/-- `modular_sqrt` with at most `fuel` passes of each loop; `none` if they do not end one of the loops, and `some none`
for the result `None`. -/
def modularSqrtWithin (fuel : ℕ) (a : ℤ) (p : ℕ) : Option (Option ℤ) :=
  if legendreSymbol a p ≠ 1 then some none
  else if a = 0 then some (some 0)
  else if p % 4 = 3 then some (some (bnModExp a ((p + 1) / 4) p))
  else do
    let (s, e) ← Loop.run oddPartStep fuel (p - 1, 0)
    let n ← Loop.run (nonResidueStep p) fuel 2
    let x ← Loop.run (tonelliStep p) fuel ⟨bnModExp a ((s + 1) / 2) p, bnModExp a s p, bnModExp n s p, e⟩
    return some x

/-- `modular_sqrt`; for an odd prime `p` the passes are enough. -/
def modularSqrt (a : ℤ) (p : ℕ) : Option ℤ := (modularSqrtWithin p a p).getD none

/-! ## Selection -/

def ceq (x y : ℤ) : Bool := x = y

/-- Both alternatives have been evaluated. -/
def csel {α : Type*} (cond : Bool) (x y : α) : α := if cond then x else y

/-- `x & 1` -/
def lsb (x : ℤ) : ℤ := x % 2

/-! ## Lists -/

/-- `xs[i]` for an index that is not negative. -/
def index {α : Type*} (xs : List α) (i : ℕ) : Except PyError α :=
  match xs[i]? with
  | some x => .ok x
  | none => .error .indexError

@[simp] theorem ok_bind {α β : Type} (a : α) (f : α → Except PyError β) : ((Except.ok a : Except PyError α) >>= f) = f a := rfl

theorem index_of_lt {α : Type*} {xs : List α} {i : ℕ} (hi : i < xs.length) : index xs i = .ok xs[i] := by
  rw [index, List.getElem?_eq_getElem hi]

/-! ## The arithmetic on residues -/

variable {p : ℕ} [Fact p.Prime] {a : ℤ}

theorem invertMod_of_ne_zero (h : (a : ZMod p) ≠ 0) :
    ∃ r, invertMod a p = .ok r ∧ (r : ZMod p) = (a : ZMod p)⁻¹ := by
  unfold invertMod
  cases hr : bnModInverse a p with
  | none => exact absurd (bnModInverse_eq_none.1 hr) h
  | some r => exact ⟨r, rfl, cast_bnModInverse hr⟩

theorem invertMod_of_eq_zero (h : (a : ZMod p) = 0) : invertMod a p = .error .valueError := by
  rw [invertMod, bnModInverse_eq_none.2 h]

theorem emod_eq_val (z : ℤ) : z % p = ((z : ZMod p).val : ℤ) := (ZMod.val_intCast z).symm

/-- A reduced integer is the representative of its class. -/
theorem eq_val {z : ℤ} (h : 0 ≤ z ∧ z < p) : z = ((z : ZMod p).val : ℤ) := by
  rw [← emod_eq_val, Int.emod_eq_of_lt h.1 h.2]

theorem bnModExp_eq_val (e : ℕ) : bnModExp a e p = (((a : ZMod p) ^ e).val : ℤ) := by
  rw [eq_val (bnModExp_range cast_pos a e), cast_bnModExp]

theorem emod_eq_zero_iff : a % p = 0 ↔ (a : ZMod p) = 0 := by
  rw [ZMod.intCast_zmod_eq_zero_iff_dvd, Int.dvd_iff_emod_eq_zero]

section Odd

variable (h2 : p ≠ 2)
include h2

theorem half_eq : (p - 1) / 2 = p / 2 := by
  have h := (Fact.out : p.Prime).eq_two_or_odd
  omega

/-- The symbol as the script computes it, for an argument that is not zero: the power is one or minus one. -/
theorem legendreSymbol_of_ne_zero (h0 : (a : ZMod p) ≠ 0) :
    legendreSymbol a p = if (a : ZMod p) ^ (p / 2) = 1 then 1 else -1 := by
  have hlt : 2 < p := lt_of_le_of_ne (Fact.out : p.Prime).two_le h2.symm
  have := Fact.mk hlt
  have hone : ((1 : ZMod p).val : ℤ) = 1 := by
    rw [ZMod.val_one]
    rfl
  have hneg : ((-1 : ZMod p).val : ℤ) = p - 1 := by
    have h := eq_val (p := p) (z := p - 1) ⟨by omega, by omega⟩
    simpa using h.symm
  rw [legendreSymbol, if_neg (mt emod_eq_zero_iff.1 h0), bnModExp_eq_val, half_eq h2]
  rcases ZMod.pow_div_two_eq_neg_one_or_one p h0 with h | h
  · rw [h, if_pos rfl, hone]
    exact if_neg (by omega)
  · rw [h, if_neg (ZMod.neg_one_ne_one), hneg]
    exact if_pos rfl

/-- Euler's criterion. -/
theorem legendreSymbol_eq_one_iff : legendreSymbol a p = 1 ↔ (a : ZMod p) ≠ 0 ∧ IsSquare (a : ZMod p) := by
  by_cases h0 : (a : ZMod p) = 0
  · simp [legendreSymbol, emod_eq_zero_iff.2 h0, h0]
  · rw [legendreSymbol_of_ne_zero h2 h0, ZMod.euler_criterion p h0]
    simp [h0]

theorem legendreSymbol_eq_neg_one_iff : legendreSymbol a p = -1 ↔ ¬IsSquare (a : ZMod p) := by
  by_cases h0 : (a : ZMod p) = 0
  · simp [legendreSymbol, emod_eq_zero_iff.2 h0, h0]
  · rw [legendreSymbol_of_ne_zero h2 h0, ZMod.euler_criterion p h0]
    simp

end Odd

variable (h4 : p % 4 = 3)
include h4

theorem modularSqrt_of_isSquare (h0 : (a : ZMod p) ≠ 0) (hs : IsSquare (a : ZMod p)) :
    modularSqrt a p = some (((a : ZMod p) ^ ((p + 1) / 4)).val : ℤ) := by
  have ha : a ≠ 0 := by
    rintro rfl
    exact h0 Int.cast_zero
  rw [modularSqrt, modularSqrtWithin, if_neg (not_not.2 ((legendreSymbol_eq_one_iff (by omega)).2 ⟨h0, hs⟩)), if_neg ha,
    if_pos h4, bnModExp_eq_val]
  rfl

theorem modularSqrt_eq_none (h : (a : ZMod p) = 0 ∨ ¬IsSquare (a : ZMod p)) : modularSqrt a p = none := by
  rw [modularSqrt, modularSqrtWithin, if_pos]
  · rfl
  intro hl
  obtain ⟨h0, hs⟩ := (legendreSymbol_eq_one_iff (by omega)).1 hl
  exact h.elim h0 fun hn => hn hs

theorem modularSqrt_eq_some_iff {r : ℤ} : modularSqrt a p = some r ↔
    ((a : ZMod p) ≠ 0 ∧ IsSquare (a : ZMod p)) ∧ r = (((a : ZMod p) ^ ((p + 1) / 4)).val : ℤ) := by
  by_cases h : (a : ZMod p) ≠ 0 ∧ IsSquare (a : ZMod p)
  · rw [modularSqrt_of_isSquare h4 h.1 h.2, Option.some.injEq, and_iff_right h, eq_comm]
  · have hnone : modularSqrt a p = none := modularSqrt_eq_none h4 (by tauto)
    simp [hnone, h]

theorem isQuadraticResidue_iff : isQuadraticResidue a p = true ↔ (a : ZMod p) ≠ 0 ∧ IsSquare (a : ZMod p) := by
  rw [isQuadraticResidue, decide_eq_true_iff, legendreSymbol_eq_one_iff (by omega)]

end DecoyAuth.Util
