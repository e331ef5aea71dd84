import DecoyAuth.Weaver.RoundTrip
import Mathlib.Data.Int.ConditionallyCompleteOrder
import Mathlib.Data.Int.Interval

/-!
# The woven coefficients hide the abscissae

The coefficients are those of the one polynomial of degree below `n` through the woven points, so two weavings agree if
and only if they interpolate the same polynomial (`weave_eq_iff`). Every polynomial of degree below `n` passes through
exactly one list of ordinates over any other abscissae. So the coefficients are consistent with every list of passwords,
once each (`weave_hides`), and they do not depend on the order of the passwords (`weave_perm`). The value at an abscissa
that was not woven is an affine function of each ordinate, and a bijection of the field (`evaluate_bijOn`).
-/

namespace DecoyAuth.Weaver

open Polynomial Lagrange Finset

/-- A list of `n` field elements. -/
structure Ordinates (p n : ℕ) (ys : List ℤ) : Prop where
  length_eq : ys.length = n
  range : ∀ y ∈ ys, 0 ≤ y ∧ y < p

/-- The polynomial of degree below `n` through the points `(x[i], y[i])`. -/
noncomputable def interpolant (p n : ℕ) [Fact p.Prime] (xs ys : List ℤ) : (ZMod p)[X] :=
  interpolate (range n) (node p xs) fun i => ((ys.getD i 0 : ℤ) : ZMod p)

section Interpolant

variable {p n : ℕ} [Fact p.Prime] {xs ys : List ℤ} (hxs : Abscissae p n xs)
include hxs

theorem degree_interpolant : (interpolant p n xs ys).degree < n := by
  have h := degree_interpolate_lt (fun i => ((ys.getD i 0 : ℤ) : ZMod p)) hxs.injOn
  rwa [card_range] at h

theorem eval_interpolant {i : ℕ} (hi : i < n) :
    (interpolant p n xs ys).eval (node p xs i) = ((ys.getD i 0 : ℤ) : ZMod p) :=
  eval_interpolate_at_node _ hxs.injOn (mem_range.2 hi)

/-- A polynomial of degree below `n` is determined by its values at the abscissae. -/
theorem eq_interpolant_iff {f : (ZMod p)[X]} (hf : f.degree < n) :
    f = interpolant p n xs ys ↔ ∀ i < n, f.eval (node p xs i) = ((ys.getD i 0 : ℤ) : ZMod p) := by
  constructor
  · rintro rfl i hi
    exact eval_interpolant hxs hi
  · intro h
    refine eq_interpolate_of_eval_eq _ hxs.injOn (by rwa [card_range]) fun i hi => ?_
    exact h i (mem_range.1 hi)

end Interpolant

section Hiding

variable {p n : ℕ} [Fact p.Prime] (R R' : Reduction p) {xs xs' ys ys' : List ℤ}

/-- Two weavings agree if and only if they interpolate the same polynomial. -/
theorem weave_eq_iff (hn : 2 ≤ n) (hxs : Abscissae p n xs) (hxs' : Abscissae p n xs') :
    weave p ys (precompute R xs n) n = weave p ys' (precompute R' xs' n) n ↔
      interpolant p n xs ys = interpolant p n xs' ys' := by
  have hp : (0 : ℤ) < p := cast_pos
  constructor
  · intro h
    ext k
    by_cases hk : k < n
    · have hc := congrArg (fun c => ((c.getD k 0 : ℤ) : ZMod p)) h
      simp only [getD_weave _ _ hk] at hc
      rwa [weaveCoeff_precompute R hxs.nonneg hn ys hk, weaveCoeff_precompute R' hxs'.nonneg hn ys' hk] at hc
    · have hle : (n : WithBot ℕ) ≤ k := by exact_mod_cast not_lt.1 hk
      rw [coeff_eq_zero_of_degree_lt ((degree_interpolant hxs).trans_le hle),
        coeff_eq_zero_of_degree_lt ((degree_interpolant hxs').trans_le hle)]
  · intro h
    refine List.map_congr_left fun k hk => ?_
    have hr := weaveCoeff_range hp ys (precompute R xs n) n k
    have hr' := weaveCoeff_range hp ys' (precompute R' xs' n) n k
    refine eq_of_cast_eq hr.1 hr.2 hr'.1 hr'.2 ?_
    rw [weaveCoeff_precompute R hxs.nonneg hn ys (List.mem_range.1 hk),
      weaveCoeff_precompute R' hxs'.nonneg hn ys' (List.mem_range.1 hk)]
    exact congrArg (fun f => f.coeff k) h

/-- The weaving over other abscissae that gives the same coefficients has the polynomial's values there. -/
theorem weave_eq_weave_iff (hn : 2 ≤ n) (hxs : Abscissae p n xs) (hxs' : Abscissae p n xs') :
    weave p ys' (precompute R' xs' n) n = weave p ys (precompute R xs n) n ↔
      ∀ k < n, (interpolant p n xs ys).eval (node p xs' k) = ((ys'.getD k 0 : ℤ) : ZMod p) := by
  rw [weave_eq_iff R' R hn hxs' hxs, eq_comm, eq_interpolant_iff hxs' (degree_interpolant hxs)]

/-- The values of the interpolating polynomial over other abscissae. -/
noncomputable def crossValues (p n : ℕ) [Fact p.Prime] (xs ys xs' : List ℤ) : List ℤ :=
  (List.range n).map fun k => (((interpolant p n xs ys).eval (node p xs' k)).val : ℤ)

theorem getD_crossValues {k : ℕ} (hk : k < n) :
    (crossValues p n xs ys xs').getD k 0 = (((interpolant p n xs ys).eval (node p xs' k)).val : ℤ) := by
  simp [crossValues, List.getElem?_range hk]

theorem ordinates_crossValues : Ordinates p n (crossValues p n xs ys xs') := by
  refine ⟨by simp [crossValues], fun y hy => ?_⟩
  obtain ⟨k, -, rfl⟩ := List.mem_map.1 hy
  exact ⟨Int.natCast_nonneg _, by exact_mod_cast ZMod.val_lt _⟩

/-- Field elements are determined by their classes. -/
theorem Ordinates.ext {ys zs : List ℤ} (hys : Ordinates p n ys) (hzs : Ordinates p n zs)
    (h : ∀ k < n, ((ys.getD k 0 : ℤ) : ZMod p) = ((zs.getD k 0 : ℤ) : ZMod p)) : ys = zs := by
  refine List.ext_getElem (hys.length_eq.trans hzs.length_eq.symm) fun k hk hk' => ?_
  have hr := hys.range _ (List.getElem_mem hk)
  have hr' := hzs.range _ (List.getElem_mem hk')
  have hc := h k (hys.length_eq ▸ hk)
  simp only [List.getD_eq_getElem?_getD, List.getElem?_eq_getElem hk, List.getElem?_eq_getElem hk',
    Option.getD_some] at hc
  exact eq_of_cast_eq hr.1 hr.2 hr'.1 hr'.2 hc

/-- The coefficients do not depend on the order of the points. -/
theorem weave_perm {ps qs : List (ℤ × ℤ)} (hperm : ps.Perm qs) (hn : 2 ≤ n)
    (hps : Abscissae p n (ps.map Prod.fst)) (hqs : Abscissae p n (qs.map Prod.fst)) :
    weave p (qs.map Prod.snd) (precompute R' (qs.map Prod.fst) n) n =
      weave p (ps.map Prod.snd) (precompute R (ps.map Prod.fst) n) n := by
  rw [weave_eq_weave_iff R R' hn hps hqs]
  intro k hk
  have hkq : k < qs.length := by
    have h := hqs.length_eq
    rw [List.length_map] at h
    omega
  -- the `k`-th point of one list is the `i`-th point of the other
  obtain ⟨i, hi, he⟩ := List.getElem_of_mem (hperm.mem_iff.2 (List.getElem_mem hkq))
  have hin : i < n := by
    have h := hps.length_eq
    rw [List.length_map] at h
    omega
  have hnode : node p (qs.map Prod.fst) k = node p (ps.map Prod.fst) i := by
    simp [node, List.getElem?_eq_getElem hkq, List.getElem?_eq_getElem hi, he]
  rw [hnode, eval_interpolant hps hin]
  simp [List.getElem?_eq_getElem hkq, List.getElem?_eq_getElem hi, he]

end Hiding

/-- **Perfect hiding.** For any other list of passwords there is exactly one list of values that weaves to the same
coefficients, and it has the same value at every password that the lists share. -/
theorem weave_hides {p n : ℕ} (hp : p.Prime) (hn : 2 ≤ n) {xs xs' ys : List ℤ} (hxs : Abscissae p n xs)
    (hxs' : Abscissae p n xs') (hys : Ordinates p n ys) :
    ∃ ys', (Ordinates p n ys' ∧
        Prototype.weave ys' (Prototype.precompute xs' n p) n p = Prototype.weave ys (Prototype.precompute xs n p) n p) ∧
      (∀ zs, Ordinates p n zs →
        Prototype.weave zs (Prototype.precompute xs' n p) n p = Prototype.weave ys (Prototype.precompute xs n p) n p →
        zs = ys') ∧
      ∀ k < n, ∀ i < n, xs'.getD k 0 ≡ xs.getD i 0 [ZMOD p] → ys'.getD k 0 = ys.getD i 0 := by
  have := Fact.mk hp
  have hp0 : (0 : ℤ) < p := cast_pos
  have hcross : ∀ k < n, (interpolant p n xs ys).eval (node p xs' k) =
      (((crossValues p n xs ys xs').getD k 0 : ℤ) : ZMod p) := by
    intro k hk
    rw [getD_crossValues hk]
    simp
  refine ⟨crossValues p n xs ys xs', ⟨ordinates_crossValues, ?_⟩, ?_, ?_⟩
  · exact (weave_eq_weave_iff _ _ hn hxs hxs').2 hcross
  · intro zs hzs h
    have hz := (weave_eq_weave_iff (Reduction.eager p) (Reduction.eager p) hn hxs hxs').1 h
    refine hzs.ext ordinates_crossValues fun k hk => ?_
    rw [← hz k hk, hcross k hk]
  · intro k hk i hi h
    have hnode : node p xs' k = node p xs i := (ZMod.intCast_eq_intCast_iff _ _ _).2 h
    have hvalues : Ordinates p n (crossValues p n xs ys xs') := ordinates_crossValues
    have hr := getD_range hp0 hvalues.range k
    have hr' := getD_range hp0 hys.range i
    refine eq_of_cast_eq hr.1 hr.2 hr'.1 hr'.2 ?_
    rw [← hcross k hk, hnode, eval_interpolant hxs hi]

/-- The list `[1, 9, 3]` and the list `[3, 4, 5]` of passwords, which share the third and the first one. -/
theorem weave_hides_seven : ∃ ys', Ordinates 7 3 ys' ∧
    Prototype.weave ys' (Prototype.precompute [3, 4, 5] 3 7) 3 7 =
      Prototype.weave [2, 0, 5] (Prototype.precompute [1, 9, 3] 3 7) 3 7 ∧ ys'.getD 0 0 = 5 := by
  have hxs : Abscissae 7 3 [1, 9, 3] := ⟨rfl, by decide, by unfold DistinctMod; decide⟩
  have hxs' : Abscissae 7 3 [3, 4, 5] := ⟨rfl, by decide, by unfold DistinctMod; decide⟩
  have hys : Ordinates 7 3 [2, 0, 5] := ⟨rfl, by decide⟩
  obtain ⟨ys', ⟨hys', hweave⟩, -, hshared⟩ := weave_hides (by decide) (by decide) hxs hxs' hys
  exact ⟨ys', hys', hweave, hshared 0 (by decide) 2 (by decide) rfl⟩

/-! ## Decoding at other abscissae -/

section Unwoven

variable {p n : ℕ} [Fact p.Prime] {xs ys : List ℤ}

theorem evaluate_range (matrix : List ℤ) (x : ℤ) :
    0 ≤ Prototype.evaluate (Prototype.weave ys matrix n p) x n p ∧
      Prototype.evaluate (Prototype.weave ys matrix n p) x n p < p :=
  evaluateLoop_eager_range cast_pos _ x _ _ (getD_range cast_pos (fun _ hc => mem_weave_range cast_pos hc) _)

/-- Decoding evaluates the interpolating polynomial. -/
theorem cast_evaluate (hn : 2 ≤ n) (hxs : Abscissae p n xs) (x : ℤ) :
    ((Prototype.evaluate (Prototype.weave ys (Prototype.precompute xs n p) n p) x n p : ℤ) : ZMod p) =
      (interpolant p n xs ys).eval (x : ZMod p) := by
  obtain ⟨rfl, hnonneg, hd⟩ := hxs
  exact evaluateLoop_weave (Reduction.eager p) hnonneg hn hd (Reduction.eager p) ys x

/-- Two ordinates in the same place give the same value only if they are equal. -/
theorem evaluate_set_injective (hn : 2 ≤ n) (hxs : Abscissae p n xs) (hys : ys.length = n) {x : ℤ}
    (hx : ∀ i < n, ¬x ≡ xs.getD i 0 [ZMOD p]) {i : ℕ} (hi : i < n) {y y' : ℤ}
    (h : Prototype.evaluate (Prototype.weave (ys.set i y) (Prototype.precompute xs n p) n p) x n p =
      Prototype.evaluate (Prototype.weave (ys.set i y') (Prototype.precompute xs n p) n p) x n p) :
    (y : ZMod p) = y' := by
  have hcast := congrArg (fun z : ℤ => (z : ZMod p)) h
  simp only [cast_evaluate hn hxs] at hcast
  have hnode : ∀ j < n, (x : ZMod p) ≠ node p xs j := fun j hj hc => hx j hj ((ZMod.intCast_eq_intCast_iff _ _ _).1 hc)
  have hset : ∀ z : ℤ, ∀ j, (ys.set i z).getD j 0 = if j = i then z else ys.getD j 0 := fun z j =>
    getD_set (by omega) z
  have hsub := Nodal.eval_interpolate_sub (v := node p xs) (fun j => (((ys.set i y).getD j 0 : ℤ) : ZMod p))
    (fun j => (((ys.set i y').getD j 0 : ℤ) : ZMod p)) hi (fun j _ hji => by simp only [hset, if_neg hji]) x
  rw [interpolant, interpolant] at hcast
  rw [hcast, sub_self] at hsub
  simp only [hset, if_true] at hsub
  exact sub_eq_zero.1 ((mul_eq_zero.1 hsub.symm).resolve_right (Nodal.eval_basis_ne_zero hxs.injOn hi hnode))

end Unwoven

/-- **A wrong key decodes any value.** At an abscissa that was not woven, the decoded value runs through the field as one
of the ordinates does. -/
theorem evaluate_bijOn {p n : ℕ} (hp : p.Prime) (hn : 2 ≤ n) {xs ys : List ℤ} (hxs : Abscissae p n xs)
    (hys : Ordinates p n ys) {x : ℤ} (hx : ∀ k < n, ¬x ≡ xs.getD k 0 [ZMOD p]) {i : ℕ} (hi : i < n) :
    Set.BijOn (fun y => Prototype.evaluate (Prototype.weave (ys.set i y) (Prototype.precompute xs n p) n p) x n p)
      (Set.Ico 0 (p : ℤ)) (Set.Ico 0 (p : ℤ)) := by
  have := Fact.mk hp
  refine ((Set.finite_Ico 0 (p : ℤ)).injOn_iff_bijOn_of_mapsTo fun y _ => evaluate_range _ x).1 ?_
  intro y hy y' hy' h
  exact eq_of_cast_eq hy.1 hy.2 hy'.1 hy'.2 (evaluate_set_injective hn hxs hys.length_eq hx hi h)

/-- The key 4 was not woven over `[1, 9, 3]`. -/
theorem evaluate_bijOn_seven :
    Set.BijOn (fun y => Prototype.evaluate (Prototype.weave ([2, 0, 5].set 1 y) (Prototype.precompute [1, 9, 3] 3 7) 3 7)
      4 3 7) (Set.Ico 0 7) (Set.Ico 0 7) := by
  have hxs : Abscissae 7 3 [1, 9, 3] := ⟨rfl, by decide, by unfold DistinctMod; decide⟩
  have hys : Ordinates 7 3 [2, 0, 5] := ⟨rfl, by decide⟩
  exact evaluate_bijOn (by decide) (by decide) hxs hys (by decide) (by decide)

-- the abscissae have to be non-negative: `BN_set_negative` keeps the sign of -3, and the last ordinate has no effect at 3
example : Prototype.evaluate (Prototype.weave [0, 0, 0, 1] (Prototype.precompute [1, 2, -3, 5] 4 7) 4 7) 3 4 7 =
    Prototype.evaluate (Prototype.weave [0, 0, 0, 0] (Prototype.precompute [1, 2, -3, 5] 4 7) 4 7) 3 4 7 := by
  decide +kernel

end DecoyAuth.Weaver
