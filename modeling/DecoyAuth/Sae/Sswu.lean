import DecoyAuth.Sae.BranchFree
import DecoyAuth.Sae.PweAgree
import DecoyAuth.Sae.Small
import DecoyAuth.Scripts.Swu

/-!
# The hash-to-curve map

`sswu` of `sae.c` with its inversions, its selections in constant time and its binary forms. It takes the parameter `z` of
a group from a table, and of a residue it takes the root that `dragonfly_sqrt` takes, for which the prime has to be 3 mod 4
(`CurveParams`). **`sswu_agrees`** says that on such a curve it maps every field element to the point to which
`simplified_swu` of the Python scripts maps it. On group 26, whose prime is 1 mod 4, `dragonfly_sqrt` fails, and
`simplified_swu` does not.
-/

namespace DecoyAuth

/-! ## The map -/

def sswuCurveParam : ℕ → Option ℤ
  | 19 => some (-10)
  | 20 => some (-12)
  | 21 => some (-4)
  | 25 => some (-5)
  | 29 => some (-5)
  | 26 => some 31
  | 28 => some (-2)
  | 30 => some 7
  | _ => none

section

variable (ec : EcParams)

/-- `z` as a non-negative integer. -/
def sswuZ (z : ℤ) : ℤ := if z < 0 then ec.prime - z.natAbs else z.natAbs

/-- `const_time_select_bin` on the binary forms of two integers. -/
def selectBn (mask : UInt32) (a b : ℤ) : Option Bytes := do
  let primeLen := Bytes.numBytes ec.prime
  return constTimeSelectBin mask.toUInt8 (← bnToBin a primeLen) (← bnToBin b primeLen)

/-- `x1` of `sswu` -/
def sswuX1 (z u2 : ℤ) : Option ℤ := do
  let t1 := bnModMul z u2 ec.prime
  let m := bnModAdd t1 (bnModSqr t1 ec.prime) ec.prime
  let mIsZero := constTimeEq (bnIs 0 m) 1
  let t := bnModExp m (ec.prime - 2) ec.prime
  let x1a := bnModMul ec.b (← bnModInverse (bnModMul z ec.a ec.prime) ec.prime) ec.prime
  let t1 := bnModMul (ec.prime - ec.b) (← bnModInverse ec.a ec.prime) ec.prime
  let x1b := bnModMul t1 (bnModAdd 1 t ec.prime) ec.prime
  return Bytes.ofBe (← selectBn ec mIsZero x1a x1b)

/-- `gx1` and `gx2` -/
def sswuG (x : ℤ) : ℤ :=
  bnModAdd (bnModAdd (bnModExp x 3 ec.prime) (bnModMul ec.a x ec.prime) ec.prime) ec.b ec.prime

/-- The end of `sswu`: of the root of `v` and its negative the one with the parity of `u`. -/
def sswuPoint (u : ℤ) (x : Bytes) (v : ℤ) : Option EcPoint := do
  let primeLen := Bytes.numBytes ec.prime
  let y ← dragonflySqrt ec.prime v
  let uBin ← bnToBin u primeLen
  let yBin ← bnToBin y primeLen
  let isEq := constTimeEq (uBin.getD (primeLen - 1) 0 &&& 1).toUInt32 (yBin.getD (primeLen - 1) 0 &&& 1).toUInt32
  pointFromBin ec (x ++ (← selectBn ec isEq y (ec.prime - y)))

def sswu (group : ℕ) (u : ℤ) : Option EcPoint := do
  let z := sswuZ ec (← sswuCurveParam group)
  let u2 := bnModSqr u ec.prime
  let x1 ← sswuX1 ec z u2
  let gx1 := sswuG ec x1
  let x2 := bnModMul (bnModMul z u2 ec.prime) x1 ec.prime
  let gx2 := sswuG ec x2
  let t1 := bnModExp gx1 ((ec.prime - 1) / 2) ec.prime
  let isQr := constTimeEq (bnIs 0 t1 ||| bnIs 1 t1) 1
  let v : ℤ := Bytes.ofBe (← selectBn ec isQr gx1 gx2)
  let x ← selectBn ec isQr x1 x2
  sswuPoint ec u x v

end

/-! ## Selections -/

section Select

variable {ec : EcParams} {a b : ℤ}

theorem bnToBin_of_lt_prime (ha : 0 ≤ a ∧ a ≤ ec.prime) :
    bnToBin a (Bytes.numBytes ec.prime) = some (Bytes.toBe (Bytes.numBytes ec.prime) a.toNat) := by
  have hp : (ec.prime : ℤ) < 256 ^ Bytes.numBytes ec.prime := by exact_mod_cast Bytes.lt_pow_numBytes ec.prime
  exact if_pos (by omega)

theorem ofBe_toBe_prime (ha : 0 ≤ a ∧ a ≤ ec.prime) :
    (Bytes.ofBe (Bytes.toBe (Bytes.numBytes ec.prime) a.toNat) : ℤ) = a := by
  rw [Bytes.ofBe_toBe (lt_of_le_of_lt (by omega) (Bytes.lt_pow_numBytes ec.prime))]
  omega

theorem selectBn_mask (c : Bool) (ha : 0 ≤ a ∧ a ≤ ec.prime) (hb : 0 ≤ b ∧ b ≤ ec.prime) :
    selectBn ec (mask c) a b = some (Bytes.toBe (Bytes.numBytes ec.prime) (if c then a else b).toNat) := by
  simp only [selectBn, bnToBin_of_lt_prime ha, bnToBin_of_lt_prime hb, Option.bind_eq_bind, Option.bind_some,
    Option.pure_def, toUInt8_mask]
  rw [constTimeSelectBin_mask8 c (by rw [Bytes.length_toBe, Bytes.length_toBe])]
  cases c <;> rfl

theorem eq_one_bnIs (n : ℤ) : constTimeEq (bnIs n a) 1 = mask (decide (a = n)) := by
  rw [constTimeEq_eq]
  congr 1
  rw [decide_eq_decide]
  unfold bnIs
  by_cases h : a = n <;> simp [h]

theorem eq_one_bnIs_or : constTimeEq (bnIs 0 a ||| bnIs 1 a) 1 = mask (decide (a = 0 ∨ a = 1)) := by
  rw [constTimeEq_eq]
  congr 1
  rw [decide_eq_decide]
  unfold bnIs
  by_cases h0 : a = 0
  · subst h0
    simp
  · by_cases h1 : a = 1 <;> simp [h0, h1]

end Select

/-! ## The candidates -/

section Candidates

variable {ec : EcParams} {z u : ℤ}

theorem cast_sswuZ (z : ℤ) : (sswuZ ec z : ZMod ec.prime) = z := by
  unfold sswuZ
  split
  · next h =>
    have hz : (z.natAbs : ℤ) = -z := by omega
    rw [hz, sub_neg_eq_add]
    push_cast
    simp
  · next h =>
    have hz : (z.natAbs : ℤ) = z := by omega
    rw [hz]

theorem sswuG_eq (x : ℤ) : sswuG ec x = Scripts.swuG x ec.prime ec.a ec.b := by
  have hp : (0 : ℤ) < ec.prime := cast_pos
  refine eq_of_cast_eq (p := ec.prime) (bnModAdd_nonneg hp _ _) (bnModAdd_lt hp _ _) (Int.emod_nonneg _ hp.ne')
    (Int.emod_lt_of_pos _ hp) ?_
  rw [Scripts.cast_swuG, sswuG]
  simp [Swu.g]

/-- `m` of the map. -/
theorem cast_sswuM (z u : ℤ) :
    ((bnModAdd (bnModMul (sswuZ ec z) (bnModSqr u ec.prime) ec.prime)
        (bnModSqr (bnModMul (sswuZ ec z) (bnModSqr u ec.prime) ec.prime) ec.prime) ec.prime : ℤ) : ZMod ec.prime) =
      (z : ZMod ec.prime) ^ 2 * (u : ZMod ec.prime) ^ 4 + z * (u : ZMod ec.prime) ^ 2 := by
  simp only [cast_bnModAdd, cast_bnModSqr, cast_bnModMul, cast_sswuZ]
  ring

/-- The first candidate of the map is that of the script. -/
theorem sswuX1_eq (hz : (z : ZMod ec.prime) ≠ 0) :
    sswuX1 ec (sswuZ ec z) (bnModSqr u ec.prime) = some (Scripts.swuX1 u ec.prime ec.a ec.b z) := by
  have hp : (0 : ℤ) < ec.prime := cast_pos
  have h2 : ec.prime ≠ 2 := ec.prime_ne_two
  have hza : ((bnModMul (sswuZ ec z) ec.a ec.prime : ℤ) : ZMod ec.prime) ≠ 0 := by
    rw [cast_bnModMul, cast_sswuZ, Int.cast_natCast]
    exact mul_ne_zero hz ec.cast_a_ne_zero
  have ha : ((ec.a : ℤ) : ZMod ec.prime) ≠ 0 := by
    rw [Int.cast_natCast]
    exact ec.cast_a_ne_zero
  obtain ⟨zaInv, hzaInv⟩ := Option.ne_none_iff_exists'.1 (mt bnModInverse_eq_none.1 hza)
  obtain ⟨aInv, haInv⟩ := Option.ne_none_iff_exists'.1 (mt bnModInverse_eq_none.1 ha)
  have hzaCast := cast_bnModInverse hzaInv
  have haCast := cast_bnModInverse haInv
  rw [cast_bnModMul, cast_sswuZ] at hzaCast
  simp only [sswuX1, Option.bind_eq_bind, hzaInv, haInv, Option.bind_some, eq_one_bnIs, Option.pure_def]
  rw [selectBn_mask _ ⟨bnModMul_nonneg hp _ _, (bnModMul_lt hp _ _).le⟩ ⟨bnModMul_nonneg hp _ _, (bnModMul_lt hp _ _).le⟩,
    Option.bind_some]
  have hm := @cast_sswuM ec z u
  set m := bnModAdd (bnModMul (sswuZ ec z) (bnModSqr u ec.prime) ec.prime)
    (bnModSqr (bnModMul (sswuZ ec z) (bnModSqr u ec.prime) ec.prime) ec.prime) ec.prime with hmDef
  have hm0 : m = 0 ↔ (z : ZMod ec.prime) ^ 2 * (u : ZMod ec.prime) ^ 4 + z * (u : ZMod ec.prime) ^ 2 = 0 := by
    rw [← hm]
    constructor
    · intro h
      rw [h, Int.cast_zero]
    · intro h
      exact eq_of_cast_eq (bnModAdd_nonneg hp _ _) (bnModAdd_lt hp _ _) le_rfl hp (h.trans Int.cast_zero.symm)
  have hx := Scripts.cast_swuX1 (a := ec.a) (b := ec.b) (z := z) (u := u) h2
  have hrange := Scripts.swuX1_range (p := ec.prime) (a := ec.a) (b := ec.b) (z := z) (u := u)
  congr 1
  by_cases h : m = 0
  · rw [decide_eq_true h, if_pos rfl, ofBe_toBe_prime ⟨bnModMul_nonneg hp _ _, (bnModMul_lt hp _ _).le⟩]
    refine eq_of_cast_eq (bnModMul_nonneg hp _ _) (bnModMul_lt hp _ _) hrange.1 hrange.2 ?_
    rw [hx, if_pos (hm0.1 h), cast_bnModMul, hzaCast]
  · rw [decide_eq_false h, if_neg Bool.false_ne_true,
      ofBe_toBe_prime ⟨bnModMul_nonneg hp _ _, (bnModMul_lt hp _ _).le⟩]
    refine eq_of_cast_eq (bnModMul_nonneg hp _ _) (bnModMul_lt hp _ _) hrange.1 hrange.2 ?_
    rw [hx, if_neg (mt hm0.2 h), cast_bnModMul, cast_bnModMul, cast_bnModAdd, cast_bnModExp, haCast, hm,
      Scripts.pow_sub_two h2, Swu.first]
    push_cast
    rw [CharP.cast_eq_zero, zero_sub]
    ring

theorem sswuX2_eq (z u x : ℤ) :
    bnModMul (bnModMul (sswuZ ec z) (bnModSqr u ec.prime) ec.prime) x ec.prime = z * bnModExp u 2 ec.prime * x % ec.prime := by
  have hp : (0 : ℤ) < ec.prime := cast_pos
  refine eq_of_cast_eq (bnModMul_nonneg hp _ _) (bnModMul_lt hp _ _) (Int.emod_nonneg _ hp.ne') (Int.emod_lt_of_pos _ hp) ?_
  simp [cast_sswuZ, pow_two]

/-- The residue test of the map counts zero as a residue, and that of the script does not. -/
theorem isQr_eq {a : ℤ} (h0 : (a : ZMod ec.prime) ≠ 0) :
    decide (bnModExp a ((ec.prime - 1) / 2) ec.prime = 0 ∨ bnModExp a ((ec.prime - 1) / 2) ec.prime = 1) =
      Util.isQuadraticResidue a ec.prime := by
  have h2 : ec.prime ≠ 2 := ec.prime_ne_two
  have hp1 : (1 : ℤ) < ec.prime := by exact_mod_cast ec.prime_prime.one_lt
  have hrange := bnModExp_range (cast_pos (p := ec.prime)) a ((ec.prime - 1) / 2)
  have hcast : ((bnModExp a ((ec.prime - 1) / 2) ec.prime : ℤ) : ZMod ec.prime) = (a : ZMod ec.prime) ^ (ec.prime / 2) := by
    rw [cast_bnModExp, Util.half_eq h2]
  have hne0 : bnModExp a ((ec.prime - 1) / 2) ec.prime ≠ 0 := by
    intro h
    rw [h, Int.cast_zero] at hcast
    exact pow_ne_zero _ h0 hcast.symm
  rw [Bool.eq_iff_iff, decide_eq_true_iff, Util.isQuadraticResidue_iff ec.prime_mod_four, or_iff_right hne0,
    and_iff_right h0, ZMod.euler_criterion ec.prime h0, ← hcast]
  constructor
  · intro h
    rw [h, Int.cast_one]
  · intro h
    exact eq_of_cast_eq hrange.1 hrange.2 zero_le_one hp1 (h.trans Int.cast_one.symm)

end Candidates

/-! ## The point -/

section Point

variable {ec : EcParams} {u x : ℤ}

theorem toBe_last_prime (n : ℕ) :
    ((Bytes.toBe (Bytes.numBytes ec.prime) n).getD (Bytes.numBytes ec.prime - 1) 0 &&& 1).toUInt32 =
      UInt32.ofNat (n % 2) := by
  obtain ⟨len, hl⟩ : ∃ len, Bytes.numBytes ec.prime = len + 1 :=
    Nat.exists_eq_succ_of_ne_zero (Bytes.numBytes_pos ec.prime_prime.pos).ne'
  rw [hl, Nat.add_sub_cancel, BranchFree.toBe_last]

theorem isEq_mask (n m : ℕ) :
    constTimeEq (UInt32.ofNat (n % 2)) (UInt32.ofNat (m % 2)) = mask (decide (n % 2 = m % 2)) := by
  rw [constTimeEq_eq]
  rcases Nat.mod_two_eq_zero_or_one n with h | h <;> rcases Nat.mod_two_eq_zero_or_one m with h' | h' <;> rw [h, h'] <;> rfl

/-- Two binary forms make a point. -/
theorem pointFromBin_toBe {y : ℤ} (hx : 0 ≤ x ∧ x ≤ ec.prime) (hy : 0 ≤ y ∧ y ≤ ec.prime) :
    pointFromBin ec (Bytes.toBe (Bytes.numBytes ec.prime) x.toNat ++ Bytes.toBe (Bytes.numBytes ec.prime) y.toNat) =
      ec.pointSetAffine x y := by
  have hxlen : (Bytes.toBe (Bytes.numBytes ec.prime) x.toNat).length = Bytes.numBytes ec.prime := Bytes.length_toBe _ _
  have hylen : (Bytes.toBe (Bytes.numBytes ec.prime) y.toNat).length = Bytes.numBytes ec.prime := Bytes.length_toBe _ _
  simp only [pointFromBin]
  rw [List.take_left' hxlen, List.drop_left' hxlen, List.take_of_length_le hylen.le, ofBe_toBe_prime hx,
    ofBe_toBe_prime hy]

theorem pointSetAffine_of_lt {y : ℤ} (hc : ec.OnCurve x y) (hx : 0 ≤ x ∧ x < ec.prime) (hy : 0 ≤ y ∧ y < ec.prime) :
    ec.pointSetAffine x y = some (.affine x y) := by
  rw [CurveParams.pointSetAffine, if_pos hc, Int.emod_eq_of_lt hx.1 hx.2, Int.emod_eq_of_lt hy.1 hy.2]

/-- From an abscissa of the curve on, the map and the script do the same. -/
theorem sswuPoint_agrees (hu : 0 ≤ u ∧ u < ec.prime) (hx : 0 ≤ x ∧ x < ec.prime)
    (h0 : Swu.g (ec.a : ZMod ec.prime) ec.b x ≠ 0) (hs : IsSquare (Swu.g (ec.a : ZMod ec.prime) ec.b x)) :
    ∃ y, Scripts.swuPoint u ec.prime x (Scripts.swuG x ec.prime ec.a ec.b) = .ok (x, y) ∧
      sswuPoint ec u (Bytes.toBe (Bytes.numBytes ec.prime) x.toNat) (Scripts.swuG x ec.prime ec.a ec.b) =
        some (.affine x y) ∧ ec.Valid (.affine x y) ∧ y % 2 = u % 2 := by
  have h4 := ec.prime_mod_four
  have hv : ((Scripts.swuG x ec.prime ec.a ec.b : ℤ) : ZMod ec.prime) = Swu.g (ec.a : ZMod ec.prime) ec.b x := by
    rw [Scripts.cast_swuG, Int.cast_natCast, Int.cast_natCast]
  set v := Scripts.swuG x ec.prime ec.a ec.b
  have hsqrt : Util.modularSqrt v ec.prime = some (bnModExp v ((ec.prime + 1) / 4) ec.prime) := by
    rw [Util.modularSqrt_of_isSquare h4 (hv ▸ h0) (hv ▸ hs), Util.bnModExp_eq_val]
  have hdragonfly : dragonflySqrt ec.prime v = some (bnModExp v ((ec.prime + 1) / 4) ec.prime) := if_pos h4
  have hsq : ((bnModExp v ((ec.prime + 1) / 4) ec.prime : ℤ) : ZMod ec.prime) ^ 2 = Swu.g (ec.a : ZMod ec.prime) ec.b x := by
    rw [cast_bnModExp, Residue.root_sq h4 (hv ▸ hs), hv]
  have hrange := bnModExp_range (cast_pos (p := ec.prime)) v ((ec.prime + 1) / 4)
  set y := bnModExp v ((ec.prime + 1) / 4) ec.prime
  have hy0 : y ≠ 0 := by
    intro h
    rw [h, Int.cast_zero, zero_pow two_ne_zero] at hsq
    exact h0 hsq.symm
  -- whichever of the two the parity selects, it is the ordinate of a point
  have hpoint : ∀ y' : ℤ, y' = y ∨ y' = ec.prime - y →
      pointFromBin ec (Bytes.toBe (Bytes.numBytes ec.prime) x.toNat ++ Bytes.toBe (Bytes.numBytes ec.prime) y'.toNat) =
        some (.affine x y') ∧ ec.Valid (.affine x y') := by
    intro y' hy'
    have hc : ec.OnCurve x y' := by
      rw [CurveParams.OnCurve, ← Swu.g, ← hsq]
      rcases hy' with rfl | rfl
      · rfl
      · push_cast
        rw [CharP.cast_eq_zero, zero_sub, neg_sq]
    rw [pointFromBin_toBe ⟨hx.1, hx.2.le⟩ (by omega), pointSetAffine_of_lt hc hx (by omega)]
    exact ⟨rfl, EcParams.valid_affine.2 ⟨hc, hx, by omega⟩⟩
  have hparity : decide (u.toNat % 2 = y.toNat % 2) = Util.ceq (Util.lsb u) (Util.lsb y) := by
    rw [Util.ceq, Util.lsb, Util.lsb, decide_eq_decide]
    omega
  have hchosen : (if Util.ceq (Util.lsb u) (Util.lsb y) then y else ec.prime - y) = y ∨
      (if Util.ceq (Util.lsb u) (Util.lsb y) then y else ec.prime - y) = ec.prime - y := by
    split
    · exact .inl rfl
    · exact .inr rfl
  refine ⟨if Util.ceq (Util.lsb u) (Util.lsb y) then y else ec.prime - y, ?_, ?_, (hpoint _ hchosen).2, ?_⟩
  · rw [Scripts.swuPoint, hsqrt]
    dsimp only
    split <;> rfl
  · simp only [sswuPoint, hdragonfly, Option.bind_eq_bind, Option.bind_some, bnToBin_of_lt_prime ⟨hu.1, hu.2.le⟩,
      bnToBin_of_lt_prime ⟨hrange.1, hrange.2.le⟩, toBe_last_prime, isEq_mask, hparity]
    rw [selectBn_mask _ ⟨hrange.1, hrange.2.le⟩ (by omega), Option.bind_some]
    exact (hpoint _ hchosen).1
  · -- the prime is odd, so the two ordinates have different parities
    unfold Util.ceq Util.lsb
    by_cases h : u % 2 = y % 2
    · rw [if_pos (decide_eq_true h), h]
    · rw [if_neg (by simpa using h)]
      omega

end Point

/-- For a group with a valid parameter the map and the script give the same point of the curve. -/
theorem sswu_eq_simplifiedSwu {ec : EcParams} {group : ℕ} {z u : ℤ} (hz : sswuCurveParam group = some z)
    (hparams : Scripts.SwuParams ec.prime (ec.a : ZMod ec.prime) ec.b z) (hu : 0 ≤ u ∧ u < ec.prime) :
    ∃ x y, Scripts.simplifiedSwu u ec.prime ec.a ec.b z = .ok (x, y) ∧ sswu ec group u = some (.affine x y) ∧
      ec.Valid (.affine x y) ∧ y % 2 = u % 2 := by
  have hp : (0 : ℤ) < ec.prime := cast_pos
  have h2 : ec.prime ≠ 2 := ec.prime_ne_two
  have hz0 : (z : ZMod ec.prime) ≠ 0 := fun h => hparams.not_isSquare (h ▸ IsSquare.zero)
  have hparams' : Scripts.SwuParams ec.prime ((ec.a : ℤ) : ZMod ec.prime) ((ec.b : ℤ) : ZMod ec.prime) z := by
    rw [Int.cast_natCast, Int.cast_natCast]
    exact hparams
  have hx1 := @sswuX1_eq ec z u hz0
  have hx1range := Scripts.swuX1_range (p := ec.prime) (a := ec.a) (b := ec.b) (z := z) (u := u)
  have hsecond := Scripts.isSquare_second (u := u) h2 hparams'
  unfold Scripts.simplifiedSwu sswu
  simp only [hz, Option.bind_eq_bind, Option.bind_some, hx1, sswuG_eq, sswuX2_eq, eq_one_bnIs_or]
  set x1 := Scripts.swuX1 u ec.prime ec.a ec.b z
  set x2 := z * bnModExp u 2 ec.prime * x1 % ec.prime with hx2
  have hx2range : 0 ≤ x2 ∧ x2 < ec.prime := ⟨Int.emod_nonneg _ hp.ne', Int.emod_lt_of_pos _ hp⟩
  have hg : ∀ x : ℤ, 0 ≤ Scripts.swuG x ec.prime ec.a ec.b ∧ Scripts.swuG x ec.prime ec.a ec.b ≤ ec.prime :=
    fun x => ⟨Int.emod_nonneg _ hp.ne', (Int.emod_lt_of_pos _ hp).le⟩
  have hg0 : ((Scripts.swuG x1 ec.prime ec.a ec.b : ℤ) : ZMod ec.prime) ≠ 0 := by
    rw [Scripts.cast_swuG]
    exact hparams'.no_root _
  rw [isQr_eq hg0, selectBn_mask _ (hg x1) (hg x2), selectBn_mask _ ⟨hx1range.1, hx1range.2.le⟩
    ⟨hx2range.1, hx2range.2.le⟩, Option.bind_some, Option.bind_some]
  cases hl : Util.isQuadraticResidue (Scripts.swuG x1 ec.prime ec.a ec.b) ec.prime with
  | true =>
    have hs := ((Util.isQuadraticResidue_iff ec.prime_mod_four).1 hl).2
    rw [Scripts.cast_swuG, Int.cast_natCast, Int.cast_natCast] at hs
    obtain ⟨y, hpy, hc, hvalid⟩ := sswuPoint_agrees hu hx1range (hparams.no_root _) hs
    refine ⟨x1, y, hpy, ?_, hvalid⟩
    rw [if_pos rfl, if_pos rfl, ofBe_toBe_prime (hg x1), hc]
  | false =>
    have hns : ¬IsSquare (Swu.g ((ec.a : ℤ) : ZMod ec.prime) ((ec.b : ℤ) : ZMod ec.prime) x1) := by
      intro hs
      rw [← Scripts.cast_swuG] at hs
      exact Bool.false_ne_true (hl.symm.trans ((Util.isQuadraticResidue_iff ec.prime_mod_four).2 ⟨hg0, hs⟩))
    have hs := hsecond hns
    have hcast : ((x2 : ℤ) : ZMod ec.prime) = (z : ZMod ec.prime) * (u : ZMod ec.prime) ^ 2 * (x1 : ℤ) := by
      simp [hx2]
    rw [← hcast, Int.cast_natCast, Int.cast_natCast] at hs
    obtain ⟨y, hpy, hc, hvalid⟩ := sswuPoint_agrees hu hx2range (hparams.no_root _) hs
    refine ⟨x2, y, hpy, ?_, hvalid⟩
    rw [if_neg Bool.false_ne_true, if_neg Bool.false_ne_true, ofBe_toBe_prime (hg x2), hc]

/-- **`sswu` lands on the curve with the parity of its argument, and `simplified_swu` on the same point.** The prime is 3
mod 4, no point of the curve may have the ordinate zero, the parameter of the group may not be a square, and `b / (z * a)`
has to be an abscissa. -/
theorem sswu_agrees {ec : EcParams} {group : ℕ} {z u : ℤ} (hz : sswuCurveParam group = some z)
    (hroot : ∀ x : ℤ, ¬x ^ 3 + ec.a * x + ec.b ≡ 0 [ZMOD ec.prime]) (hns : ¬∃ y : ℤ, y ^ 2 ≡ z [ZMOD ec.prime])
    (hex : ∃ w y : ℤ, z * ec.a * w ≡ ec.b [ZMOD ec.prime] ∧ y ^ 2 ≡ w ^ 3 + ec.a * w + ec.b [ZMOD ec.prime])
    (hu : 0 ≤ u ∧ u < ec.prime) :
    ∃ x y, sswu ec group u = some (.affine x y) ∧ ec.Valid (.affine x y) ∧ y % 2 = u % 2 ∧
      Scripts.simplifiedSwu u ec.prime ec.a ec.b z = .ok (x, y) := by
  have ha : ¬(ec.prime : ℤ) ∣ ec.a := by
    rw [← ZMod.intCast_zmod_eq_zero_iff_dvd, Int.cast_natCast]
    exact ec.cast_a_ne_zero
  have hparams := Scripts.swuParams_of_modEq ha hroot hns hex
  rw [Int.cast_natCast, Int.cast_natCast] at hparams
  obtain ⟨x, y, hpy, hc, hvalid, hparity⟩ := sswu_eq_simplifiedSwu hz hparams hu
  exact ⟨x, y, hc, hvalid, hparity, hpy⟩

/-- On the small curve with the parameter of group 20, at 0, where the denominator is zero, and at 5. -/
theorem sswu_agrees_small :
    (∃ x y, sswu Small.params 20 0 = some (.affine x y) ∧ Scripts.simplifiedSwu 0 23 1 4 (-12) = .ok (x, y)) ∧
      ∃ x y, sswu Small.params 20 5 = some (.affine x y) ∧ Scripts.simplifiedSwu 5 23 1 4 (-12) = .ok (x, y) := by
  have hcubic : ∀ x : ZMod 23, x ^ 3 + ((1 : ℕ) : ZMod 23) * x + ((4 : ℕ) : ZMod 23) ≠ 0 := by decide
  have hnonsquare : ∀ y : ZMod 23, y ^ 2 ≠ -12 := by decide
  have hroot : ∀ x : ℤ, ¬x ^ 3 + (Small.params.a : ℤ) * x + (Small.params.b : ℤ) ≡ 0 [ZMOD Small.params.prime] := by
    intro x hx
    rw [← ZMod.intCast_eq_intCast_iff] at hx
    push_cast at hx
    exact hcubic x hx
  have hns : ¬∃ y : ℤ, y ^ 2 ≡ -12 [ZMOD Small.params.prime] := by
    rintro ⟨y, hy⟩
    rw [← ZMod.intCast_eq_intCast_iff] at hy
    push_cast at hy
    exact hnonsquare y hy
  have hex : ∃ w y : ℤ, -12 * (Small.params.a : ℤ) * w ≡ (Small.params.b : ℤ) [ZMOD Small.params.prime] ∧
      y ^ 2 ≡ w ^ 3 + (Small.params.a : ℤ) * w + (Small.params.b : ℤ) [ZMOD Small.params.prime] :=
    ⟨15, 6, by decide, by decide⟩
  have hz : sswuCurveParam 20 = some (-12) := rfl
  constructor
  · obtain ⟨x, y, hc, -, -, hpy⟩ := sswu_agrees (u := 0) hz hroot hns hex (by decide)
    exact ⟨x, y, hc, hpy⟩
  · obtain ⟨x, y, hc, -, -, hpy⟩ := sswu_agrees (u := 5) hz hroot hns hex (by decide)
    exact ⟨x, y, hc, hpy⟩

end DecoyAuth
