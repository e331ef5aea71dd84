import DecoyAuth.Crypto.Bignum
import DecoyAuth.Lib.Bytes
import Mathlib.AlgebraicGeometry.EllipticCurve.Affine.Point

/-!
# The elliptic curve functions of OpenSSL

A group of `crypto_ec_init` is an elliptic curve (`EcParams`) of prime order over a prime field (`EcGroup`), and an
`EC_POINT` is plain data (`EcPoint`), so that the state of a station does not depend on the group it negotiated. The
`EC_POINT_*` functions go through Mathlib's group of points: `toPoint` and `ofPoint` translate, and `toPoint_ofPoint`
moves a computation on `EcPoint`s to the group.
-/

namespace DecoyAuth

/-! ## Groups -/

/-- A curve `y ^ 2 = x ^ 3 + a * x + b` over a prime field, as the point codecs take it: with a prime that is 3 mod 4 and
nonzero coefficients. -/
structure CurveParams where
  prime : ℕ
  a : ℕ
  b : ℕ
  prime_prime : prime.Prime
  prime_mod_four : prime % 4 = 3
  a_pos : 0 < a
  a_lt : a < prime
  b_pos : 0 < b
  b_lt : b < prime
deriving DecidableEq, Repr

namespace CurveParams

variable (C : CurveParams)

instance : Fact C.prime.Prime := ⟨C.prime_prime⟩

def curve : WeierstrassCurve.Affine (ZMod C.prime) := ⟨0, 0, 0, C.a, C.b⟩

def OnCurve (x y : ZMod C.prime) : Prop := y ^ 2 = x ^ 3 + C.a * x + C.b

instance (x y : ZMod C.prime) : Decidable (C.OnCurve x y) := inferInstanceAs (Decidable (_ = _))

theorem cast_a_ne_zero : (C.a : ZMod C.prime) ≠ 0 := by
  rw [Ne, ZMod.natCast_eq_zero_iff]
  exact Nat.not_dvd_of_pos_of_lt C.a_pos C.a_lt

theorem cast_b_ne_zero : (C.b : ZMod C.prime) ≠ 0 := by
  rw [Ne, ZMod.natCast_eq_zero_iff]
  exact Nat.not_dvd_of_pos_of_lt C.b_pos C.b_lt

/-- The discriminant, up to a factor that is a unit, is not zero. -/
def Nonsingular : Prop := (4 * C.a ^ 3 + 27 * C.b ^ 2) % C.prime ≠ 0

end CurveParams

/-- An elliptic curve: its points form a group. -/
structure EcParams extends CurveParams where
  disc_ne_zero : toCurveParams.Nonsingular
deriving DecidableEq, Repr

namespace EcParams

variable (G : EcParams)

instance : Fact G.prime.Prime := ⟨G.prime_prime⟩

theorem cast_disc_ne_zero : (4 * (G.a : ZMod G.prime) ^ 3 + 27 * (G.b : ZMod G.prime) ^ 2) ≠ 0 := by
  have h := G.disc_ne_zero
  rw [CurveParams.Nonsingular, Ne, ← Nat.dvd_iff_mod_eq_zero, ← ZMod.natCast_eq_zero_iff] at h
  exact_mod_cast h

variable {G}

/-- The curve has no singular point: its discriminant is not zero. -/
theorem nonsingular_iff {x y : ZMod G.prime} : G.curve.Nonsingular x y ↔ G.OnCurve x y := by
  have h2 := Residue.two_ne_zero (p := G.prime) G.prime_mod_four
  rw [WeierstrassCurve.Affine.nonsingular_iff, WeierstrassCurve.Affine.equation_iff]
  simp only [CurveParams.curve, CurveParams.OnCurve, zero_mul, add_zero, sub_zero, mul_zero]
  refine ⟨And.left, fun h => ⟨h, ?_⟩⟩
  by_contra hs
  obtain ⟨hx, hy⟩ := not_or.1 hs
  have hy0 : y = 0 := (mul_eq_zero.1 (by linear_combination not_not.1 hy : 2 * y = 0)).resolve_left h2
  have hx0 : 3 * x ^ 2 + (G.a : ZMod G.prime) = 0 := by linear_combination -(not_not.1 hx)
  have he : x ^ 3 + G.a * x + (G.b : ZMod G.prime) = 0 := by rw [← h, hy0]; ring
  -- a common root of the cubic and its derivative kills the discriminant
  refine G.cast_disc_ne_zero ?_
  linear_combination (6 * G.a * x ^ 2 - 9 * G.b * x + 4 * (G.a : ZMod G.prime) ^ 2) * hx0
    + (27 * G.b - 18 * G.a * x) * he

variable (G)

/-- The order annihilates the group. -/
def HasOrder (order : ℕ) : Prop := ∀ P : G.curve.Point, order • P = 0

end EcParams

/-- What `EC_GROUP_get_curve` and `EC_GROUP_get_order` give for a named curve. Every curve that `dragonfly_suitable_group`
admits (19, 20 and 21) is an elliptic curve over a prime field whose prime is 3 mod 4 and fits in `SAE_MAX_ECC_PRIME_LEN`,
66 bytes. The group has the order that OpenSSL gives for it, and cofactor 1. -/
structure EcGroup extends EcParams where
  order : ℕ
  order_prime : order.Prime
  numBytes_prime_le : Bytes.numBytes prime ≤ 66
  hasOrder : toEcParams.HasOrder order
deriving DecidableEq, Repr

/-! ## Points -/

/-- An `EC_POINT`: `EC_POINT_new` gives the point at infinity. -/
inductive EcPoint
  | infinity
  | affine (x y : ℤ)
deriving DecidableEq, Repr

/-- `EC_POINT_get_affine_coordinates`; the point at infinity has none. -/
def EcPoint.getAffine : EcPoint → Option (ℤ × ℤ)
  | .infinity => none
  | .affine x y => some (x, y)

def EcPoint.isAtInfinity (P : EcPoint) : Bool := P = .infinity

/-- `EC_POINT_set_affine_coordinates`: the coordinates are reduced, and refused off the curve. -/
def CurveParams.pointSetAffine (C : CurveParams) (x y : ℤ) : Option EcPoint :=
  if C.OnCurve x y then some (.affine (x % C.prime) (y % C.prime)) else none

namespace EcParams

variable (G : EcParams)

/-- The group element that a point stands for. Coordinates off the curve stand for nothing; no function here
produces them. -/
def toPoint : EcPoint → G.curve.Point
  | .infinity => 0
  | .affine x y => if h : G.OnCurve x y then .some x y (nonsingular_iff.2 h) else 0

def ofPoint : G.curve.Point → EcPoint
  | .zero => .infinity
  | .some x y _ => .affine x.val y.val

/-- `EC_POINT_is_on_curve`, for reduced coordinates. -/
def Valid (P : EcPoint) : Prop := G.ofPoint (G.toPoint P) = P

instance (P : EcPoint) : Decidable (G.Valid P) := inferInstanceAs (Decidable (_ = _))

def pointAdd (P Q : EcPoint) : EcPoint := G.ofPoint (G.toPoint P + G.toPoint Q)

def pointInvert (P : EcPoint) : EcPoint := G.ofPoint (-G.toPoint P)

def pointMul (P : EcPoint) (k : ℤ) : EcPoint := G.ofPoint (k • G.toPoint P)

/-! ## The group behind the points -/

variable {G}

@[simp] theorem toPoint_infinity : G.toPoint .infinity = 0 := rfl

@[simp] theorem ofPoint_zero : G.ofPoint 0 = .infinity := rfl

theorem toPoint_affine {x y : ℤ} (h : G.OnCurve x y) : G.toPoint (.affine x y) = .some _ _ (nonsingular_iff.2 h) :=
  dif_pos h

@[simp] theorem toPoint_ofPoint (P : G.curve.Point) : G.toPoint (G.ofPoint P) = P := by
  cases P with
  | zero => rfl
  | some x y h =>
    have hx : ((x.val : ℤ) : ZMod G.prime) = x := by simp
    have hy : ((y.val : ℤ) : ZMod G.prime) = y := by simp
    have hc : G.OnCurve ((x.val : ℤ) : ZMod G.prime) ((y.val : ℤ) : ZMod G.prime) := by
      rw [hx, hy]
      exact nonsingular_iff.1 h
    rw [ofPoint, toPoint_affine hc]
    congr 1

theorem ofPoint_injective : Function.Injective G.ofPoint :=
  Function.LeftInverse.injective toPoint_ofPoint

@[simp] theorem ofPoint_eq_infinity {P : G.curve.Point} : G.ofPoint P = .infinity ↔ P = 0 :=
  ⟨fun h => ofPoint_injective (h.trans ofPoint_zero.symm), fun h => by rw [h, ofPoint_zero]⟩

theorem valid_ofPoint (P : G.curve.Point) : G.Valid (G.ofPoint P) := by rw [Valid, toPoint_ofPoint]

theorem ofPoint_some {x y : ZMod G.prime} (h : G.curve.Nonsingular x y) :
    G.ofPoint (.some x y h) = .affine x.val y.val := rfl

theorem valid_affine {x y : ℤ} : G.Valid (.affine x y) ↔
    G.OnCurve x y ∧ (0 ≤ x ∧ x < G.prime) ∧ (0 ≤ y ∧ y < G.prime) := by
  have hp : (0 : ℤ) < G.prime := cast_pos
  unfold Valid
  by_cases h : G.OnCurve x y
  · rw [toPoint_affine h, ofPoint_some]
    simp only [EcPoint.affine.injEq, ZMod.val_intCast, h, true_and]
    constructor
    · rintro ⟨hx, hy⟩
      rw [← hx, ← hy]
      exact ⟨⟨Int.emod_nonneg _ hp.ne', Int.emod_lt_of_pos _ hp⟩, Int.emod_nonneg _ hp.ne', Int.emod_lt_of_pos _ hp⟩
    · rintro ⟨hx, hy⟩
      exact ⟨Int.emod_eq_of_lt hx.1 hx.2, Int.emod_eq_of_lt hy.1 hy.2⟩
  · simp [toPoint, h]

@[simp] theorem toPoint_pointAdd (P Q : EcPoint) : G.toPoint (G.pointAdd P Q) = G.toPoint P + G.toPoint Q :=
  toPoint_ofPoint _

@[simp] theorem toPoint_pointInvert (P : EcPoint) : G.toPoint (G.pointInvert P) = -G.toPoint P := toPoint_ofPoint _

@[simp] theorem toPoint_pointMul (P : EcPoint) (k : ℤ) : G.toPoint (G.pointMul P k) = k • G.toPoint P :=
  toPoint_ofPoint _

theorem valid_pointAdd (P Q : EcPoint) : G.Valid (G.pointAdd P Q) := valid_ofPoint _

theorem valid_pointInvert (P : EcPoint) : G.Valid (G.pointInvert P) := valid_ofPoint _

theorem pointSetAffine_some {x y : ℤ} {P : EcPoint} (h : G.pointSetAffine x y = some P) :
    ∃ hc : G.OnCurve x y, P = G.ofPoint (.some _ _ (nonsingular_iff.2 hc)) := by
  unfold CurveParams.pointSetAffine at h
  split at h
  · next hc =>
    cases h
    exact ⟨hc, by rw [ofPoint_some, ZMod.val_intCast, ZMod.val_intCast]⟩
  · cases h

theorem pointSetAffine_of_onCurve {x y : ℤ} (hc : G.OnCurve x y) :
    G.pointSetAffine x y = some (G.ofPoint (.some _ _ (nonsingular_iff.2 hc))) := by
  rw [CurveParams.pointSetAffine, if_pos hc, ofPoint_some, ZMod.val_intCast, ZMod.val_intCast]

end EcParams

end DecoyAuth
