import Mathlib.Algebra.Field.Basic
import Mathlib.Algebra.Group.Even
import Mathlib.Tactic.FieldSimp
import Mathlib.Tactic.LinearCombination
import Mathlib.Tactic.Ring

/-!
# The simplified SWU map of a short Weierstrass curve

For `y ^ 2 = g x = x ^ 3 + a x + b` over a field and a parameter `z`, the abscissae `first z u` and
`z * u ^ 2 * first z u` satisfy `g (z * u ^ 2 * first z u) = z ^ 3 * u ^ 6 * g (first z u)` (`g_second`). For `z = -1`
they are `x0 u` and `x1 u = -u ^ 2 * x0 u`, with `g (x1 u) = -u ^ 6 * g (x0 u)` (`g_x1`). Both equations `x0 u = x` and
`x1 u = x` are quadratic in `u ^ 2`, with coefficients in `omega x = a / b * x + 1` (`x0_eq_iff`, `x1_eq_iff`) and the
discriminant `omega ^ 2 - 4 * omega` (`quadratic_x0_iff`, `quadratic_x1_iff`).
-/

namespace DecoyAuth.Swu

variable {F : Type*} [Field F] (a b : F)

def g (x : F) : F := x ^ 3 + a * x + b

def x0 (u : F) : F := -(b * a⁻¹ * (1 + (u ^ 4 - u ^ 2)⁻¹))

def x1 (u : F) : F := -(u ^ 2 * x0 a b u)

def omega (x : F) : F := a * b⁻¹ * x + 1

/-- The first candidate for the parameter `z`. -/
def first (z u : F) : F := -(b * a⁻¹ * (1 + (z ^ 2 * u ^ 4 + z * u ^ 2)⁻¹))

variable {a b}

/-- **The identity of the map**: the second candidate's value is `z ^ 3 * u ^ 6` times the first one's. -/
theorem g_second (ha : a ≠ 0) {z u : F} (hd : z ^ 2 * u ^ 4 + z * u ^ 2 ≠ 0) :
    g a b (z * u ^ 2 * first a b z u) = z ^ 3 * u ^ 6 * g a b (first a b z u) := by
  have hx : a * first a b z u * (z ^ 2 * u ^ 4 + z * u ^ 2) = -b * (z ^ 2 * u ^ 4 + z * u ^ 2 + 1) := by
    have hinv : (z ^ 2 * u ^ 4 + z * u ^ 2)⁻¹ * (z ^ 2 * u ^ 4 + z * u ^ 2) = 1 := inv_mul_cancel₀ hd
    have hainv : a * a⁻¹ = 1 := mul_inv_cancel₀ ha
    unfold first
    linear_combination -(b * (z ^ 2 * u ^ 4 + z * u ^ 2 + 1)) * hainv - b * a * a⁻¹ * hinv
  unfold g
  have key : (z ^ 2 * u ^ 4 + z * u ^ 2) * ((z * u ^ 2 * first a b z u) ^ 3 + a * (z * u ^ 2 * first a b z u) + b -
      z ^ 3 * u ^ 6 * (first a b z u ^ 3 + a * first a b z u + b)) = 0 := by
    linear_combination (z * u ^ 2 - z ^ 3 * u ^ 6) * hx
  exact sub_eq_zero.1 ((mul_eq_zero.1 key).resolve_left hd)

theorem x0_eq_first (u : F) : x0 a b u = first a b (-1) u := by
  unfold x0 first
  ring

theorem pow_four_sub_ne_zero {u : F} (h0 : u ≠ 0) (h1 : u ^ 2 ≠ 1) : u ^ 4 - u ^ 2 ≠ 0 := by
  have h : u ^ 4 - u ^ 2 = u ^ 2 * (u ^ 2 - 1) := by ring
  rw [h]
  exact mul_ne_zero (pow_ne_zero 2 h0) (sub_ne_zero.2 h1)

/-- `a * x0 u` is linear in the inverse of `u ^ 4 - u ^ 2`. -/
theorem x0_eq_iff_mul (ha : a ≠ 0) {u x : F} (h0 : u ≠ 0) (h1 : u ^ 2 ≠ 1) :
    x0 a b u = x ↔ a * x * (u ^ 4 - u ^ 2) = -b * (u ^ 4 - u ^ 2 + 1) := by
  have hd := pow_four_sub_ne_zero h0 h1
  have hx : a * x0 a b u * (u ^ 4 - u ^ 2) = -b * (u ^ 4 - u ^ 2 + 1) := by
    have hu : u ^ 2 - 1 ≠ 0 := sub_ne_zero.2 h1
    unfold x0
    field_simp
  constructor
  · rintro rfl
    exact hx
  · intro h
    exact mul_left_cancel₀ ha (mul_right_cancel₀ hd (hx.trans h.symm))

/-- The identity for `z = -1`: the second candidate's value is a fixed non-square times the first one's. -/
theorem g_x1 (ha : a ≠ 0) {u : F} (h0 : u ≠ 0) (h1 : u ^ 2 ≠ 1) : g a b (x1 a b u) = -u ^ 6 * g a b (x0 a b u) := by
  have hd : (-1) ^ 2 * u ^ 4 + -1 * u ^ 2 ≠ 0 := by
    have h := pow_four_sub_ne_zero h0 h1
    rwa [show (-1) ^ 2 * u ^ 4 + -1 * u ^ 2 = u ^ 4 - u ^ 2 by ring]
  have hx : x1 a b u = -1 * u ^ 2 * x0 a b u := by
    unfold x1
    ring
  rw [hx, x0_eq_first, g_second ha hd]
  ring

section Preimages

variable (ha : a ≠ 0) (hb : b ≠ 0) {u x : F} (h0 : u ≠ 0) (h1 : u ^ 2 ≠ 1)
include ha hb h0 h1

theorem x0_eq_iff : x0 a b u = x ↔ omega a b x * (u ^ 4 - u ^ 2) + 1 = 0 := by
  have hd := pow_four_sub_ne_zero h0 h1
  have hu : u ^ 2 - 1 ≠ 0 := sub_ne_zero.2 h1
  unfold x0 omega
  constructor
  · rintro rfl
    field_simp
    ring
  · intro h
    have h' : a * x * (u ^ 4 - u ^ 2) = -b * (u ^ 4 - u ^ 2 + 1) := by
      field_simp at h
      linear_combination h
    field_simp
    linear_combination -h'

theorem x1_eq_iff : x1 a b u = x ↔ u ^ 4 - omega a b x * u ^ 2 + omega a b x = 0 := by
  have hd := pow_four_sub_ne_zero h0 h1
  have hu : u ^ 2 - 1 ≠ 0 := sub_ne_zero.2 h1
  have hx : x1 a b u = b * a⁻¹ * (u ^ 2 + (u ^ 2 - 1)⁻¹) := by
    unfold x1 x0
    have : u ^ 4 - u ^ 2 = u ^ 2 * (u ^ 2 - 1) := by ring
    rw [this]
    field_simp
  rw [hx]
  unfold omega
  constructor
  · rintro rfl
    field_simp
    ring
  · intro h
    have h' : a * x * (u ^ 2 - 1) = b * (u ^ 4 - u ^ 2 + 1) := by
      field_simp at h
      linear_combination -h
    field_simp
    linear_combination -h'

/-- Where `-1` is not a square, neither candidate is zero. -/
theorem x0_ne_zero (hm : ¬IsSquare (-1 : F)) : x0 a b u ≠ 0 := by
  intro hx
  have h := (x0_eq_iff ha hb h0 h1).1 hx
  -- `u ^ 4 - u ^ 2 + 1` is a sum of two squares
  refine hm ⟨(u ^ 2 - 1) * u⁻¹, ?_⟩
  rw [omega, mul_zero, zero_add, one_mul] at h
  field_simp
  linear_combination -h

theorem x1_ne_zero (hm : ¬IsSquare (-1 : F)) : x1 a b u ≠ 0 :=
  neg_ne_zero.2 (mul_ne_zero (pow_ne_zero 2 h0) (x0_ne_zero ha hb h0 h1 hm))

end Preimages

/-! ## The quadratics -/

section Quadratics

variable {w t : F} (h2 : (2 : F) ≠ 0)
include h2

theorem quadratic_x0_iff (hw : w ≠ 0) :
    w * (t ^ 2 - t) + 1 = 0 ↔ ∃ s, s ^ 2 = w ^ 2 - 4 * w ∧ t = (w + s) * (2 * w)⁻¹ := by
  constructor
  · intro h
    refine ⟨w * (2 * t - 1), by linear_combination 4 * w * h, ?_⟩
    field_simp
    ring
  · rintro ⟨s, hs, rfl⟩
    field_simp
    linear_combination hs

theorem quadratic_x1_iff : t ^ 2 - w * t + w = 0 ↔ ∃ s, s ^ 2 = w ^ 2 - 4 * w ∧ t = (w + s) * 2⁻¹ := by
  constructor
  · intro h
    refine ⟨2 * t - w, by linear_combination 4 * h, ?_⟩
    field_simp
    ring
  · rintro ⟨s, hs, rfl⟩
    field_simp
    linear_combination hs

/-- The numerator of a root of either quadratic is not zero. -/
theorem add_ne_zero (hw : w ≠ 0) {s : F} (hs : s ^ 2 = w ^ 2 - 4 * w) : w + s ≠ 0 := by
  intro h
  have h4 : 2 * 2 * w = 0 := by linear_combination (w - s) * h + hs
  exact mul_ne_zero (mul_ne_zero h2 h2) hw h4

end Quadratics

end DecoyAuth.Swu
