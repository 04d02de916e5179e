import Mathlib.AlgebraicGeometry.EllipticCurve.Affine.Point
import Mathlib.FieldTheory.Finite.Basic
import Mathlib.Tactic.FieldSimp
import Mathlib.Tactic.LinearCombination
import Taproot.Proofs.Key.Primality

/-! # The group of the curve

Points stand for elements of the group of an elliptic curve over a prime field. The sum of points
stands for the sum, and a multiple in Jacobian coordinates for the multiple.
-/
namespace Taproot.Curve

open WeierstrassCurve

instance : Fact p.Prime := ⟨prime_p⟩

/-- The field of coordinates. -/
abbrev Coordinate := ZMod p

/-- The curve `y² = x³ + 7`. -/
def curve : Affine Coordinate := ⟨0, 0, 0, 0, 7⟩

abbrev Group := curve.Point

/-! ## Coordinates -/

theorem cast_eq_zero_iff {a : Nat} (ha : a < p) : (a : Coordinate) = 0 ↔ a = 0 := by
  rw [ZMod.natCast_eq_zero_iff]
  exact ⟨fun h => Nat.eq_zero_of_dvd_of_lt h ha, fun h => h ▸ dvd_zero p⟩

theorem cast_inj {a b : Nat} (ha : a < p) (hb : b < p) : (a : Coordinate) = b ↔ a = b := by
  rw [ZMod.natCast_eq_natCast_iff', Nat.mod_eq_of_lt ha, Nat.mod_eq_of_lt hb]

theorem p_pos : 0 < p := prime_p.pos

theorem sub_lt (a b : Nat) : sub a b < p := Nat.mod_lt _ p_pos

theorem cast_sub {a b : Nat} (hb : b ≤ p) : (sub a b : Coordinate) = a - b := by
  rw [sub, ZMod.natCast_mod, Nat.cast_add, Nat.cast_sub hb, ZMod.natCast_self]
  ring

theorem cast_inverse (a : Nat) : (inverse a : Coordinate) = (a : Coordinate)⁻¹ := by
  have hp : powMod p a (p - 2) = a ^ (p - 2) % p := powMod_eq p a (p - 2)
  rw [inverse, hp, ZMod.natCast_mod, Nat.cast_pow]
  by_cases ha : (a : Coordinate) = 0
  · rw [ha, inv_zero, zero_pow (by decide)]
  · refine eq_inv_of_mul_eq_one_left ?_
    rw [← pow_succ]
    exact ZMod.pow_card_sub_one_eq_one ha

theorem cast_two_ne_zero : (2 : Coordinate) ≠ 0 := by
  have h := (cast_eq_zero_iff (a := 2) (by decide)).not.mpr (by decide)
  exact_mod_cast h

/-! ## The curve -/

theorem equation_iff {x y : Coordinate} : curve.Equation x y ↔ y ^ 2 = x ^ 3 + 7 := by
  rw [Affine.equation_iff]
  simp [curve]

theorem discriminant_ne_zero : curve.Δ ≠ 0 := by
  have h := (cast_eq_zero_iff (a := 21168) (by decide)).not.mpr (by decide)
  have hd : curve.Δ = -((21168 : Nat) : Coordinate) := by
    simp [WeierstrassCurve.Δ, WeierstrassCurve.b₂, WeierstrassCurve.b₄, WeierstrassCurve.b₆,
      WeierstrassCurve.b₈, curve]
    norm_num
  rw [hd]
  exact neg_ne_zero.mpr h

theorem nonsingular_iff {x y : Coordinate} : curve.Nonsingular x y ↔ y ^ 2 = x ^ 3 + 7 := by
  rw [← Affine.equation_iff_nonsingular_of_Δ_ne_zero discriminant_ne_zero, equation_iff]

theorem negY_eq (x y : Coordinate) : curve.negY x y = -y := by simp [Affine.negY, curve]

section Sum

variable {x₁ y₁ x₂ y₂ x y : Coordinate} (h₁ : curve.Nonsingular x₁ y₁)
  (h₂ : curve.Nonsingular x₂ y₂)

/-- The coordinates of a sum on a line of a given slope. -/
theorem exists_some_of_slope (hxy : ¬(x₁ = x₂ ∧ y₁ = curve.negY x₂ y₂))
    (hx : x = curve.slope x₁ x₂ y₁ y₂ ^ 2 - x₁ - x₂)
    (hy : y = curve.slope x₁ x₂ y₁ y₂ * (x₁ - x) - y₁) :
    ∃ h, (Affine.Point.some x₁ y₁ h₁ : Group) + .some x₂ y₂ h₂ = .some x y h := by
  have hX : curve.addX x₁ x₂ (curve.slope x₁ x₂ y₁ y₂) = x := by
    rw [hx, Affine.addX]
    simp [curve]
  have hY : curve.addY x₁ x₂ y₁ (curve.slope x₁ x₂ y₁ y₂) = y := by
    rw [Affine.addY, negY_eq, Affine.negAddY, hX, hy]
    ring
  have hs := Affine.nonsingular_add h₁ h₂ hxy
  rw [hX, hY] at hs
  refine ⟨hs, ?_⟩
  rw [Affine.Point.add_some hxy]
  simp only [hX, hY]

theorem exists_add (hne : x₁ ≠ x₂) (hx : x = ((y₂ - y₁) / (x₂ - x₁)) ^ 2 - x₁ - x₂)
    (hy : y = (y₂ - y₁) / (x₂ - x₁) * (x₁ - x) - y₁) :
    ∃ h, (Affine.Point.some x₁ y₁ h₁ : Group) + .some x₂ y₂ h₂ = .some x y h := by
  have hs : curve.slope x₁ x₂ y₁ y₂ = (y₂ - y₁) / (x₂ - x₁) := by
    rw [Affine.slope_of_X_ne hne, ← neg_sub y₂, ← neg_sub x₂, neg_div_neg_eq]
  refine exists_some_of_slope h₁ h₂ (fun h => hne h.1) ?_ ?_
  · rw [hs, hx]
  · rw [hs, hy]

theorem exists_double (hne : y₁ ≠ 0) (hx : x = (3 * x₁ ^ 2 / (2 * y₁)) ^ 2 - x₁ - x₁)
    (hy : y = 3 * x₁ ^ 2 / (2 * y₁) * (x₁ - x) - y₁) :
    ∃ h, (Affine.Point.some x₁ y₁ h₁ : Group) + .some x₁ y₁ h₁ = .some x y h := by
  have hny : y₁ ≠ curve.negY x₁ y₁ := by
    rw [negY_eq]
    intro h
    have h2 : 2 * y₁ = 0 := by linear_combination h
    exact (mul_ne_zero cast_two_ne_zero hne) h2
  have hs : curve.slope x₁ x₁ y₁ y₁ = 3 * x₁ ^ 2 / (2 * y₁) := by
    rw [Affine.slope_of_Y_ne rfl hny, negY_eq]
    simp [curve, two_mul]
  refine exists_some_of_slope h₁ h₁ (fun h => hny h.2) ?_ ?_
  · rw [hs, hx]
  · rw [hs, hy]

theorem add_eq_zero (hx : x₁ = x₂) (hy : y₁ = -y₂) :
    (Affine.Point.some x₁ y₁ h₁ : Group) + .some x₂ y₂ h₂ = 0 :=
  Affine.Point.add_of_Y_eq hx (by rw [negY_eq, hy])

/-- Two points over the same `x` are equal or negatives of each other. -/
theorem eq_or_eq_neg (h₁ : curve.Nonsingular x₁ y₁) (h₂ : curve.Nonsingular x₂ y₂) (hx : x₁ = x₂) :
    y₁ = y₂ ∨ y₁ = -y₂ := by
  rw [nonsingular_iff] at h₁ h₂
  rw [← sq_eq_sq_iff_eq_or_eq_neg, h₁, h₂, hx]

end Sum

/-! ## Points -/

/-- The point stands for an element of the group. -/
inductive Point.Represents : Point → Group → Prop
  | infinity : Represents infinity 0
  | affine {x y : Nat} (hx : x < p) (hy : y < p) (h : curve.Nonsingular (x : Coordinate) y) :
    Represents (affine x y) (.some _ _ h)

namespace Point

variable {P P' : Point} {Q Q' : Group}

theorem Represents.of_eq {x y : Nat} {x' y' : Coordinate} {h : curve.Nonsingular x' y'}
    (hx : x < p) (hy : y < p) (hx' : (x : Coordinate) = x') (hy' : (y : Coordinate) = y') :
    Represents (Point.affine x y) (.some x' y' h) := by
  subst hx'
  subst hy'
  exact .affine hx hy h

theorem represents_affine {x y : Nat} (h : Represents (Point.affine x y) Q) :
    x < p ∧ y < p ∧ ∃ hs : curve.Nonsingular (x : Coordinate) y, Q = .some _ _ hs := by
  cases h with
  | affine hx hy hs => exact ⟨hx, hy, hs, rfl⟩

theorem Represents.injective (h : P.Represents Q) (h' : P'.Represents Q) : P = P' := by
  cases h with
  | infinity =>
    cases h'
    rfl
  | affine hx hy hs =>
    generalize hq : Affine.Point.some _ _ hs = R at h'
    cases h' with
    | infinity => cases hq
    | affine hx' hy' hs' =>
      injection hq with h₁ h₂
      rw [(cast_inj hx hx').mp h₁, (cast_inj hy hy').mp h₂]

theorem Represents.unique (h : P.Represents Q) (h' : P.Represents Q') : Q = Q' := by
  cases h <;> cases h' <;> rfl

/-- Exactly the valid points stand for elements of the group. -/
theorem valid_iff : P.Valid ↔ ∃ Q, P.Represents Q := by
  cases P with
  | infinity => exact ⟨fun _ => ⟨0, .infinity⟩, fun _ => trivial⟩
  | affine x y =>
    have he : y * y % p = (x * x * x + 7) % p ↔ curve.Nonsingular (x : Coordinate) y := by
      rw [nonsingular_iff, ← ZMod.natCast_eq_natCast_iff']
      push_cast
      rw [← pow_two, ← pow_two, ← pow_succ]
    constructor
    · rintro ⟨hx, hy, h⟩
      exact ⟨_, .affine hx hy (he.mp h)⟩
    · rintro ⟨Q, h⟩
      obtain ⟨hx, hy, hs, -⟩ := represents_affine h
      exact ⟨hx, hy, he.mpr hs⟩

theorem Represents.neg (h : P.Represents Q) : P.neg.Represents (-Q) := by
  cases h with
  | infinity => exact .infinity
  | affine hx hy hs =>
    rw [Affine.Point.neg_some]
    refine .of_eq hx (sub_lt _ _) rfl ?_
    rw [cast_sub hy.le, negY_eq, Nat.cast_zero, zero_sub]

/-- The point on a line, given that it stands for the sum. -/
theorem represents_chord {slope x₁ y₁ x₂ : Nat} {R : Group} (h₁ : x₁ < p) (hy₁ : y₁ < p)
    (h₂ : x₂ < p) (hR : ∀ x y : Coordinate, x = (slope : Coordinate) ^ 2 - x₁ - x₂ →
      y = slope * (x₁ - x) - y₁ → ∃ h, R = .some x y h) :
    (chord slope x₁ y₁ x₂).Represents R := by
  have hx : (sub (sub (slope * slope % p) x₁) x₂ : Coordinate) =
      (slope : Coordinate) ^ 2 - x₁ - x₂ := by
    rw [cast_sub h₂.le, cast_sub h₁.le, ZMod.natCast_mod, Nat.cast_mul, pow_two]
  obtain ⟨h, rfl⟩ := hR _ _ hx rfl
  refine .of_eq (sub_lt _ _) (sub_lt _ _) rfl ?_
  rw [cast_sub hy₁.le, ZMod.natCast_mod, Nat.cast_mul, cast_sub (sub_lt _ _).le]

theorem Represents.add (h : P.Represents Q) (h' : P'.Represents Q') :
    (P.add P').Represents (Q + Q') := by
  cases h with
  | infinity =>
    rw [zero_add]
    exact h'
  | @affine x₁ y₁ hx₁ hy₁ hs =>
    cases h' with
    | infinity =>
      rw [add_zero]
      exact .affine hx₁ hy₁ hs
    | @affine x₂ y₂ hx₂ hy₂ hs' =>
      by_cases hx : x₁ = x₂
      · subst hx
        have hzero : (y₁ + y₂) % p = 0 ↔ (y₁ : Coordinate) = -y₂ := by
          rw [← Nat.dvd_iff_mod_eq_zero, ← ZMod.natCast_eq_zero_iff, Nat.cast_add,
            eq_neg_iff_add_eq_zero]
        by_cases hy : (y₁ + y₂) % p = 0
        · rw [Point.add, if_pos rfl, if_pos hy, add_eq_zero hs hs' rfl (hzero.mp hy)]
          exact .infinity
        · have hyy : (y₁ : Coordinate) = y₂ :=
            (eq_or_eq_neg hs hs' rfl).resolve_right (hzero.not.mp hy)
          obtain rfl := (cast_inj hy₁ hy₂).mp hyy
          have hne : (y₁ : Coordinate) ≠ 0 := by
            intro h0
            exact hy (hzero.mpr (by rw [h0, neg_zero]))
          rw [Point.add, if_pos rfl, if_neg hy]
          refine represents_chord hx₁ hy₁ hx₁ fun x y hx hy => exists_double hs hne ?_ ?_
          · rw [hx, ZMod.natCast_mod, Nat.cast_mul, cast_inverse, ZMod.natCast_mod]
            push_cast
            ring
          · rw [hy, ZMod.natCast_mod, Nat.cast_mul, cast_inverse, ZMod.natCast_mod]
            push_cast
            ring
      · have hne : (x₁ : Coordinate) ≠ x₂ := (cast_inj hx₁ hx₂).not.mpr hx
        have hslope : ((sub y₂ y₁ * inverse (sub x₂ x₁) % p : Nat) : Coordinate) =
            (y₂ - y₁) / (x₂ - x₁) := by
          rw [ZMod.natCast_mod, Nat.cast_mul, cast_inverse, cast_sub hy₁.le, cast_sub hx₁.le,
            div_eq_mul_inv]
        rw [Point.add, if_neg hx]
        refine represents_chord hx₁ hy₁ hx₂ fun x y hx hy => exists_add hs hs' hne ?_ ?_
        · rw [hx, hslope]
        · rw [hy, hslope]

end Point

end Taproot.Curve
