import Taproot.Proofs.Key.Group

/-! # Multiples of points

Doubling and adding in Jacobian coordinates stand for doubling and adding in the group, so that a
multiple that is computed bit by bit stands for the multiple.
-/
namespace Taproot.Curve

open WeierstrassCurve

variable {Q R : Group}

namespace Jacobian

/-- The coordinates are reduced, and where `z` is not zero they stand for a finite point. -/
structure Represents (a : Jacobian) (Q : Group) : Prop where
  x_lt : a.x < p
  y_lt : a.y < p
  z_lt : a.z < p
  zero : a.z = 0 → Q = 0
  some : a.z ≠ 0 → ∃ h : curve.Nonsingular ((a.x : Coordinate) / (a.z : Coordinate) ^ 2)
    ((a.y : Coordinate) / (a.z : Coordinate) ^ 3), Q = Affine.Point.some _ _ h

variable {a : Jacobian}

theorem Represents.cast_z (h : a.Represents Q) : (a.z : Coordinate) = 0 ↔ a.z = 0 :=
  cast_eq_zero_iff h.z_lt

theorem represents_infinity : infinity.Represents 0 where
  x_lt := by decide
  y_lt := by decide
  z_lt := by decide
  zero _ := rfl
  some h := absurd rfl h

/-- A triple with the coordinates of a finite point. -/
theorem represents_of_some {x y z : Nat} {x' y' : Coordinate} {h : curve.Nonsingular x' y'}
    (hx : x < p) (hy : y < p) (hz : z < p) (hne : (z : Coordinate) ≠ 0)
    (hx' : x' = (x : Coordinate) / (z : Coordinate) ^ 2)
    (hy' : y' = (y : Coordinate) / (z : Coordinate) ^ 3) :
    (Jacobian.mk x y z).Represents (.some x' y' h) := by
  subst hx'
  subst hy'
  exact ⟨hx, hy, hz, fun h0 => absurd ((cast_eq_zero_iff hz).mpr h0) hne, fun _ => ⟨h, rfl⟩⟩

theorem mod_lt (m : Nat) : m % p < p := Nat.mod_lt m p_pos

/-! ## Doubling -/

theorem cast_double_x (a : Jacobian) : (a.double.x : Coordinate) =
    (3 * (a.x : Coordinate) ^ 2) ^ 2 - 2 * (4 * a.x * (a.y : Coordinate) ^ 2) := by
  simp only [double, cast_sub (mod_lt _).le, ZMod.natCast_mod, Nat.cast_mul, Nat.cast_ofNat]
  ring

theorem cast_double_y (a : Jacobian) : (a.double.y : Coordinate) =
    3 * (a.x : Coordinate) ^ 2 * (4 * a.x * (a.y : Coordinate) ^ 2 - a.double.x) -
      8 * (a.y : Coordinate) ^ 4 := by
  rw [cast_double_x]
  simp only [double, cast_sub (mod_lt _).le, cast_sub (sub_lt _ _).le, ZMod.natCast_mod,
    Nat.cast_mul, Nat.cast_ofNat]
  ring

theorem cast_double_z (a : Jacobian) : (a.double.z : Coordinate) = 2 * a.y * a.z := by
  simp only [double, ZMod.natCast_mod, Nat.cast_mul, Nat.cast_ofNat]

theorem Represents.double (h : a.Represents Q) : a.double.Represents (Q + Q) := by
  have hx : a.double.x < p := sub_lt _ _
  have hy : a.double.y < p := sub_lt _ _
  have hz : a.double.z < p := mod_lt _
  by_cases hz0 : a.z = 0
  · have hd : a.double.z = 0 := by simp [Jacobian.double, hz0]
    have hq : Q + Q = 0 := by rw [h.zero hz0, add_zero]
    exact ⟨hx, hy, hz, fun _ => hq, fun hne => absurd hd hne⟩
  · have hzc : (a.z : Coordinate) ≠ 0 := h.cast_z.not.mpr hz0
    obtain ⟨hs, rfl⟩ := h.some hz0
    by_cases hy0 : (a.y : Coordinate) = 0
    · have hd : a.double.z = 0 := by
        rw [← cast_eq_zero_iff hz, cast_double_z, hy0]
        ring
      have hneg : (a.y : Coordinate) / (a.z : Coordinate) ^ 3 = -(a.y / (a.z : Coordinate) ^ 3) := by
        rw [hy0]
        ring
      exact ⟨hx, hy, hz, fun _ => add_eq_zero hs hs rfl hneg, fun hne => absurd hd hne⟩
    · have hdz : (a.double.z : Coordinate) ≠ 0 := by
        rw [cast_double_z]
        exact mul_ne_zero (mul_ne_zero cast_two_ne_zero hy0) hzc
      have h2 := cast_two_ne_zero
      obtain ⟨hs', he⟩ := exists_double hs (div_ne_zero hy0 (pow_ne_zero 3 hzc))
        (x := a.double.x / (a.double.z : Coordinate) ^ 2)
        (y := a.double.y / (a.double.z : Coordinate) ^ 3)
        (by
          rw [cast_double_x, cast_double_z]
          field_simp
          ring)
        (by
          rw [cast_double_y, cast_double_x, cast_double_z]
          field_simp
          ring)
      rw [he]
      exact represents_of_some hx hy hz hdz rfl rfl

/-! ## Adding a finite point -/

/-- How far the triple is from the point, in `x` and in `y`. -/
def gapX (a : Jacobian) (x : Nat) : Nat := sub (x * (a.z * a.z % p) % p) a.x

def gapY (a : Jacobian) (y : Nat) : Nat := sub (y * (a.z * (a.z * a.z % p) % p) % p) a.y

theorem cast_gapX (h : a.x < p) (x : Nat) :
    (a.gapX x : Coordinate) = x * (a.z : Coordinate) ^ 2 - a.x := by
  rw [gapX, cast_sub h.le]
  simp only [ZMod.natCast_mod, Nat.cast_mul]
  ring

theorem cast_gapY (h : a.y < p) (y : Nat) :
    (a.gapY y : Coordinate) = y * (a.z : Coordinate) ^ 3 - a.y := by
  rw [gapY, cast_sub h.le]
  simp only [ZMod.natCast_mod, Nat.cast_mul]
  ring

/-- The sum where the triple and the point are over different `x`. -/
def apart (a : Jacobian) (x y : Nat) : Jacobian :=
  let h := a.gapX x
  let r := a.gapY y
  let hh := h * h % p
  let hhh := h * hh % p
  let v := a.x * hh % p
  let x₃ := sub (sub (r * r % p) hhh) (2 * v % p)
  ⟨x₃, sub (r * sub v x₃ % p) (a.y * hhh % p), a.z * h % p⟩

theorem addAffine_eq (a : Jacobian) (x y : Nat) : a.addAffine x y =
    if a.z = 0 then ⟨x, y, 1⟩
    else if a.gapX x = 0 then if a.gapY y = 0 then a.double else infinity
    else a.apart x y := rfl

theorem cast_apart_x (a : Jacobian) (x y : Nat) : ((a.apart x y).x : Coordinate) =
    (a.gapY y : Coordinate) ^ 2 - (a.gapX x : Coordinate) ^ 3 -
      2 * (a.x * (a.gapX x : Coordinate) ^ 2) := by
  simp only [apart, cast_sub (mod_lt _).le, ZMod.natCast_mod, Nat.cast_mul, Nat.cast_ofNat]
  ring

theorem cast_apart_y (a : Jacobian) (x y : Nat) : ((a.apart x y).y : Coordinate) =
    a.gapY y * (a.x * (a.gapX x : Coordinate) ^ 2 - (a.apart x y).x) -
      a.y * (a.gapX x : Coordinate) ^ 3 := by
  rw [cast_apart_x]
  simp only [apart, cast_sub (mod_lt _).le, cast_sub (sub_lt _ _).le, ZMod.natCast_mod,
    Nat.cast_mul, Nat.cast_ofNat]
  ring

theorem cast_apart_z (a : Jacobian) (x y : Nat) :
    ((a.apart x y).z : Coordinate) = a.z * a.gapX x := by
  simp only [apart, ZMod.natCast_mod, Nat.cast_mul]

section Apart

variable {x y : Nat}

/-- The slope of the line through the two points. -/
theorem slope_eq (h : a.Represents Q) (hz : (a.z : Coordinate) ≠ 0) :
    ((y : Coordinate) - a.y / (a.z : Coordinate) ^ 3) / (x - a.x / (a.z : Coordinate) ^ 2) =
      a.gapY y / (a.z * a.gapX x) := by
  have hd : (x : Coordinate) - a.x / (a.z : Coordinate) ^ 2 =
      a.gapX x / (a.z : Coordinate) ^ 2 := by
    rw [cast_gapX h.x_lt]
    field_simp
  have hn : (y : Coordinate) - a.y / (a.z : Coordinate) ^ 3 =
      a.gapY y / (a.z : Coordinate) ^ 3 := by
    rw [cast_gapY h.y_lt]
    field_simp
  rw [hd, hn]
  field_simp

theorem gapX_eq_zero_iff (h : a.Represents Q) (hz : (a.z : Coordinate) ≠ 0) :
    a.gapX x = 0 ↔ (a.x : Coordinate) / (a.z : Coordinate) ^ 2 = x := by
  rw [← cast_eq_zero_iff (a := a.gapX x) (sub_lt _ _), cast_gapX h.x_lt, div_eq_iff (pow_ne_zero 2 hz), sub_eq_zero,
    eq_comm]

theorem gapY_eq_zero_iff (h : a.Represents Q) (hz : (a.z : Coordinate) ≠ 0) :
    a.gapY y = 0 ↔ (a.y : Coordinate) / (a.z : Coordinate) ^ 3 = y := by
  rw [← cast_eq_zero_iff (a := a.gapY y) (sub_lt _ _), cast_gapY h.y_lt, div_eq_iff (pow_ne_zero 3 hz), sub_eq_zero,
    eq_comm]

theorem Represents.apart (h : a.Represents Q) (hz : a.z ≠ 0) (hX : a.gapX x ≠ 0)
    (hs : curve.Nonsingular (x : Coordinate) y) :
    (a.apart x y).Represents (Q + Affine.Point.some _ _ hs) := by
  have hzc : (a.z : Coordinate) ≠ 0 := h.cast_z.not.mpr hz
  have hXc : (a.gapX x : Coordinate) ≠ 0 := (cast_eq_zero_iff (sub_lt _ _)).not.mpr hX
  have hne := (gapX_eq_zero_iff h hzc).not.mp hX
  have hslope := slope_eq (x := x) (y := y) h hzc
  have hx : (x : Coordinate) = (a.gapX x + a.x) / (a.z : Coordinate) ^ 2 := by
    rw [cast_gapX h.x_lt]
    field_simp
    ring
  have hz' : ((a.apart x y).z : Coordinate) ≠ 0 := by
    rw [cast_apart_z]
    exact mul_ne_zero hzc hXc
  obtain ⟨ha, rfl⟩ := h.some hz
  obtain ⟨hs', he⟩ := exists_add ha hs hne
    (x := (a.apart x y).x / ((a.apart x y).z : Coordinate) ^ 2)
    (y := (a.apart x y).y / ((a.apart x y).z : Coordinate) ^ 3)
    (by
      rw [hslope, hx, cast_apart_x, cast_apart_z]
      field_simp
      ring)
    (by
      rw [hslope, cast_apart_y, cast_apart_x, cast_apart_z]
      field_simp)
  rw [he]
  exact represents_of_some (sub_lt _ _) (sub_lt _ _) (mod_lt _) hz' rfl rfl

theorem Represents.addAffine (h : a.Represents Q) (hx : x < p) (hy : y < p)
    (hs : curve.Nonsingular (x : Coordinate) y) :
    (a.addAffine x y).Represents (Q + Affine.Point.some _ _ hs) := by
  rw [addAffine_eq]
  by_cases hz : a.z = 0
  · rw [if_pos hz, h.zero hz, zero_add]
    exact represents_of_some hx hy (by decide) (by simp) (by simp) (by simp)
  · have hzc : (a.z : Coordinate) ≠ 0 := h.cast_z.not.mpr hz
    rw [if_neg hz]
    by_cases hX : a.gapX x = 0
    · have hxx := (gapX_eq_zero_iff h hzc).mp hX
      rw [if_pos hX]
      by_cases hY : a.gapY y = 0
      · have hyy := (gapY_eq_zero_iff h hzc).mp hY
        obtain ⟨ha, rfl⟩ := h.some hz
        have he : (Affine.Point.some _ _ ha : Group) = .some _ _ hs := by simp only [hxx, hyy]
        rw [if_pos hY, ← he]
        exact h.double
      · have hne := (gapY_eq_zero_iff h hzc).not.mp hY
        obtain ⟨ha, rfl⟩ := h.some hz
        rw [if_neg hY, add_eq_zero ha hs hxx ((eq_or_eq_neg ha hs hxx).resolve_left hne)]
        exact represents_infinity
    · rw [if_neg hX]
      exact h.apart hz hX hs

end Apart

/-! ## Multiples -/

theorem represents_multiple {x y : Nat} (hx : x < p) (hy : y < p)
    (hs : curve.Nonsingular (x : Coordinate) y) (k : Nat) :
    (multiple x y k).Represents (k • (Affine.Point.some _ _ hs : Group)) := by
  induction k using Nat.strongRecOn with
  | ind k ih =>
    rw [multiple]
    by_cases hk : k = 0
    · rw [if_pos hk, hk, zero_nsmul]
      exact represents_infinity
    · have hd := (ih (k / 2) (by omega)).double
      rw [← add_nsmul, ← two_mul] at hd
      rw [if_neg hk]
      by_cases ho : k % 2 = 1
      · have hk' : k = 2 * (k / 2) + 1 := by omega
        rw [if_pos ho]
        nth_rewrite 2 [hk']
        rw [succ_nsmul]
        exact hd.addAffine hx hy hs
      · have hk' : k = 2 * (k / 2) := by omega
        rw [if_neg ho]
        nth_rewrite 2 [hk']
        exact hd

theorem Represents.toPoint (h : a.Represents Q) : a.toPoint.Represents Q := by
  unfold Jacobian.toPoint
  by_cases hz0 : a.z = 0
  · rw [if_pos hz0, h.zero hz0]
    exact .infinity
  · obtain ⟨hs, rfl⟩ := h.some hz0
    rw [if_neg hz0]
    refine .of_eq (mod_lt _) (mod_lt _) ?_ ?_
    · simp only [ZMod.natCast_mod, Nat.cast_mul, cast_inverse]
      rw [div_eq_mul_inv, pow_two, mul_inv]
    · simp only [ZMod.natCast_mod, Nat.cast_mul, cast_inverse]
      rw [div_eq_mul_inv, pow_succ, pow_two, mul_inv, mul_inv, mul_comm (_ * _) (a.z : Coordinate)⁻¹]

end Jacobian

/-- A multiple of a point stands for the multiple. -/
theorem Point.Represents.multiply {P : Point} (h : P.Represents Q) (k : Nat) :
    (Curve.multiply k P).Represents (k • Q) := by
  cases h with
  | infinity =>
    rw [nsmul_zero]
    exact .infinity
  | affine hx hy hs => exact (Jacobian.represents_multiple hx hy hs k).toPoint

end Taproot.Curve
