import Mathlib.GroupTheory.OrderOfElement
import Taproot.Key.Signature
import Taproot.Proofs.Key.Multiples

/-! # Scalars and x-only keys

The generator has the prime order `n`, so that scalars count modulo `n`. Of a scalar and its negative
one has a point with an even `y`, which is the point that is lifted from their x-only key.
-/
namespace Taproot.Curve

variable {P : Point} {Q : Group} {x y d : Nat}

/-! ## The generator -/

theorem valid_generator : generator.Valid := ⟨by decide, by decide, by decide⟩

/-- The element of the group for which the generator stands. -/
noncomputable def base : Group := (Point.valid_iff.mp valid_generator).choose

theorem represents_generator : generator.Represents base :=
  (Point.valid_iff.mp valid_generator).choose_spec

theorem represents_multiply (k : Nat) : (multiply k generator).Represents (k • base) :=
  represents_generator.multiply k

theorem n_nsmul_base : n • base = 0 := by
  have hn : multiply n generator = .infinity := by decide +kernel
  have h := represents_multiply n
  rw [hn] at h
  exact h.unique .infinity

theorem base_ne_zero : base ≠ 0 := by
  intro h0
  have h := represents_generator
  rw [h0] at h
  cases h

theorem addOrderOf_base : addOrderOf base = n :=
  haveI : Fact n.Prime := ⟨prime_n⟩
  addOrderOf_eq_prime n_nsmul_base base_ne_zero

theorem nsmul_base_eq_zero_iff {k : Nat} : k • base = 0 ↔ n ∣ k := by
  rw [← addOrderOf_base, addOrderOf_dvd_iff_nsmul_eq_zero]

theorem mod_nsmul_base (k : Nat) : (k % n) • base = k • base := by
  rw [← addOrderOf_base, mod_addOrderOf_nsmul]

theorem sub_nsmul_base {d : Nat} (h : d ≤ n) : (n - d) • base = -(d • base) := by
  rw [eq_neg_iff_add_eq_zero, ← add_nsmul, Nat.sub_add_cancel h, n_nsmul_base]

theorem nsmul_base_ne_zero {k : Nat} (h₀ : 0 < k) (h₁ : k < n) : k • base ≠ 0 := by
  rw [ne_eq, nsmul_base_eq_zero_iff]
  exact Nat.not_dvd_of_pos_of_lt h₀ h₁

theorem Point.Represents.exists_affine (h : P.Represents Q) (hQ : Q ≠ 0) :
    ∃ x y, P = .affine x y := by
  cases h with
  | infinity => exact absurd rfl hQ
  | @affine x y => exact ⟨x, y, rfl⟩

/-! ## Lifting -/

theorem odd_p : p % 2 = 1 := by decide

/-- The negative of a reduced coordinate has the other parity. -/
theorem parity_neg (hy : y < p) : (p - y) % 2 = 1 - y % 2 := by
  have hp := odd_p
  omega

theorem valid_affine : (Point.affine x y).Valid ↔
    x < p ∧ y < p ∧ (y : Coordinate) ^ 2 = (x : Coordinate) ^ 3 + 7 := by
  rw [Point.valid_iff]
  constructor
  · rintro ⟨Q, h⟩
    obtain ⟨hx, hy, hs, -⟩ := Point.represents_affine h
    exact ⟨hx, hy, nonsingular_iff.mp hs⟩
  · rintro ⟨hx, hy, h⟩
    exact ⟨_, .affine hx hy (nonsingular_iff.mpr h)⟩

/-- The root that is tried. -/
def root (x : Nat) : Nat := powMod p ((x * x * x + 7) % p) ((p + 1) / 4)

theorem root_lt (x : Nat) : root x < p := by
  have h : root x = ((x * x * x + 7) % p) ^ ((p + 1) / 4) % p := powMod_eq _ _ _
  rw [h]
  exact Jacobian.mod_lt _

/-- Where there is a square root, the power is one. -/
theorem root_sq (h : (y : Coordinate) ^ 2 = (x : Coordinate) ^ 3 + 7) :
    (root x : Coordinate) ^ 2 = (y : Coordinate) ^ 2 := by
  have hr : root x = ((x * x * x + 7) % p) ^ ((p + 1) / 4) % p := powMod_eq _ _ _
  have hc : (((x * x * x + 7) % p : Nat) : Coordinate) = (y : Coordinate) ^ 2 := by
    rw [h, ZMod.natCast_mod]
    push_cast
    ring
  have he : 2 * ((p + 1) / 4 * 2) = p - 1 + 2 := by decide
  rw [hr, ZMod.natCast_mod, Nat.cast_pow, hc, ← pow_mul, ← pow_mul, he, pow_add]
  by_cases hy : (y : Coordinate) = 0
  · rw [hy, zero_pow (n := 2) (by decide), mul_zero]
  · rw [ZMod.pow_card_sub_one_eq_one hy, one_mul]

theorem liftX_eq (x : Nat) : liftX x =
    if x < p ∧ root x * root x % p = (x * x * x + 7) % p then
      some (.affine x (if root x % 2 = 0 then root x else p - root x))
    else none := rfl

theorem root_check_iff : root x * root x % p = (x * x * x + 7) % p ↔
    (root x : Coordinate) ^ 2 = (x : Coordinate) ^ 3 + 7 := by
  rw [← ZMod.natCast_eq_natCast_iff']
  push_cast
  rw [← pow_two, ← pow_two, ← pow_succ]

theorem cast_neg (hy : y ≤ p) : ((p - y : Nat) : Coordinate) = -y := by
  rw [Nat.cast_sub hy, ZMod.natCast_self, zero_sub]

/-- Exactly the point with an even `y` is lifted. -/
theorem liftX_eq_some_iff :
    liftX x = some P ↔ ∃ y, P = .affine x y ∧ y % 2 = 0 ∧ (Point.affine x y).Valid := by
  have hlt := root_lt x
  rw [liftX_eq]
  constructor
  · intro h
    split at h
    · rename_i hc
      have hsq := root_check_iff.mp hc.2
      obtain rfl := Option.some.inj h
      by_cases he : root x % 2 = 0
      · rw [if_pos he]
        exact ⟨root x, rfl, he, valid_affine.mpr ⟨hc.1, hlt, hsq⟩⟩
      · have hpar := parity_neg hlt
        rw [if_neg he]
        refine ⟨p - root x, rfl, by omega, valid_affine.mpr ⟨hc.1, by omega, ?_⟩⟩
        rw [cast_neg hlt.le, neg_sq, hsq]
    · cases h
  · rintro ⟨y, rfl, hy, hv⟩
    obtain ⟨hx, hyp, h⟩ := valid_affine.mp hv
    have hsq := root_sq h
    rw [if_pos ⟨hx, root_check_iff.mpr (hsq.trans h)⟩, Option.some_inj]
    congr 1
    rcases sq_eq_sq_iff_eq_or_eq_neg.mp hsq with hr | hr
    · rw [(cast_inj hlt hyp).mp hr, if_pos hy]
    · by_cases h0 : y = 0
      · have hr0 : root x = 0 := by
          rw [← cast_eq_zero_iff hlt, hr, h0, Nat.cast_zero, neg_zero]
        rw [hr0, h0]
        rfl
      · have hpar := parity_neg hyp
        have hneg : root x = p - y := by
          rw [← cast_inj hlt (by omega), hr, cast_neg hyp.le]
        rw [if_neg (by omega)]
        omega

/-! ## Scalars with an even point -/

theorem valid_multiply (h : multiply d generator = .affine x y) : (Point.affine x y).Valid :=
  Point.valid_iff.mpr ⟨_, h ▸ represents_multiply d⟩

/-- A scalar and the even one of it and its negative. -/
theorem exists_evenScalar (h₀ : 0 < d) (h₁ : d < n) : ∃ x y,
    xBytes (multiply d generator) = Bytes.ofNatBE 32 x ∧ liftX x = some (.affine x y) ∧
      (Point.affine x y).Represents (evenScalar d (multiply d generator) • base) := by
  have hr := represents_multiply d
  obtain ⟨x, y, he⟩ := hr.exists_affine (nsmul_base_ne_zero h₀ h₁)
  have hv := valid_multiply he
  rw [he] at hr ⊢
  by_cases hy : y % 2 = 0
  · have hs : evenScalar d (.affine x y) = d := by simp [evenScalar, Point.hasEvenY, hy]
    refine ⟨x, y, rfl, liftX_eq_some_iff.mpr ⟨y, rfl, hy, hv⟩, ?_⟩
    rw [hs]
    exact hr
  · obtain ⟨hx, hyp, h⟩ := valid_affine.mp hv
    have hs : evenScalar d (.affine x y) = n - d := by simp [evenScalar, Point.hasEvenY, hy]
    have hneg : Point.neg (.affine x y) = .affine x (p - y) := by
      rw [Point.neg, sub, Nat.zero_add, Nat.mod_eq_of_lt (by omega)]
    have hpar := parity_neg hyp
    have hn := hr.neg
    rw [hneg] at hn
    refine ⟨x, p - y, rfl, liftX_eq_some_iff.mpr ⟨p - y, rfl, by omega, ?_⟩, ?_⟩
    · exact Point.valid_iff.mpr ⟨_, hn⟩
    · rw [hs, sub_nsmul_base h₁.le]
      exact hn

end Taproot.Curve
