import Mathlib.Algebra.Group.Nat.Defs
import Taproot.Number.Binary64

/-! # Quotients that are not infinite

A quotient with a numerator far below the largest binary64 number has a nearest number.
-/
namespace Taproot
namespace Binary64

theorem roundHalfEven_le (num den : Nat) : roundHalfEven num den ≤ num + 1 := by
  have hq : num / den ≤ num := Nat.div_le_self num den
  unfold roundHalfEven
  dsimp only
  split <;> omega

theorem exponentFor_lt {num : Nat} (h0 : num ≠ 0) (h : num < 2 ^ 200) (den : Nat) :
    exponentFor num den < 200 := by
  have hlog : num.log2 < 200 := (Nat.log2_lt h0).mpr h
  unfold exponentFor
  dsimp only
  split <;> omega

/-- The mantissa at an exponent that is not too large stays below the power that makes infinity. -/
theorem roundHalfEven_scale_lt {num : Nat} (h : num < 2 ^ 200) (den : Nat) {e : Int}
    (he : e < 200) :
    roundHalfEven (scale num den e).1 (scale num den e).2 < 2 ^ (1024 - e).toNat := by
  have hround := roundHalfEven_le (scale num den e).1 (scale num den e).2
  by_cases hpos : 0 ≤ e
  · have hscale : (scale num den e).1 = num := by rw [scale, if_pos hpos]
    rw [hscale] at hround ⊢
    calc roundHalfEven num (scale num den e).2 ≤ num + 1 := hround
      _ ≤ 2 ^ 200 := h
      _ < 2 ^ (1024 - e).toNat := Nat.pow_lt_pow_right (by decide) (by omega)
  · have hscale : (scale num den e).1 = num * 2 ^ (-e).toNat := by
      rw [scale, if_neg hpos, Nat.shiftLeft_eq]
    rw [hscale] at hround ⊢
    have hunit : 0 < 2 ^ (-e).toNat := Nat.two_pow_pos _
    calc roundHalfEven (num * 2 ^ (-e).toNat) (scale num den e).2
        ≤ num * 2 ^ (-e).toNat + 1 := hround
      _ ≤ (num + 1) * 2 ^ (-e).toNat := by rw [Nat.add_mul]; omega
      _ ≤ 2 ^ 200 * 2 ^ (-e).toNat := Nat.mul_le_mul_right _ h
      _ = 2 ^ (200 + (-e).toNat) := (Nat.pow_add 2 200 _).symm
      _ < 2 ^ (1024 - e).toNat := Nat.pow_lt_pow_right (by decide) (by omega)

/-- A quotient whose numerator is far below the largest number is not infinite. -/
theorem isSome_nearest {num : Nat} (h : num < 2 ^ 200) (den : Nat) :
    (nearest num den).isSome = true := by
  unfold nearest
  split
  · rfl
  · rename_i h0
    have he := exponentFor_lt h0 h den
    have hm := roundHalfEven_scale_lt h den he
    dsimp only
    generalize exponentFor num den = e at he hm ⊢
    generalize roundHalfEven (scale num den e).1 (scale num den e).2 = m at hm ⊢
    have htop : scale m 1 (1024 - e) = (m, 1 <<< (1024 - e).toNat) := by
      rw [scale, if_pos (by omega)]
    rw [htop, Nat.one_shiftLeft, if_neg (by omega)]
    rfl

end Binary64
end Taproot
