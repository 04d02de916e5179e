import Taproot.Proofs.Commitment.ScriptPath
import Taproot.Proofs.Key.Scalars

/-! # Signatures of keys

A signature made with a secret verifies under its public key, which is also the one of the normal
secret.
-/
namespace Taproot

open Curve

variable {secret key message signature : Bytes}

/-- The public key and the even point of a scalar. -/
structure IsKeyOf (v : Nat) (key : Bytes) (x y : Nat) : Prop where
  key_eq : key = Bytes.ofNatBE 32 x
  lifts : PublicKey.point? key = some (.affine x y)
  represents : (Point.affine x y).Represents (evenScalar v (multiply v generator) • base)
  even : y % 2 = 0
  toNatBE : key.toNatBE = x
  x_lt : x < p

theorem lt_bound_of_lt_p {x : Nat} (h : x < p) : x < Bytes.bound 32 :=
  Nat.lt_trans h (by decide)

theorem lt_bound_of_lt_n {x : Nat} (h : x < n) : x < Bytes.bound 32 :=
  Nat.lt_trans h (by decide)

theorem exists_isKeyOf {v : Nat} (h₀ : 0 < v) (h₁ : v < n) :
    ∃ x y, IsKeyOf v (xBytes (multiply v generator)) x y := by
  obtain ⟨x, y, hx, hl, hr⟩ := exists_evenScalar h₀ h₁
  obtain ⟨y', he, hy, hv⟩ := liftX_eq_some_iff.mp hl
  obtain ⟨-, rfl⟩ := Point.affine.inj he
  have hlt := (valid_affine.mp hv).1
  have hn : (Bytes.ofNatBE 32 x).toNatBE = x := Bytes.toNatBE_ofNatBE (lt_bound_of_lt_p hlt)
  rw [hx]
  refine ⟨x, y, rfl, ?_, hr, hy, hn, hlt⟩
  rw [PublicKey.point?, if_pos (Bytes.length_ofNatBE 32 x), hn]
  exact hl

namespace Secret

theorem scalar_eq_ok {v : Nat} :
    scalar secret = .ok v ↔ v = secret.toNatBE ∧ 0 < secret.toNatBE ∧ secret.toNatBE < n := by
  unfold scalar
  dsimp only
  split
  · rename_i h
    simp [h, eq_comm]
  · rename_i h
    simp only [reduceCtorEq, false_iff]
    rintro ⟨-, hv⟩
    exact h hv

theorem publicKey_eq_ok : publicKey secret = .ok key ↔
    (0 < secret.toNatBE ∧ secret.toNatBE < n) ∧ key = xBytes (multiply secret.toNatBE generator) := by
  simp only [publicKey, point, map_eq_ok, scalar_eq_ok]
  constructor
  · rintro ⟨_, ⟨_, ⟨rfl, hv⟩, rfl⟩, rfl⟩
    exact ⟨hv, rfl⟩
  · rintro ⟨hv, rfl⟩
    exact ⟨_, ⟨_, ⟨rfl, hv⟩, rfl⟩, rfl⟩

/-! ## Signing -/

theorem nonce_lt (d : Nat) (key message : Bytes) : nonce d key message < n :=
  Nat.mod_lt _ prime_n.pos

theorem sign_eq_ok (h : sign secret message = .ok signature) : ∃ key d k,
    publicKey secret = .ok key ∧ d = evenScalar secret.toNatBE (multiply secret.toNatBE generator) ∧
      (0 < k ∧ k < n) ∧ signature = xBytes (multiply k generator) ++ Bytes.ofNatBE 32
        ((evenScalar k (multiply k generator) +
          challenge (xBytes (multiply k generator)) key message * d) % n) := by
  unfold sign at h
  dsimp only at h
  split at h
  · cases h
  · simp only [bind_eq_ok, scalar_eq_ok] at h
    obtain ⟨v, ⟨rfl, hv⟩, h⟩ := h
    split at h
    · cases h
    · rename_i h0
      exact ⟨_, _, _, publicKey_eq_ok.mpr ⟨hv, rfl⟩, rfl, ⟨Nat.pos_of_ne_zero h0, nonce_lt _ _ _⟩,
        (Except.ok.inj h).symm⟩

/-- What the verifier computes from the key and the response is the nonce point. -/
theorem represents_response {x y d k e : Nat} (h : (Point.affine x y).Represents (d • base)) :
    ((multiply ((k + e * d) % n) generator).add (multiply e (.affine x y)).neg).Represents
      (k • base) := by
  have hs := represents_multiply ((k + e * d) % n)
  have he := (h.multiply e).neg
  have hsum : ((k + e * d) % n) • base + -(e • (d • base)) = k • base := by
    rw [mod_nsmul_base, add_nsmul, smul_smul, add_neg_cancel_right]
  rw [← hsum]
  exact hs.add he

theorem verifies_sign (hk : publicKey secret = .ok key) (hs : sign secret message = .ok signature) :
    PublicKey.verifies key message signature = true := by
  obtain ⟨key', d, k, hk', rfl, ⟨hk₀, hk₁⟩, rfl⟩ := sign_eq_ok hs
  obtain rfl := Except.ok.inj (hk.symm.trans hk')
  obtain ⟨⟨h₀, h₁⟩, rfl⟩ := publicKey_eq_ok.mp hk
  obtain ⟨x, y, hkey⟩ := exists_isKeyOf h₀ h₁
  obtain ⟨x', y', hr⟩ := exists_isKeyOf hk₀ hk₁
  generalize xBytes (multiply secret.toNatBE generator) = key at hkey
  generalize xBytes (multiply k generator) = r at hr
  generalize he : challenge r key message = e
  generalize hd : evenScalar secret.toNatBE (multiply secret.toNatBE generator) = d
  generalize hkn : evenScalar k (multiply k generator) = k'
  have hlen : r.length = 32 := by rw [hr.key_eq, Bytes.length_ofNatBE]
  have hlt : (k' + e * d) % n < n := Nat.mod_lt _ prime_n.pos
  have hnum := Bytes.toNatBE_ofNatBE (lt_bound_of_lt_n hlt)
  have hresponse : (multiply ((k' + e * d) % n) generator).add (multiply e (.affine x y)).neg =
      .affine x' y' := by
    have hrep := hkey.represents
    have hnonce := hr.represents
    rw [hd] at hrep
    rw [hkn] at hnonce
    exact (represents_response hrep).injective hnonce
  have hrange : ¬((r ++ Bytes.ofNatBE 32 ((k' + e * d) % n)).length ≠ 64 ∨ p ≤ r.toNatBE ∨
      n ≤ (k' + e * d) % n) := by
    have hx := hr.x_lt
    rw [List.length_append, hlen, Bytes.length_ofNatBE, hr.toNatBE]
    omega
  rw [PublicKey.verifies, hkey.lifts]
  simp only [List.take_left' hlen, List.drop_left' hlen, hnum, he]
  rw [if_neg hrange, hresponse]
  simp [hr.even, hr.toNatBE]

/-! ## Normal secrets -/

/-- A normal secret has the even scalar, and the public key stays. -/
theorem normalize_eq_ok {even : Bytes} (hk : publicKey secret = .ok key)
    (h : normalize secret = .ok even) : publicKey even = .ok key ∧
      even.toNatBE = evenScalar secret.toNatBE (multiply secret.toNatBE generator) := by
  obtain ⟨⟨h₀, h₁⟩, rfl⟩ := publicKey_eq_ok.mp hk
  have hs : scalar secret = .ok secret.toNatBE := scalar_eq_ok.mpr ⟨rfl, h₀, h₁⟩
  have he : hasEvenY secret = .ok (multiply secret.toNatBE generator).hasEvenY := by
    rw [hasEvenY, point, hs]
    rfl
  rw [normalize, he] at h
  cases hy : (multiply secret.toNatBE generator).hasEvenY with
  | true =>
    rw [hy] at h
    cases h
    exact ⟨hk, by rw [evenScalar, hy]; rfl⟩
  | false =>
    rw [hy] at h
    cases h
    have hlt : n - secret.toNatBE < n := by omega
    have hnum := Bytes.toNatBE_ofNatBE (lt_bound_of_lt_n hlt)
    have hneg : multiply (n - secret.toNatBE) generator = (multiply secret.toNatBE generator).neg := by
      have hr := represents_multiply (n - secret.toNatBE)
      rw [sub_nsmul_base h₁.le] at hr
      exact hr.injective (represents_multiply _).neg
    refine ⟨publicKey_eq_ok.mpr ⟨by omega, ?_⟩, by rw [hnum, evenScalar, hy]; rfl⟩
    rw [hnum, hneg]
    cases multiply secret.toNatBE generator <;> rfl

end Secret
end Taproot
