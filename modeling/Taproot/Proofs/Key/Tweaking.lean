import Taproot.Proofs.Hash.Windows
import Taproot.Proofs.Key.Signing

/-! # Tweaks on both sides

The secret is tweaked modulo the order of the group, and the public key by adding points. Both come to
the same multiple of the generator, so that one tweak fails exactly where the other does, and what they
give belongs together.
-/
namespace Taproot

namespace Curve

theorem multiply_zero : multiply 0 generator = .infinity := by
  have h := represents_multiply 0
  rw [zero_nsmul] at h
  exact h.injective .infinity

theorem exists_multiply_eq_affine {k : Nat} (h₀ : 0 < k) (h₁ : k < n) :
    ∃ x y, multiply k generator = .affine x y :=
  (represents_multiply k).exists_affine (nsmul_base_ne_zero h₀ h₁)

/-- Adding a multiple of the generator adds the scalars modulo the order. -/
theorem Point.Represents.add_multiply {P : Point} {d : Nat} (h : P.Represents (d • base))
    (t : Nat) :
    P.add (Curve.multiply t generator) = Curve.multiply ((d + t) % n) generator := by
  have hsum := h.add (represents_multiply t)
  have hmod := represents_multiply ((d + t) % n)
  rw [mod_nsmul_base, add_nsmul] at hmod
  exact hsum.injective hmod

end Curve

/-! ## The two tweaks -/

section Tweaks

open Curve

variable {secret key : Bytes}

namespace Secret

/-- Of a secret and its negative, the scalar whose point is even. -/
def even (secret : Bytes) : Nat := evenScalar secret.toNatBE (multiply secret.toNatBE generator)

theorem exists_normalize (hk : publicKey secret = .ok key) : ∃ normal,
    normalize secret = .ok normal := by
  obtain ⟨hs, -⟩ := publicKey_eq_ok.mp hk
  have he : hasEvenY secret = .ok (multiply secret.toNatBE generator).hasEvenY := by
    rw [hasEvenY, point, scalar_eq_ok.mpr ⟨rfl, hs⟩]
    rfl
  rw [normalize, he]
  cases (multiply secret.toNatBE generator).hasEvenY with
  | true => exact ⟨_, rfl⟩
  | false => exact ⟨_, rfl⟩

theorem tweak_eq (hk : publicKey secret = .ok key) (root : Option Bytes) :
    tweak secret root =
      if n ≤ (tapTweak key root).toNatBE then .error .tweakTooLarge
      else if (even secret + (tapTweak key root).toNatBE) % n = 0 then .error .tweakedSecretZero
      else .ok (Bytes.ofNatBE 32 ((even secret + (tapTweak key root).toNatBE) % n)) := by
  obtain ⟨normal, hn⟩ := exists_normalize hk
  obtain ⟨hkey, heven⟩ := normalize_eq_ok hk hn
  change normal.toNatBE = even secret at heven
  simp only [tweak, hn, hkey, heven, bind, Except.bind, pure, Except.pure]
  split
  · rfl
  · split <;> rfl

/-- The public key and the parity of a scalar that is written out. -/
theorem parts_ofNatBE {k x y : Nat} (h₀ : 0 < k) (h₁ : k < n)
    (h : multiply k generator = .affine x y) :
    publicKey (Bytes.ofNatBE 32 k) = .ok (Bytes.ofNatBE 32 x) ∧
      hasEvenY (Bytes.ofNatBE 32 k) = .ok (y % 2 == 0) := by
  have hk : (Bytes.ofNatBE 32 k).toNatBE = k := Bytes.toNatBE_ofNatBE (lt_bound_of_lt_n h₁)
  have hs : scalar (Bytes.ofNatBE 32 k) = .ok k := by
    rw [scalar_eq_ok, hk]
    exact ⟨rfl, h₀, h₁⟩
  have hpoint : point (Bytes.ofNatBE 32 k) = .ok (.affine x y) := by
    rw [point, hs, ← h]
    rfl
  rw [publicKey, hasEvenY, hpoint]
  exact ⟨rfl, rfl⟩

end Secret

theorem IsKeyOf.tweak_eq {x y : Nat} (h : IsKeyOf secret.toNatBE key x y) (root : Option Bytes) :
    PublicKey.tweak key root =
      if n ≤ (tapTweak key root).toNatBE then .error (.tweakFailed key)
      else match multiply ((Secret.even secret + (tapTweak key root).toNatBE) % n) generator with
        | .infinity => .error (.tweakFailed key)
        | .affine x y => .ok ⟨Bytes.ofNatBE 32 x, y % 2 = 1⟩ := by
  have hadd := h.represents.add_multiply (tapTweak key root).toNatBE
  rw [PublicKey.tweak, h.lifts]
  dsimp only
  rw [hadd]
  rfl

/-- Either both tweaks fail, or they give one scalar and its point. -/
theorem tweak_cases (hk : Secret.publicKey secret = .ok key) (root : Option Bytes) :
    (∃ e e', Secret.tweak secret root = .error e ∧ PublicKey.tweak key root = .error e') ∨
      ∃ k x y, (0 < k ∧ k < n) ∧ multiply k generator = .affine x y ∧
        Secret.tweak secret root = .ok (Bytes.ofNatBE 32 k) ∧
        PublicKey.tweak key root = .ok ⟨Bytes.ofNatBE 32 x, y % 2 = 1⟩ := by
  rw [Secret.tweak_eq hk root]
  obtain ⟨hs, rfl⟩ := Secret.publicKey_eq_ok.mp hk
  obtain ⟨x, y, hkey⟩ := exists_isKeyOf hs.1 hs.2
  rw [hkey.tweak_eq root]
  generalize (tapTweak (xBytes (multiply secret.toNatBE generator)) root).toNatBE = t
  by_cases ht : n ≤ t
  · rw [if_pos ht, if_pos ht]
    exact .inl ⟨_, _, rfl, rfl⟩
  · rw [if_neg ht, if_neg ht]
    by_cases h0 : (Secret.even secret + t) % n = 0
    · rw [if_pos h0, h0, multiply_zero]
      exact .inl ⟨_, _, rfl, rfl⟩
    · have hpos : 0 < (Secret.even secret + t) % n := Nat.pos_of_ne_zero h0
      have hlt : (Secret.even secret + t) % n < n := Nat.mod_lt _ prime_n.pos
      obtain ⟨x', y', hxy⟩ := exists_multiply_eq_affine hpos hlt
      rw [if_neg h0, hxy]
      exact .inr ⟨_, x', y', ⟨hpos, hlt⟩, hxy, rfl, rfl⟩

namespace Secret

variable {root : Option Bytes} {tweaked : Bytes}

theorem parts_tweak {o : OutputKey} (hk : publicKey secret = .ok key)
    (ht : tweak secret root = .ok tweaked) (ho : PublicKey.tweak key root = .ok o) :
    publicKey tweaked = .ok o.key ∧ hasEvenY tweaked = .ok (!o.odd) := by
  rcases tweak_cases hk root with ⟨e, e', he, -⟩ | ⟨k, x, y, hlt, hxy, hk', ho'⟩
  · rw [he] at ht
    cases ht
  · obtain rfl := Except.ok.inj (hk'.symm.trans ht)
    obtain rfl := Except.ok.inj (ho'.symm.trans ho)
    obtain ⟨hpublic, heven⟩ := parts_ofNatBE hlt.1 hlt.2 hxy
    refine ⟨hpublic, ?_⟩
    rw [heven]
    rcases Nat.mod_two_eq_zero_or_one y with hy | hy <;> simp [hy]

theorem scalar_of_tweak (hk : publicKey secret = .ok key) (ht : tweak secret root = .ok tweaked) :
    0 < tweaked.toNatBE ∧ tweaked.toNatBE < n := by
  rcases tweak_cases hk root with ⟨e, e', he, -⟩ | ⟨k, x, y, hlt, -, hk', -⟩
  · rw [he] at ht
    cases ht
  · obtain rfl := Except.ok.inj (hk'.symm.trans ht)
    rw [Bytes.toNatBE_ofNatBE (lt_bound_of_lt_n hlt.2)]
    exact hlt

/-- A secret of a public key is a scalar, so that only its tweak can be refused. -/
theorem tweak_eq_error {e : KeyError} (hk : publicKey secret = .ok key)
    (h : tweak secret root = .error e) : e ≠ .scalarOutOfRange := by
  rintro rfl
  rw [tweak_eq hk root] at h
  split at h
  · cases h
  · split at h <;> cases h

end Secret

/-- A secret is tweaked exactly where its public key is. The tweaked secret is one of the output key,
and its point is even exactly where the output key is not marked as odd. -/
theorem tweaks_agree (hs : 0 < secret.toNatBE ∧ secret.toNatBE < n) (root : Option Bytes) :
    ∃ key, Secret.publicKey secret = .ok key ∧
      ((∃ tweaked, Secret.tweak secret root = .ok tweaked) ↔
        ∃ o, PublicKey.tweak key root = .ok o) ∧
      ∀ tweaked o, Secret.tweak secret root = .ok tweaked → PublicKey.tweak key root = .ok o →
        Secret.publicKey tweaked = .ok o.key ∧ Secret.hasEvenY tweaked = .ok (!o.odd) := by
  have hk := Secret.publicKey_eq_ok.mpr ⟨hs, rfl⟩
  refine ⟨_, hk, ?_, fun tweaked o ht ho => Secret.parts_tweak hk ht ho⟩
  rcases tweak_cases hk root with ⟨e, e', he, he'⟩ | ⟨k, x, y, -, -, hk', ho⟩
  · rw [he, he']
    exact ⟨nofun, nofun⟩
  · exact ⟨fun _ => ⟨_, ho⟩, fun _ => ⟨_, hk'⟩⟩

end Tweaks

namespace OddSecret

/-- The point of this secret has an odd `y`. -/
def secret : Bytes := Bytes.ofNatBE 32 6

def root : Bytes := List.replicate 32 7

theorem tweaks : Secret.hasEvenY secret = .ok false ∧
    (Secret.tweak secret (some root)).toOption.isSome = true := by
  simp only [Secret.tweak, tapTweak, HashTag.hash_eq_by]
  decide +kernel

theorem tweaked_alike : Secret.hasEvenY secret = .ok false ∧ ∃ key tweaked o,
    Secret.publicKey secret = .ok key ∧ Secret.tweak secret (some root) = .ok tweaked ∧
      PublicKey.tweak key (some root) = .ok o ∧ Secret.publicKey tweaked = .ok o.key ∧
      Secret.hasEvenY tweaked = .ok (!o.odd) := by
  have hs : 0 < secret.toNatBE ∧ secret.toNatBE < Curve.n := by decide
  obtain ⟨key, hk, hiff, hagree⟩ := tweaks_agree hs (some root)
  have ht := eq_ok_get tweaks.2
  obtain ⟨o, ho⟩ := hiff.mp ⟨_, ht⟩
  exact ⟨tweaks.1, key, _, o, hk, ht, ho, hagree _ o ht ho⟩

end OddSecret
end Taproot
