import Mathlib.Data.List.Prime
import Mathlib.NumberTheory.LucasPrimality
import Mathlib.Tactic.NormNum.Prime
import Taproot.Key.Curve

/-! # The primes of the curve

The field of the curve and its group have prime order. A number is prime if some `a` has the order
`m - 1` modulo `m`, which is tested at the prime factors of `m - 1`; the certificates are in such an order
that these factors come before.
-/
namespace Taproot.Curve

/-- `a ^ (m - 1)` is one modulo `m`, and no smaller power that the factors leave is. -/
structure Certificate where
  number : Nat
  a : Nat
  factors : List Nat

namespace Certificate

def passes (proven : List Nat) (c : Certificate) : Bool :=
  2 ≤ c.number && c.factors.prod == c.number - 1 &&
    c.factors.all (fun q => decide (q ∈ proven)) &&
    powMod c.number c.a (c.number - 1) == 1 &&
    c.factors.all fun q => powMod c.number c.a ((c.number - 1) / q) != 1

def allPass (proven : List Nat) : List Certificate → Bool
  | [] => true
  | c :: cs => c.passes proven && allPass (c.number :: proven) cs

theorem powMod_eq_one_iff {m : Nat} (hm : 2 ≤ m) (a e : Nat) :
    powMod m a e = 1 ↔ (a : ZMod m) ^ e = 1 := by
  have hp : powMod m a e = a ^ e % m := powMod_eq m a e
  have hc : (a : ZMod m) ^ e = 1 ↔ ((a ^ e : Nat) : ZMod m) = ((1 : Nat) : ZMod m) := by
    rw [Nat.cast_pow, Nat.cast_one]
  rw [hp, hc, ZMod.natCast_eq_natCast_iff', Nat.mod_eq_of_lt hm]

theorem prime_of_passes {proven : List Nat} {c : Certificate} (hp : ∀ q ∈ proven, q.Prime)
    (h : c.passes proven = true) : c.number.Prime := by
  simp only [passes, Bool.and_eq_true, decide_eq_true_eq, beq_iff_eq, List.all_eq_true,
    bne_iff_ne] at h
  obtain ⟨⟨⟨⟨h₂, hprod⟩, hfactors⟩, hone⟩, hne⟩ := h
  refine lucas_primality c.number (c.a : ZMod c.number) ((powMod_eq_one_iff h₂ _ _).mp hone) ?_
  intro q hq hd
  rw [← hprod] at hd
  obtain ⟨r, hr, hqr⟩ := (Prime.dvd_prod_iff hq.prime).mp hd
  obtain rfl := (Nat.prime_dvd_prime_iff_eq hq (hp r (hfactors r hr))).mp hqr
  intro ho
  exact hne q hr ((powMod_eq_one_iff h₂ _ _).mpr ho)

theorem prime_of_allPass {proven : List Nat} {cs : List Certificate} (hp : ∀ q ∈ proven, q.Prime)
    (h : allPass proven cs = true) : ∀ c ∈ cs, c.number.Prime := by
  induction cs generalizing proven with
  | nil => simp
  | cons c cs ih =>
    obtain ⟨hc, hcs⟩ := Bool.and_eq_true_iff.mp h
    have hprime := prime_of_passes hp hc
    exact List.forall_mem_cons.mpr ⟨hprime, ih (List.forall_mem_cons.mpr ⟨hprime, hp⟩) hcs⟩

end Certificate

def smallPrimes : List Nat := [
  2, 3, 5, 7, 11, 17, 29, 31, 41, 53, 59, 97, 109, 149, 293, 461, 631, 797, 971, 1373, 1627,
  1871, 2011, 2621, 2657, 4051, 4423, 5323, 7723, 9349, 13441, 16699, 20113, 24809, 28181,
  41201, 85831, 96557, 120233, 305873]

theorem smallPrimes_prime : ∀ q ∈ smallPrimes, q.Prime := by
  simp only [smallPrimes, List.forall_mem_cons]
  norm_num

/-- The factors of `p - 1` and `n - 1`, of theirs, and so on down to the small primes. -/
def certificates : List Certificate := [
  ⟨1206781, 10, [2, 2, 3, 5, 20113]⟩,
  ⟨1627771, 3, [2, 3, 5, 29, 1871]⟩,
  ⟨4681609, 23, [2, 2, 2, 3, 97, 2011]⟩,
  ⟨7240687, 3, [2, 3, 1206781]⟩,
  ⟨13331831, 13, [2, 5, 971, 1373]⟩,
  ⟨44706919, 6, [2, 3, 797, 9349]⟩,
  ⟨107590001, 3, [2, 2, 2, 2, 5, 5, 5, 5, 7, 29, 53]⟩,
  ⟨545358713, 5, [2, 2, 2, 41, 59, 28181]⟩,
  ⟨297159362677, 2, [2, 2, 3, 3, 11, 461, 1627771]⟩,
  ⟨107361793816595537, 3, [2, 2, 2, 2, 16699, 85831, 4681609]⟩,
  ⟨173378833005251801, 6, [2, 2, 2, 5, 5, 2621, 24809, 13331831]⟩,
  ⟨174723607534414371449, 3, [2, 2, 2, 17, 59, 4051, 120233, 44706919]⟩,
  ⟨22149492674086928081353, 5, [2, 2, 2, 3, 5323, 173378833005251801]⟩,
  ⟨132896956044521568488119, 6, [2, 3, 22149492674086928081353]⟩,
  ⟨29047611873442575647497758179, 2, [2, 293, 305873, 545358713, 297159362677]⟩,
  ⟨341948486974166000522343609283189, 2, [2, 2, 3, 3, 3, 109, 29047611873442575647497758179]⟩,
  ⟨255515944373312847190720520512484175977, 3,
    [2, 2, 2, 7, 7, 11, 1627, 2657, 4423, 41201, 96557, 7240687, 107590001]⟩,
  ⟨205115282021455665897114700593932402728804164701536103180137503955397371, 10,
    [2, 3, 5, 29, 29, 31, 7723, 132896956044521568488119,
      255515944373312847190720520512484175977]⟩,
  ⟨n, 7, [2, 2, 2, 2, 2, 2, 3, 149, 631, 107361793816595537, 174723607534414371449,
    341948486974166000522343609283189]⟩,
  ⟨p, 3, [2, 3, 7, 13441,
    205115282021455665897114700593932402728804164701536103180137503955397371]⟩]

theorem certificates_pass : Certificate.allPass smallPrimes certificates = true := by
  decide +kernel

theorem prime_of_mem {m : Nat} (h : m ∈ certificates.map Certificate.number) : m.Prime := by
  obtain ⟨c, hc, rfl⟩ := List.mem_map.mp h
  exact Certificate.prime_of_allPass smallPrimes_prime certificates_pass c hc

theorem prime_p : p.Prime := prime_of_mem (by decide +kernel)

theorem prime_n : n.Prime := prime_of_mem (by decide +kernel)

end Taproot.Curve
