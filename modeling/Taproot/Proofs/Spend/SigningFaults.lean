import Taproot.Proofs.Spend.SignedPaths
import Taproot.Proofs.Store.Secrets

/-! # Faults of signing

Why a search for a path fails. Where the secrets of the store belong to their keys and every digest
can be made, there is no path, or the secret of the internal key cannot be tweaked, or the nonce of
a signature is zero.
-/
namespace Taproot

open Curve

namespace Secret

variable {secret key message : Bytes} {e : KeyError}

/-- The nonce for the message is zero, so that nothing can be signed with it. -/
def ZeroNonce (secret message : Bytes) : Prop :=
  nonce (evenScalar secret.toNatBE (multiply secret.toNatBE generator))
    (xBytes (multiply secret.toNatBE generator)) message = 0

theorem sign_eq_error (hm : message.length = 32) (hs : 0 < secret.toNatBE ∧ secret.toNatBE < n)
    (h : sign secret message = .error e) : e = .scalarOutOfRange ∧ ZeroNonce secret message := by
  have hscalar : scalar secret = .ok secret.toNatBE := scalar_eq_ok.mpr ⟨rfl, hs⟩
  rw [sign, if_neg (not_not_intro hm), hscalar] at h
  by_cases h0 : ZeroNonce secret message
  · have hzero := h0
    unfold ZeroNonce at hzero
    simp only [pure, Except.pure, bind, Except.bind, hzero] at h
    cases h
    exact ⟨rfl, h0⟩
  · have hnonzero := h0
    unfold ZeroNonce at hnonzero
    simp only [pure, Except.pure, bind, Except.bind, if_neg hnonzero] at h
    cases h

end Secret

theorem Store.Coherent.matches {store : Store} (h : store.Coherent) : store.Matches := by
  intro p hp secret hs
  obtain ⟨-, key, heven, hkey⟩ := h.keys p hp secret hs
  rw [hkey, HexText.bytes_ofBytes]
  exact heven.publicKey_eq

theorem Store.Matches.scalar {store : Store} (h : store.Matches) {key secret : Bytes}
    (hs : store.activeSecret? key = some secret) : 0 < secret.toNatBE ∧ secret.toNatBE < n :=
  (Secret.publicKey_eq_ok.mp (h.publicKey hs)).1

/-! ## Signatures of a path -/

variable {c : Commitment} {store : Store} {timelock : InputTimelock} {digestFor : DigestFor}
  {e : SpendError}

/-- A message of the right length is signed for every path. -/
def DigestFor.Total (digestFor : DigestFor) : Prop :=
  ∀ leaf, ∃ m, digestFor leaf = .ok m ∧ m.length = 32

/-- The nonce of a signature that the commitment can ask for is zero. -/
inductive Commitment.MeetsZeroNonce (c : Commitment) (store : Store) (digestFor : DigestFor) : Prop
  | keyPath {secret tweaked m : Bytes} : store.activeSecret? c.internalKey = some secret →
    Secret.tweak secret c.root = .ok tweaked → digestFor none = .ok m →
    Secret.ZeroNonce tweaked m → MeetsZeroNonce c store digestFor
  | leaf {l : LeafPath} {key secret m : Bytes} : l ∈ c.leaves →
    store.activeSecret? key = some secret → digestFor (some l.hash) = .ok m →
    Secret.ZeroNonce secret m → MeetsZeroNonce c store digestFor

theorem signDigest_eq_error (hd : digestFor.Total) {leaf : Option Bytes} {secret : Bytes}
    (hs : 0 < secret.toNatBE ∧ secret.toNatBE < n)
    (h : signDigest secret (digestFor leaf) = .error e) :
    e = .key .scalarOutOfRange ∧ ∃ m, digestFor leaf = .ok m ∧ Secret.ZeroNonce secret m := by
  obtain ⟨m, hm, hl⟩ := hd leaf
  rw [hm, signDigest] at h
  cases hsign : Secret.sign secret m with
  | error k =>
    simp only [hsign] at h
    cases h
    obtain ⟨rfl, hz⟩ := Secret.sign_eq_error hl hs hsign
    exact ⟨rfl, m, hm, hz⟩
  | ok signature =>
    simp only [hsign] at h
    cases h

theorem exists_of_signingFault_eq_error {digest : Except TransactionError Bytes}
    {secrets : List Bytes} (h : signingFault digest secrets = .error e) :
    ∃ secret ∈ secrets, signDigest secret digest = .error e := by
  induction secrets with
  | nil => cases h
  | cons secret rest ih =>
    rw [signingFault] at h
    split at h
    · rename_i e' he
      cases h
      exact ⟨secret, List.mem_cons_self, he⟩
    · obtain ⟨s, hs, he⟩ := ih h
      exact ⟨s, List.mem_cons_of_mem secret hs, he⟩

/-- The leaves that are tried are among those of the commitment. -/
theorem spendLeaf_eq_error (hs : store.Matches) (hd : digestFor.Total)
    {attempts : List LeafAttempt} {digests : List (Option Bytes)} {index : Nat}
    {leaves : List LeafPath} (hl : ∀ l ∈ leaves, l ∈ c.leaves)
    (h : (spendLeaf c store timelock digestFor attempts digests index leaves).result = .error e) :
    (∃ report, e = .noPath report) ∨
      (e = .key .scalarOutOfRange ∧ c.MeetsZeroNonce store digestFor) := by
  induction leaves generalizing attempts digests index with
  | nil =>
    cases h
    exact .inl ⟨_, rfl⟩
  | cons l rest ih =>
    rw [spendLeaf] at h
    dsimp only at h
    split at h
    · rename_i e' hf
      cases h
      obtain ⟨secret, hm, he⟩ := exists_of_signingFault_eq_error hf
      obtain ⟨key, hk⟩ := exists_of_mem_signingSecrets hm
      obtain ⟨rfl, m, hdigest, hz⟩ := signDigest_eq_error hd (hs.scalar hk) he
      exact .inr ⟨rfl, .leaf (hl l List.mem_cons_self) hk hdigest hz⟩
    · split at h
      · cases h
      · exact ih (fun l' hm => hl l' (List.mem_cons_of_mem l hm)) h

theorem spend_eq_error (hs : store.Matches) (hd : digestFor.Total)
    (h : (spend c store timelock digestFor).result = .error e) :
    (∃ report, e = .noPath report) ∨ (∃ k, e = .key k ∧ k ≠ .scalarOutOfRange) ∨
      (e = .key .scalarOutOfRange ∧ c.MeetsZeroNonce store digestFor) := by
  unfold spend at h
  split at h
  · exact (spendLeaf_eq_error hs hd (fun _ hl => hl) h).imp_right .inr
  · rename_i secret hsecret
    split at h
    · rename_i k hk
      cases h
      exact .inr (.inl ⟨k, rfl, Secret.tweak_eq_error (hs.publicKey hsecret) hk⟩)
    · rename_i tweaked ht
      split at h
      · rename_i e' he
        cases h
        obtain ⟨rfl, m, hdigest, hz⟩ := signDigest_eq_error hd (Secret.scalar_of_tweak (hs.publicKey hsecret) ht) he
        exact .inr (.inr ⟨rfl, .keyPath hsecret ht hdigest hz⟩)
      · cases h

end Taproot
