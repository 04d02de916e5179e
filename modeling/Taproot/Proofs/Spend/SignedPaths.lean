import Taproot.Proofs.Key.Tweaking
import Taproot.Proofs.Miniscript.Requests
import Taproot.Proofs.Spend.LeafChoice

/-! # Signatures of a path

Where the secrets of the store belong to their public keys, every signature that goes into a witness
verifies: on the key path under the output key, and in a leaf under the key for which it was obtained.
-/
namespace Taproot

open Miniscript

variable {store : Store} {c : Commitment} {timelock : InputTimelock} {digestFor : DigestFor}

/-- The secrets are ones of the public keys beside them. -/
def Store.Matches (store : Store) : Prop :=
  ∀ p ∈ store.keys, ∀ secret, p.secret = some secret →
    Secret.publicKey secret.bytes = .ok p.publicKey.bytes

theorem HexText.bytes_of_text {h : HexText} {b : Bytes} (ht : h.text = b.hex) : h.bytes = b := by
  obtain ⟨text, readable⟩ := h
  subst ht
  exact HexText.bytes_ofBytes b

theorem Store.Matches.publicKey (h : store.Matches) {key secret : Bytes}
    (hs : store.activeSecret? key = some secret) : Secret.publicKey secret = .ok key := by
  obtain ⟨p, hp, hu⟩ := Option.bind_eq_some_iff.mp hs
  have hm : p ∈ store.keys := List.mem_of_find?_eq_some hp
  have hk : p.publicKey.bytes = key := by
    have hf := List.find?_some hp
    exact HexText.bytes_of_text (beq_iff_eq.mp hf)
  unfold KeyPair.usableSecret at hu
  split at hu
  · obtain ⟨text, ht, rfl⟩ := Option.map_eq_some_iff.mp hu
    rw [← hk]
    exact h p hm text ht
  · cases hu

/-! ## Signing a digest -/

theorem verifies_signDigest {secret key signature : Bytes} {digest : Except TransactionError Bytes}
    (hk : Secret.publicKey secret = .ok key) (h : signDigest secret digest = .ok signature) :
    ∃ m, digest = .ok m ∧ PublicKey.verifies key m signature = true := by
  obtain ⟨m, hm, hs⟩ := signDigest_eq_ok.mp h
  exact ⟨m, hm, Secret.verifies_sign hk hs⟩

theorem exists_of_signingFault {digest : Except TransactionError Bytes} {secrets : List Bytes}
    (h : signingFault digest secrets = .ok ()) :
    ∀ secret ∈ secrets, ∃ signature, signDigest secret digest = .ok signature := by
  induction secrets with
  | nil => simp
  | cons secret rest ih =>
    rw [signingFault] at h
    split at h
    · cases h
    · rename_i signature hs
      exact List.forall_mem_cons.mpr ⟨⟨signature, hs⟩, ih h⟩

/-! ## The path that was taken -/

/-- What a search that succeeds came to. -/
theorem spendLeaf_eq_ok {attempts : List LeafAttempt} {digests : List (Option Bytes)} {index : Nat}
    {leaves : List LeafPath} {w : SpendWitness}
    (h : (spendLeaf c store timelock digestFor attempts digests index leaves).result = .ok w) :
    ∃ j l items, leaves[j]? = some l ∧ (l.outcome store timelock digestFor).witness = some items ∧
      signingFault (digestFor (some l.hash))
        (signingSecrets store (l.outcome store timelock digestFor).requests) = .ok () ∧
      w = ⟨items ++ [l.script, c.controlBlock l], some (index + j)⟩ := by
  induction leaves generalizing attempts digests index with
  | nil => cases h
  | cons l rest ih =>
    rw [spendLeaf] at h
    dsimp only at h
    split at h
    · cases h
    · rename_i hf
      split at h
      · rename_i items hw
        cases h
        exact ⟨0, l, items, rfl, hw, hf, rfl⟩
      · obtain ⟨j, l', items, hj, hw, hf', rfl⟩ := ih h
        refine ⟨j + 1, l', items, hj, hw, hf', ?_⟩
        rw [Nat.add_assoc, Nat.add_comm 1 j]

/-- What was at hand to satisfy the leaf, as far as it was asked for. -/
def LeafPath.obtained (l : LeafPath) (store : Store) (timelock : InputTimelock)
    (digestFor : DigestFor) : Material :=
  (leafMaterial store timelock (digestFor (some l.hash))).within
    (l.outcome store timelock digestFor).requests

/-- Every signature that went into the witness verifies over the digest of its path. In a leaf these
are the signatures that were obtained, and the items are put together from them. -/
inductive SpendWitness.Signed (c : Commitment) (store : Store) (timelock : InputTimelock)
    (digestFor : DigestFor) : SpendWitness → Prop
  | keyPath {m signature : Bytes} : digestFor none = .ok m →
    PublicKey.verifies c.output.key m signature = true →
    Signed c store timelock digestFor ⟨[signature], none⟩
  | leaf {index : Nat} {l : LeafPath} {items : List Bytes} : c.leaves[index]? = some l →
    (l.outcome store timelock digestFor).witness = some items →
    HasWitness (l.obtained store timelock digestFor) l.leaf.fragment true items →
    (∀ key signature, (l.obtained store timelock digestFor).sign key = some signature →
      ∃ m, digestFor (some l.hash) = .ok m ∧ PublicKey.verifies key m signature = true) →
    Signed c store timelock digestFor ⟨items ++ [l.script, c.controlBlock l], some index⟩

/-- Where no request for a signature is at fault, all that were obtained verify. -/
theorem verifies_obtained (hs : store.Matches) {l : LeafPath} {key signature : Bytes}
    (hf : signingFault (digestFor (some l.hash))
      (signingSecrets store (l.outcome store timelock digestFor).requests) = .ok ())
    (h : (l.obtained store timelock digestFor).sign key = some signature) :
    ∃ m, digestFor (some l.hash) = .ok m ∧ PublicKey.verifies key m signature = true := by
  simp only [LeafPath.obtained, Material.within] at h
  split at h
  · rename_i hkey
    obtain ⟨secret, hsecret, rfl⟩ := Option.map_eq_some_iff.mp h
    have hmem : secret ∈ signingSecrets store (l.outcome store timelock digestFor).requests :=
      List.mem_filterMap.mpr ⟨.sign key, hkey, hsecret⟩
    obtain ⟨signature, hd⟩ := exists_of_signingFault hf secret hmem
    rw [hd]
    exact verifies_signDigest (hs.publicKey hsecret) hd
  · cases h

theorem signed_of_spend (hs : store.Matches)
    (hc : PublicKey.tweak c.internalKey c.root = .ok c.output) {w : SpendWitness}
    (h : (spend c store timelock digestFor).result = .ok w) :
    w.Signed c store timelock digestFor := by
  unfold spend at h
  split at h
  · obtain ⟨j, l, items, hj, hw, hf, rfl⟩ := spendLeaf_eq_ok h
    rw [Nat.zero_add]
    exact .leaf hj hw (.of_requests hw) fun key signature hsig => verifies_obtained hs hf hsig
  · rename_i secret hsecret
    split at h
    · cases h
    · rename_i tweaked ht
      split at h
      · cases h
      · rename_i signature hd
        cases h
        obtain ⟨hk, -⟩ := Secret.parts_tweak (hs.publicKey hsecret) ht hc
        obtain ⟨m, hm, hv⟩ := verifies_signDigest hk hd
        exact .keyPath hm hv

end Taproot
