import Taproot.Proofs.Miniscript.RequestOrder
import Taproot.Proofs.Spend.LeafChoice

/-! # Digests that are made

The digest of a leaf is made when the first signature for it is, and kept for the others. A search for
a path makes digests for leaves in their order, up to the one that is taken, and only where a key that
was asked has a secret in use.
-/
namespace Taproot

open Miniscript
open scoped List

/-! ## A digest that is kept -/

/-- A digest once it was made, and all that a digest was asked for. -/
structure LazyDigest where
  kept : Option Bytes := none
  calls : List (Option Bytes) := []

namespace LazyDigest

/-- Makes the digest where none is kept. -/
def read (digestFor : DigestFor) (leaf : Option Bytes) (d : LazyDigest) :
    Except TransactionError Bytes × LazyDigest :=
  match d.kept with
  | some m => (.ok m, d)
  | none => (digestFor leaf, ⟨(digestFor leaf).toOption, d.calls ++ [leaf]⟩)

/-- The answer for one key. -/
def sign (store : Store) (digestFor : DigestFor) (leaf : Option Bytes) (key : Bytes)
    (d : LazyDigest) : Except SpendError (Option Bytes) × LazyDigest :=
  match store.activeSecret? key with
  | none => (.ok none, d)
  | some secret =>
    let (digest, d) := d.read digestFor leaf
    ((signDigest secret digest).map some, d)

/-- The answers for keys from left to right; the first signature that fails is the last. -/
def signAll (store : Store) (digestFor : DigestFor) (leaf : Option Bytes) :
    List Bytes → LazyDigest → Except SpendError (List (Option Bytes)) × LazyDigest
  | [], d => (.ok [], d)
  | key :: keys, d =>
    match d.sign store digestFor leaf key with
    | (.error e, d) => (.error e, d)
    | (.ok answer, d) =>
      let (answers, d) := signAll store digestFor leaf keys d
      (answers.map (answer :: ·), d)

variable {store : Store} {timelock : InputTimelock} {digestFor : DigestFor} {leaf : Option Bytes}
  {d : LazyDigest}

/-- What is kept is the digest of the leaf. -/
def Valid (digestFor : DigestFor) (leaf : Option Bytes) (d : LazyDigest) : Prop :=
  ∀ m, d.kept = some m → digestFor leaf = .ok m

theorem valid_empty : Valid digestFor leaf {} := fun m h => by cases h

namespace Valid

theorem read_fst (h : d.Valid digestFor leaf) : (d.read digestFor leaf).1 = digestFor leaf := by
  unfold read
  split
  · rename_i m hm
    exact (h m hm).symm
  · rfl

theorem read_snd (h : d.Valid digestFor leaf) :
    (d.read digestFor leaf).2 = ⟨(digestFor leaf).toOption,
      d.calls ++ if d.kept.isSome then [] else [leaf]⟩ := by
  obtain ⟨kept, calls⟩ := d
  cases kept with
  | none => rfl
  | some m =>
    have hm := h m rfl
    simp [read, hm, Except.toOption]

end Valid

theorem Valid.sign_eq {key secret : Bytes} (h : d.Valid digestFor leaf)
    (hk : store.activeSecret? key = some secret) :
    d.sign store digestFor leaf key =
      ((signDigest secret (digestFor leaf)).map some, (d.read digestFor leaf).2) := by
  rw [sign, hk, ← h.read_fst]

/-- With a digest that is kept, the keys are answered as with one that is made each time, and it is
made for the first signature at most. -/
theorem Valid.signAll_eq (h : d.Valid digestFor leaf) (timelock : InputTimelock)
    (keys : List Bytes) :
    (d.signAll store digestFor leaf keys).1 =
        (signingFault (digestFor leaf) (keys.filterMap store.activeSecret?)).map
          (fun _ => keys.map (leafMaterial store timelock (digestFor leaf)).sign) ∧
      (d.signAll store digestFor leaf keys).2.calls = d.calls ++
        if d.kept.isSome || (keys.filterMap store.activeSecret?).isEmpty then [] else [leaf] := by
  induction keys generalizing d with
  | nil => simp [signAll, signingFault, Except.map]
  | cons key keys ih =>
    cases hk : store.activeSecret? key with
    | none =>
      obtain ⟨ha, hc⟩ := ih h
      have hs : d.sign store digestFor leaf key = (.ok none, d) := by rw [sign, hk]
      rw [List.filterMap_cons_none hk]
      simp only [signAll, hs, ha, hc, and_true]
      cases signingFault (digestFor leaf) (keys.filterMap store.activeSecret?) with
      | error e => rfl
      | ok _ => simp [Except.map, leafMaterial, hk]
    | some secret =>
      rw [List.filterMap_cons_some hk, signAll, h.sign_eq hk, h.read_snd, signingFault]
      cases hs : signDigest secret (digestFor leaf) with
      | error e => simp [Except.map]
      | ok signature =>
        obtain ⟨m, hm, -⟩ := signDigest_eq_ok.mp hs
        have hv : Valid digestFor leaf ⟨(digestFor leaf).toOption,
            d.calls ++ if d.kept.isSome then [] else [leaf]⟩ := by
          intro m' hm'
          rw [hm] at hm' ⊢
          cases hm'
          rfl
        obtain ⟨ha, hc⟩ := ih hv
        simp only [Except.map, ha, hc]
        refine ⟨?_, ?_⟩
        · cases signingFault (digestFor leaf) (keys.filterMap store.activeSecret?) with
          | error e => rfl
          | ok _ => simp [leafMaterial, hk, hs, Except.toOption]
        · simp [hm, Except.toOption]

end LazyDigest

/-! ## Leaves -/

section Leaves

variable {c : Commitment} {store : Store} {timelock : InputTimelock} {digestFor : DigestFor}

/-- What a digest is asked for while the leaf is tried. -/
def LeafPath.digestCalls (store : Store) (timelock : InputTimelock) (digestFor : DigestFor)
    (l : LeafPath) : List (Option Bytes) :=
  (LazyDigest.signAll store digestFor (some l.hash)
    ((l.outcome store timelock digestFor).requests.filterMap Request.key?) {}).2.calls

theorem signingSecrets_eq (requests : List Request) :
    signingSecrets store requests =
      (requests.filterMap Request.key?).filterMap store.activeSecret? := by
  rw [signingSecrets, List.filterMap_filterMap]
  congr 1
  funext r
  cases r <;> rfl

theorem mem_signingSecrets {requests : List Request} {secret : Bytes} :
    secret ∈ signingSecrets store requests ↔
      ∃ key, Request.sign key ∈ requests ∧ store.activeSecret? key = some secret := by
  rw [signingSecrets, List.mem_filterMap]
  constructor
  · rintro ⟨r, hr, hs⟩
    cases r with
    | sign key => exact ⟨key, hr, hs⟩
    | preimage | older | after => cases hs
  · rintro ⟨key, hr, hs⟩
    exact ⟨.sign key, hr, hs⟩

namespace LeafPath

variable (l : LeafPath)

theorem digestCalls_eq : l.digestCalls store timelock digestFor =
    if (signingSecrets store (l.outcome store timelock digestFor).requests).isEmpty then []
    else [some l.hash] := by
  rw [digestCalls, (LazyDigest.valid_empty.signAll_eq timelock _).2, signingSecrets_eq]
  rfl

theorem digestCalls_sublist : l.digestCalls store timelock digestFor <+ [some l.hash] := by
  rw [digestCalls_eq]
  split
  · exact List.nil_sublist _
  · exact List.Sublist.refl _

/-- A digest is made for a leaf exactly where a key that was asked has a secret in use. -/
theorem digestCalls_ne_nil_iff : l.digestCalls store timelock digestFor ≠ [] ↔
    ∃ key secret, Request.sign key ∈ (l.outcome store timelock digestFor).requests ∧
      store.activeSecret? key = some secret := by
  have hs : l.digestCalls store timelock digestFor ≠ [] ↔
      signingSecrets store (l.outcome store timelock digestFor).requests ≠ [] := by
    rw [digestCalls_eq]
    cases signingSecrets store (l.outcome store timelock digestFor).requests <;> simp
  rw [hs]
  constructor
  · intro h
    obtain ⟨secret, hm⟩ := List.exists_mem_of_ne_nil _ h
    obtain ⟨key, hr, hk⟩ := mem_signingSecrets.mp hm
    exact ⟨key, secret, hr, hk⟩
  · rintro ⟨key, secret, hr, hk⟩
    exact List.ne_nil_of_mem (mem_signingSecrets.mpr ⟨key, hr, hk⟩)

end LeafPath

/-- The leaves that are tried come first, and the one that is taken is the last of them. -/
theorem exists_spendLeaf_digests (c : Commitment) (store : Store) (timelock : InputTimelock)
    (digestFor : DigestFor) (ls : List LeafPath) (attempts : List LeafAttempt)
    (digests : List (Option Bytes)) (index : Nat) : ∃ n ≤ ls.length,
    (spendLeaf c store timelock digestFor attempts digests index ls).digests =
        digests ++ (ls.take n).flatMap (·.digestCalls store timelock digestFor) ∧
      ∀ items i, (spendLeaf c store timelock digestFor attempts digests index ls).result =
        .ok ⟨items, some i⟩ → index + n = i + 1 := by
  induction ls generalizing attempts digests index with
  | nil => exact ⟨0, Nat.le_refl 0, by simp [spendLeaf], fun items i h => by cases h⟩
  | cons l rest ih =>
    have hd : (if (signingSecrets store (l.outcome store timelock digestFor).requests).isEmpty
        then digests else digests ++ [some l.hash]) =
        digests ++ l.digestCalls store timelock digestFor := by
      rw [LeafPath.digestCalls_eq]
      split <;> simp
    rw [LeafPath.outcome] at hd
    rw [spendLeaf]
    dsimp only
    rw [hd]
    split
    · exact ⟨1, by simp, by simp, fun items i h => by cases h⟩
    · split
      · refine ⟨1, by simp, by simp, fun items i h => ?_⟩
        cases h
        rfl
      · obtain ⟨n, hn, hds, hi⟩ := ih _ _ _
        refine ⟨n + 1, Nat.succ_le_succ hn, ?_, fun items i h => ?_⟩
        · rw [hds, List.take_succ_cons, List.flatMap_cons, List.append_assoc]
        · rw [← hi items i h]
          omega

/-- With the secret of the internal key, the digest of the key path is the only one. -/
theorem digests_spend_keyPath (hk : (store.activeSecret? c.internalKey).isSome = true) :
    (spend c store timelock digestFor).digests <+ [none] := by
  obtain ⟨secret, hk⟩ := Option.isSome_iff_exists.mp hk
  rw [spend, hk]
  dsimp only
  split
  · exact List.nil_sublist _
  · split <;> exact List.Sublist.refl _

/-- A fragment is asked for its predicates from left to right, each at most once. A search for a path
makes at most one digest for each leaf, in the order of the leaves and up to the one that is taken,
and only where a key that the leaf asked for has a secret in use. -/
theorem secrets_asked_in_order (x : Typed) (m : Material) (c : Commitment) (store : Store)
    (timelock : InputTimelock) (digestFor : DigestFor) :
    ((x.fragment.satisfy m).requests <+ x.fragment.predicates ∧
      (x.fragment.satisfy m).requests.filterMap Request.key? <+ x.fragment.keys ∧
      (x.fragment.satisfy m).requests.filterMap Request.image? <+ x.fragment.images) ∧
    (((store.activeSecret? c.internalKey).isSome = true ∧
        (spend c store timelock digestFor).digests <+ [none]) ∨
      (store.activeSecret? c.internalKey = none ∧ ∃ n ≤ c.leaves.length,
        (spend c store timelock digestFor).digests =
          (c.leaves.take n).flatMap (·.digestCalls store timelock digestFor) ∧
        ∀ items i, (spend c store timelock digestFor).result = .ok ⟨items, some i⟩ → n = i + 1)) ∧
    ∀ l : LeafPath, l.digestCalls store timelock digestFor <+ [some l.hash] ∧
      (l.digestCalls store timelock digestFor ≠ [] ↔
        ∃ key secret, Request.sign key ∈ (l.outcome store timelock digestFor).requests ∧
          store.activeSecret? key = some secret) := by
  have hr := (Fragment.HasType.of_type? x.typed).requests_satisfy (m := m)
  obtain ⟨hks, his⟩ := Fragment.filterMap_predicates x.fragment
  refine ⟨⟨hr, ?_, ?_⟩, ?_, fun l => ⟨l.digestCalls_sublist, l.digestCalls_ne_nil_iff⟩⟩
  · rw [← hks]
    exact hr.filterMap _
  · rw [← his]
    exact hr.filterMap _
  · cases hk : store.activeSecret? c.internalKey with
    | some secret => exact .inl ⟨rfl, digests_spend_keyPath (by rw [hk]; rfl)⟩
    | none =>
      obtain ⟨n, hn, hd, hi⟩ := exists_spendLeaf_digests c store timelock digestFor c.leaves [] [] 0
      refine .inr ⟨rfl, n, hn, ?_⟩
      rw [spend, hk]
      exact ⟨hd, fun items i h => by rw [← hi items i h, Nat.zero_add]⟩

end Leaves
end Taproot
