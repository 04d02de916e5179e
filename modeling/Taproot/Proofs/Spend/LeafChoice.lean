import Taproot.Proofs.Hash.Windows
import Taproot.Proofs.Miniscript.Policy
import Taproot.Proofs.Result
import Taproot.Spend.Path

/-! # The path that is taken

Where nothing fails to be signed, the key path is taken exactly where its secret is in use, and else
the first leaf whose formula is true under what the store and the timelock grant.
-/
namespace Taproot

open Miniscript

section Spending

variable {c : Commitment} {store : Store} {timelock : InputTimelock} {digestFor : DigestFor}

/-- What the store and the timelock of an input grant. -/
def granted (store : Store) (timelock : InputTimelock) : Request → Bool
  | .sign key => (store.activeSecret? key).isSome
  | .preimage image => (store.activePreimage? image).isSome
  | .older height => timelock.olderMet height
  | .after height => timelock.afterMet height

theorem grants_leafMaterial (digest : Except TransactionError Bytes) :
    (leafMaterial store timelock digest).grants = granted store timelock := by
  funext r
  cases r <;> simp [Material.grants, leafMaterial, granted]

namespace LeafPath

/-- The formula of the leaf is true. -/
def opens (store : Store) (timelock : InputTimelock) (l : LeafPath) : Bool :=
  l.leaf.fragment.holds (granted store timelock)

/-- What becomes of the leaf in a search. -/
def outcome (store : Store) (timelock : InputTimelock) (digestFor : DigestFor) (l : LeafPath) :
    Outcome :=
  l.leaf.fragment.satisfy (leafMaterial store timelock (digestFor (some l.hash)))

/-- The report of a leaf that cannot be satisfied. -/
def attempt (store : Store) (timelock : InputTimelock) (digestFor : DigestFor) (l : LeafPath)
    (index : Nat) : LeafAttempt :=
  ⟨index, l.leaf.fragment.text,
    (l.outcome store timelock digestFor).requests.filter (isUnmet store timelock)⟩

theorem isSome_outcome (l : LeafPath) :
    (l.outcome store timelock digestFor).witness.isSome = l.opens store timelock := by
  rw [outcome, Typed.isSome_satisfy, grants_leafMaterial]
  rfl

/-- No signature that the leaf may ask for fails. -/
def Signs (store : Store) (digestFor : DigestFor) (l : LeafPath) : Prop :=
  ∀ key secret, store.activeSecret? key = some secret →
    ∃ signature, signDigest secret (digestFor (some l.hash)) = .ok signature

end LeafPath

/-- Neither a signature nor the tweak of the secret of the internal key fails. -/
structure Commitment.Signs (c : Commitment) (store : Store) (digestFor : DigestFor) : Prop where
  leaf : ∀ l ∈ c.leaves, l.Signs store digestFor
  key : ∀ secret, store.activeSecret? c.internalKey = some secret → ∃ tweaked signature,
    Secret.tweak secret c.root = .ok tweaked ∧ signDigest tweaked (digestFor none) = .ok signature

/-! ## One leaf -/

theorem signDigest_eq_ok {secret signature : Bytes} {digest : Except TransactionError Bytes} :
    signDigest secret digest = .ok signature ↔
      ∃ m, digest = .ok m ∧ Secret.sign secret m = .ok signature := by
  unfold signDigest
  cases digest with
  | error e => simp
  | ok m => cases h : Secret.sign secret m <;> simp [h]

theorem signingFault_eq_ok {digest : Except TransactionError Bytes} {secrets : List Bytes}
    (h : ∀ secret ∈ secrets, ∃ signature, signDigest secret digest = .ok signature) :
    signingFault digest secrets = .ok () := by
  induction secrets with
  | nil => rfl
  | cons secret rest ih =>
    obtain ⟨signature, hs⟩ := h secret List.mem_cons_self
    rw [signingFault, hs]
    exact ih fun s hs => h s (List.mem_cons_of_mem secret hs)

theorem exists_of_mem_signingSecrets {requests : List Request} {secret : Bytes}
    (h : secret ∈ signingSecrets store requests) : ∃ key, store.activeSecret? key = some secret := by
  obtain ⟨r, -, hr⟩ := List.mem_filterMap.mp h
  cases r with
  | sign key => exact ⟨key, hr⟩
  | preimage | older | after => cases hr

theorem LeafPath.Signs.signingFault_eq_ok {l : LeafPath} (h : l.Signs store digestFor)
    (requests : List Request) :
    signingFault (digestFor (some l.hash)) (signingSecrets store requests) = .ok () := by
  refine Taproot.signingFault_eq_ok fun secret hs => ?_
  obtain ⟨key, hk⟩ := exists_of_mem_signingSecrets hs
  exact h key secret hk

section Step

variable {l : LeafPath} {rest : List LeafPath} (attempts : List LeafAttempt)
  (digests : List (Option Bytes)) (index : Nat)

theorem spendLeaf_of_opens (hs : l.Signs store digestFor) (ho : l.opens store timelock = true) :
    ∃ w, (l.outcome store timelock digestFor).witness = some w ∧
      (spendLeaf c store timelock digestFor attempts digests index (l :: rest)).result =
        .ok ⟨w ++ [l.script, c.controlBlock l], some index⟩ := by
  obtain ⟨w, hw⟩ := Option.isSome_iff_exists.mp ((LeafPath.isSome_outcome l).trans ho)
  refine ⟨w, hw, ?_⟩
  rw [LeafPath.outcome] at hw
  rw [spendLeaf]
  simp only [hs.signingFault_eq_ok, hw]

theorem spendLeaf_of_not_opens (hs : l.Signs store digestFor)
    (ho : l.opens store timelock = false) : ∃ digests',
      spendLeaf c store timelock digestFor attempts digests index (l :: rest) =
        spendLeaf c store timelock digestFor
          (attempts ++ [l.attempt store timelock digestFor index]) digests' (index + 1) rest := by
  have hw : (l.outcome store timelock digestFor).witness = none := by
    have h := @LeafPath.isSome_outcome store timelock digestFor l
    simpa [ho] using h
  rw [LeafPath.outcome] at hw
  rw [spendLeaf]
  simp only [hs.signingFault_eq_ok, hw]
  exact ⟨_, rfl⟩

end Step

/-! ## All leaves -/

/-- The leaves before the first one that opens do not change what it gives. -/
theorem spendLeaf_of_findIdx? {ls : List LeafPath} {i : Nat}
    (hs : ∀ l ∈ ls, l.Signs store digestFor) (hi : ls.findIdx? (·.opens store timelock) = some i)
    (attempts : List LeafAttempt) (digests : List (Option Bytes)) (index : Nat) :
    ∃ l w, ls[i]? = some l ∧ (l.outcome store timelock digestFor).witness = some w ∧
      (spendLeaf c store timelock digestFor attempts digests index ls).result =
        .ok ⟨w ++ [l.script, c.controlBlock l], some (index + i)⟩ := by
  induction ls generalizing i attempts digests index with
  | nil => cases hi
  | cons l rest ih =>
    rw [List.findIdx?_cons] at hi
    cases ho : l.opens store timelock with
    | true =>
      obtain rfl : 0 = i := by simpa [ho] using hi
      obtain ⟨w, hw, hr⟩ := spendLeaf_of_opens (c := c) attempts digests index
        (hs l List.mem_cons_self) ho
      exact ⟨l, w, rfl, hw, hr⟩
    | false =>
      obtain ⟨j, hj, rfl⟩ : ∃ j, rest.findIdx? (·.opens store timelock) = some j ∧ j + 1 = i := by
        simpa [ho] using hi
      obtain ⟨digests', hd⟩ := spendLeaf_of_not_opens (c := c) attempts digests index
        (hs l List.mem_cons_self) ho
      rw [hd, ← Nat.add_assoc, Nat.add_right_comm]
      exact ih (fun l' hl' => hs l' (List.mem_cons_of_mem l hl')) hj _ _ _

theorem spendLeaf_of_none {ls : List LeafPath} (hs : ∀ l ∈ ls, l.Signs store digestFor)
    (hn : ∀ l ∈ ls, l.opens store timelock = false) (attempts : List LeafAttempt)
    (digests : List (Option Bytes)) (index : Nat) :
    (spendLeaf c store timelock digestFor attempts digests index ls).result =
      .error (.noPath ⟨timelock.index, c.internalKey,
        attempts ++ (ls.zipIdx index).map fun (l, i) => l.attempt store timelock digestFor i⟩) := by
  induction ls generalizing attempts digests index with
  | nil => simp [spendLeaf]
  | cons l rest ih =>
    obtain ⟨digests', hd⟩ := spendLeaf_of_not_opens (c := c) attempts digests index
      (hs l List.mem_cons_self) (hn l List.mem_cons_self)
    rw [hd, ih (fun l' hl' => hs l' (List.mem_cons_of_mem l hl'))
      fun l' hl' => hn l' (List.mem_cons_of_mem l hl')]
    simp [List.zipIdx_cons]

/-- The results that are due to a store and a timelock. -/
inductive Due (c : Commitment) (store : Store) (timelock : InputTimelock) (digestFor : DigestFor) :
    Except SpendError SpendWitness → Prop
  | key {secret signature : Bytes} : store.activeSecret? c.internalKey = some secret →
    Due c store timelock digestFor (.ok ⟨[signature], none⟩)
  | leaf {i : Nat} {l : LeafPath} {w : Witness} : store.activeSecret? c.internalKey = none →
    c.leaves.findIdx? (·.opens store timelock) = some i → c.leaves[i]? = some l →
    (l.outcome store timelock digestFor).witness = some w →
    Due c store timelock digestFor (.ok ⟨w ++ [l.script, c.controlBlock l], some i⟩)
  | noPath : store.activeSecret? c.internalKey = none →
    (∀ l ∈ c.leaves, l.opens store timelock = false) →
    Due c store timelock digestFor (.error (.noPath ⟨timelock.index, c.internalKey,
      c.leaves.zipIdx.map fun (l, i) => l.attempt store timelock digestFor i⟩))

theorem due_spend (h : c.Signs store digestFor) :
    Due c store timelock digestFor (spend c store timelock digestFor).result := by
  unfold spend
  split
  · rename_i hk
    cases hi : c.leaves.findIdx? (·.opens store timelock) with
    | none =>
      have hn : ∀ l ∈ c.leaves, l.opens store timelock = false := by
        simpa [List.findIdx?_eq_none_iff] using hi
      rw [spendLeaf_of_none h.leaf hn]
      exact .noPath hk hn
    | some i =>
      obtain ⟨l, w, hl, hw, hr⟩ := spendLeaf_of_findIdx? (c := c) h.leaf hi [] [] 0
      rw [hr, Nat.zero_add]
      exact .leaf hk hi hl hw
  · rename_i secret hk
    obtain ⟨tweaked, signature, ht, hs⟩ := h.key secret hk
    simp only [ht, hs]
    exact .key hk

/-- The key path comes first; else the first leaf that opens is spent, and without one each leaf is
reported. -/
theorem spend_exact (h : c.Signs store digestFor) :
    ((∃ items, (spend c store timelock digestFor).result = .ok ⟨items, none⟩) ↔
      (store.activeSecret? c.internalKey).isSome = true) ∧
    (∀ i, (∃ items, (spend c store timelock digestFor).result = .ok ⟨items, some i⟩) ↔
      store.activeSecret? c.internalKey = none ∧
        c.leaves.findIdx? (·.opens store timelock) = some i) ∧
    ((∃ e, (spend c store timelock digestFor).result = .error e) ↔
      store.activeSecret? c.internalKey = none ∧
        ∀ l ∈ c.leaves, l.opens store timelock = false) ∧
    (∀ items i, (spend c store timelock digestFor).result = .ok ⟨items, some i⟩ →
      ∃ l w, c.leaves[i]? = some l ∧ (l.outcome store timelock digestFor).witness = some w ∧
        items = w ++ [l.script, c.controlBlock l]) ∧
    ∀ e, (spend c store timelock digestFor).result = .error e →
      e = .noPath ⟨timelock.index, c.internalKey,
        c.leaves.zipIdx.map fun (l, i) => l.attempt store timelock digestFor i⟩ := by
  have hd : Due c store timelock digestFor (spend c store timelock digestFor).result := due_spend h
  generalize (spend c store timelock digestFor).result = r at hd
  cases hd with
  | @key secret signature hk =>
    refine ⟨⟨fun _ => by rw [hk]; rfl, fun _ => ⟨_, rfl⟩⟩, fun i => ⟨?_, ?_⟩, ⟨nofun, ?_⟩, nofun,
      nofun⟩
    · rintro ⟨items, hi⟩
      cases hi
    · rintro ⟨hn, -⟩
      rw [hk] at hn
      cases hn
    · rintro ⟨hn, -⟩
      rw [hk] at hn
      cases hn
  | @leaf i l w hk hi hl hw =>
    refine ⟨⟨?_, ?_⟩, fun j => ⟨?_, ?_⟩, ⟨nofun, ?_⟩, ?_, nofun⟩
    · rintro ⟨items, hr⟩
      cases hr
    · intro hs
      rw [hk] at hs
      cases hs
    · rintro ⟨items, hr⟩
      cases hr
      exact ⟨hk, hi⟩
    · rintro ⟨-, hj⟩
      obtain rfl : i = j := Option.some.inj (hi.symm.trans hj)
      exact ⟨_, rfl⟩
    · rintro ⟨-, hn⟩
      have := List.findIdx?_eq_none_iff.mpr hn
      rw [hi] at this
      cases this
    · intro items j hr
      cases hr
      exact ⟨l, w, hl, hw, rfl⟩
  | noPath hk hn =>
    refine ⟨⟨nofun, ?_⟩, fun j => ⟨nofun, ?_⟩, ⟨fun _ => ⟨hk, hn⟩, fun _ => ⟨_, rfl⟩⟩, nofun, ?_⟩
    · intro hs
      rw [hk] at hs
      cases hs
    · rintro ⟨-, hj⟩
      rw [List.findIdx?_eq_none_iff.mpr hn] at hj
      cases hj
    · intro e he
      cases he
      rfl

end Spending

namespace TwoLeaves

def secret : Bytes := Bytes.ofNatBE 32 1

def key : Bytes := xBytes Curve.generator

/-- The first leaf asks for a key whose secret is not there, the second one for a key or a height. -/
def tree : ScriptTree :=
  .branch (.leaf (.checkedKey (List.replicate 32 3)))
    (.leaf ⟨.orI (.wrap .c (.key key)) (.after 800000), { base := .B, d := true }, by decide⟩)

def commitment : Commitment where
  internalKey := Bytes.ofNatBE 32 0xc6047f9441ed7d6d3045406e95c07cd85c778e4b8cef3ca7abac09b95c709ee5
  leaves := tree.commit.2
  root := some tree.commit.1
  output := ⟨List.replicate 32 4, false⟩

def store : Store where
  keys := [⟨some (.ofBytes secret), .ofBytes key, true⟩]

def digestFor : DigestFor := fun _ => .ok (List.replicate 32 0)

theorem activeSecret?_eq {k s : Bytes} (h : store.activeSecret? k = some s) : s = secret := by
  obtain ⟨p, hp, hs⟩ := Option.bind_eq_some_iff.mp h
  have hm : p ∈ store.keys := List.mem_of_find?_eq_some hp
  obtain rfl := List.mem_singleton.mp hm
  exact (Option.some.inj hs).symm.trans (HexText.bytes_ofBytes secret)

theorem signs_zeros : (Secret.sign secret (List.replicate 32 0)).toOption.isSome = true := by
  simp only [Secret.sign, Secret.nonce, challenge, HashTag.hash_eq_by]
  decide +kernel

theorem signs : commitment.Signs store digestFor where
  leaf l hl := by
    intro k s hs
    obtain rfl := activeSecret?_eq hs
    exact ⟨_, signDigest_eq_ok.mpr ⟨_, rfl, eq_ok_get signs_zeros⟩⟩
  key s hs := by
    have h : store.activeSecret? commitment.internalKey = none := by decide +kernel
    exact absurd (h.symm.trans hs) (Option.some_ne_none s).symm

theorem spends_second : ∃ items,
    (spend commitment store ⟨0, none, false, none⟩ digestFor).result = .ok ⟨items, some 1⟩ :=
  ((spend_exact signs).2.1 1).mpr ⟨by decide +kernel, by decide +kernel⟩

end TwoLeaves

end Taproot
