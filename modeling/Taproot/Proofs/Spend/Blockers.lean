import Taproot.Proofs.Miniscript.CutSets
import Taproot.Proofs.Spend.SignedPaths
import Taproot.Proofs.Text.Numerals

/-! # Blockers of a leaf

Where no path is found, the report of each leaf names predicates of the leaf that are not met, and
these suffice to explain it: as long as none of them is met, nothing else that may be at hand satisfies
the leaf.
-/
namespace Taproot

open Miniscript

/-! ## Messages -/

theorem Bytes.hex_injective : Function.Injective Bytes.hex := by
  intro a b h
  rw [← HexText.bytes_ofBytes a]
  exact HexText.bytes_of_text h

namespace Miniscript.Request

/-- The kinds of predicates differ in their first letters. -/
theorem head?_blockerMessage (r : Request) : r.blockerMessage.toList.head? = some (match r with
    | .sign _ => 'p'
    | .preimage _ => 's'
    | .older _ => 'o'
    | .after _ => 'a') := by
  cases r with
  | sign | preimage => simp [blockerMessage]
  | older height =>
    change ("older(" ++ toString height ++ "): relative timelock unmet").toList.head? = _
    simp
  | after height =>
    change ("after(" ++ toString height ++ "): absolute timelock unmet").toList.head? = _
    simp

/-- The message of a blocker names one predicate. -/
theorem blockerMessage_injective : Function.Injective Request.blockerMessage := by
  intro r s h
  have hhead := congrArg (fun message => message.toList.head?) h
  simp only [head?_blockerMessage, Option.some.injEq] at hhead
  cases r <;> cases s
  case sign.sign key key' =>
    have hk : key.hex = key'.hex := by simpa [blockerMessage] using h
    rw [Bytes.hex_injective hk]
  case preimage.preimage image image' =>
    have hi : image.hex = image'.hex := by simpa [blockerMessage] using h
    rw [Bytes.hex_injective hi]
  case older.older n n' =>
    have hn : toString n = toString n' := by simpa [blockerMessage] using h
    rw [Text.toString_inj hn]
  case after.after n n' =>
    have hn : toString n = toString n' := by simpa [blockerMessage] using h
    rw [Text.toString_inj hn]
  all_goals simp at hhead

end Miniscript.Request

/-! ## Reports -/

section Reports

variable {c : Commitment} {store : Store} {timelock : InputTimelock} {digestFor : DigestFor}
  {report : NoPath}

/-- What is not met is what the material of a leaf does not grant. -/
theorem isUnmet_eq (digest : Except TransactionError Bytes) (r : Request) :
    isUnmet store timelock r = !(leafMaterial store timelock digest).grants r := by
  rw [grants_leafMaterial]
  cases r <;> simp [isUnmet, granted]

theorem signDigest_ne_noPath (secret : Bytes) (digest : Except TransactionError Bytes) :
    signDigest secret digest ≠ .error (.noPath report) := by
  intro h
  unfold signDigest at h
  split at h
  · cases h
  · split at h <;> cases h

theorem signingFault_ne_noPath (digest : Except TransactionError Bytes) (secrets : List Bytes) :
    signingFault digest secrets ≠ .error (.noPath report) := by
  induction secrets with
  | nil => exact nofun
  | cons secret rest ih =>
    intro h
    rw [signingFault] at h
    split at h
    · rename_i e he
      cases h
      exact signDigest_ne_noPath _ _ he
    · exact ih h

/-- A search that ends without a path has reported every leaf, and none has a witness. -/
theorem attempts_of_spendLeaf {ls : List LeafPath} {attempts : List LeafAttempt}
    {digests : List (Option Bytes)} {index : Nat}
    (h : (spendLeaf c store timelock digestFor attempts digests index ls).result =
      .error (.noPath report)) :
    report.attempts =
        attempts ++ (ls.zipIdx index).map (fun (l, i) => l.attempt store timelock digestFor i) ∧
      ∀ l ∈ ls, (l.outcome store timelock digestFor).witness = none := by
  induction ls generalizing attempts digests index with
  | nil =>
    cases h
    exact ⟨(List.append_nil attempts).symm, nofun⟩
  | cons l rest ih =>
    rw [spendLeaf] at h
    dsimp only at h
    split at h
    · rename_i e hf
      cases h
      exact absurd hf (signingFault_ne_noPath _ _)
    · split at h
      · cases h
      · rename_i hw
        obtain ⟨ha, hn⟩ := ih h
        refine ⟨?_, List.forall_mem_cons.mpr ⟨hw, hn⟩⟩
        rw [ha, List.append_assoc, List.zipIdx_cons, List.map_cons]
        rfl

theorem attempts_of_spend
    (h : (spend c store timelock digestFor).result = .error (.noPath report)) :
    report.attempts = c.leaves.zipIdx.map (fun (l, i) => l.attempt store timelock digestFor i) ∧
      ∀ l ∈ c.leaves, (l.outcome store timelock digestFor).witness = none := by
  unfold spend at h
  split at h
  · exact attempts_of_spendLeaf h
  · split at h
    · cases h
    · split at h
      · rename_i e he
        cases h
        exact absurd he (signDigest_ne_noPath _ _)
      · cases h

namespace LeafPath

variable {l : LeafPath}

/-- What blocks a leaf occurs in it and is not met. -/
theorem mem_blockers {index : Nat} {r : Request}
    (hr : r ∈ (l.attempt store timelock digestFor index).blockers) :
    r ∈ l.leaf.fragment.predicates ∧ isUnmet store timelock r = true := by
  obtain ⟨hr, hu⟩ := List.mem_filter.mp hr
  have hs := (Fragment.HasType.of_type? l.leaf.typed).requests_satisfy
    (m := leafMaterial store timelock (digestFor (some l.hash)))
  exact ⟨hs.subset hr, hu⟩

theorem witness_eq_none_of_blockers {index : Nat} {m : Material}
    (hn : (l.outcome store timelock digestFor).witness = none)
    (hm : ∀ r ∈ (l.attempt store timelock digestFor index).blockers, m.grants r = false) :
    (l.leaf.fragment.satisfy m).witness = none := by
  apply Typed.witness_eq_none_of_denies hn
  intro r hr hd
  have hu : isUnmet store timelock r = true := by
    rw [isUnmet_eq (digestFor (some l.hash)), hd]
    rfl
  exact hm r (List.mem_filter.mpr ⟨hr, hu⟩)

end LeafPath

/-- Each blocker of a leaf names one predicate, which occurs in the leaf and is not met. A material
that meets none of the predicates named does not satisfy the leaf, whatever else it offers; without
blockers no material does. -/
theorem blockers_explain
    (h : (spend c store timelock digestFor).result = .error (.noPath report)) :
    ∀ a ∈ report.attempts, ∃ l, c.leaves[a.index]? = some l ∧
      a.miniscript = l.leaf.fragment.text ∧
      (∀ r ∈ a.blockers, (∀ r' : Request, r'.blockerMessage = r.blockerMessage → r' = r) ∧
        r ∈ l.leaf.fragment.predicates ∧ isUnmet store timelock r = true) ∧
      (∀ m : Material, (∀ r ∈ a.blockers, m.grants r = false) →
        (l.leaf.fragment.satisfy m).witness = none) ∧
      (a.blockers = [] → ∀ m : Material, (l.leaf.fragment.satisfy m).witness = none) := by
  obtain ⟨hattempts, hnone⟩ := attempts_of_spend h
  intro a ha
  rw [hattempts] at ha
  obtain ⟨⟨l, i⟩, hl, rfl⟩ := List.mem_map.mp ha
  have hi : c.leaves[i]? = some l := by simpa using List.mem_zipIdx_iff_getElem?.mp hl
  have hn := hnone l (List.mem_of_getElem? hi)
  have hcut : ∀ m : Material,
      (∀ r ∈ (l.attempt store timelock digestFor i).blockers, m.grants r = false) →
      (l.leaf.fragment.satisfy m).witness = none :=
    fun _ => l.witness_eq_none_of_blockers hn
  refine ⟨l, hi, rfl, ?_, hcut, ?_⟩
  · intro r hr
    exact ⟨fun r' hr' => Request.blockerMessage_injective hr', LeafPath.mem_blockers hr⟩
  · intro he m
    apply hcut m
    intro r hr
    rw [he] at hr
    cases hr

end Reports

namespace NothingHeld

def firstKey : Bytes := List.replicate 32 1

/-- The second key matters only where the first one signs. -/
def policy : Typed :=
  ⟨.andOr (.wrap .c (.key firstKey)) (.wrap .c (.key (List.replicate 32 2))) (.older 144),
    { base := .B }, by decide⟩

def tree : ScriptTree := .branch (.leaf policy) (.leaf (.just false))

def commitment : Commitment := { TwoLeaves.commitment with
  leaves := tree.commit.2
  root := some tree.commit.1 }

def timelock : InputTimelock := ⟨0, none, false, none⟩

theorem reports : (spend commitment {} timelock TwoLeaves.digestFor).result =
    .error (.noPath ⟨0, commitment.internalKey,
      [⟨0, policy.fragment.text, [.sign firstKey, .older 144]⟩, ⟨1, "0", []⟩]⟩) := by
  rfl

/-- Without the first key and the height, the second key is of no use; the other leaf is not satisfied
by anything. -/
theorem explained :
    (spend commitment {} timelock TwoLeaves.digestFor).result =
      .error (.noPath ⟨0, commitment.internalKey,
        [⟨0, policy.fragment.text, [.sign firstKey, .older 144]⟩, ⟨1, "0", []⟩]⟩) ∧
    (∀ m : Material, m.grants (.sign firstKey) = false → m.grants (.older 144) = false →
      (policy.fragment.satisfy m).witness = none) ∧
    ∀ m : Material, ((Typed.just false).fragment.satisfy m).witness = none := by
  refine ⟨reports, ?_, ?_⟩
  · intro m hs ho
    obtain ⟨l, hl, -, -, hcut, -⟩ := blockers_explain reports _ List.mem_cons_self
    cases hl
    apply hcut m
    simp [hs, ho]
  · intro m
    obtain ⟨l, hl, -, -, -, hnone⟩ :=
      blockers_explain reports _ (List.mem_cons_of_mem _ List.mem_cons_self)
    cases hl
    exact hnone rfl m

end NothingHeld

end Taproot
