import Mathlib.Data.List.Perm.Basic
import Mathlib.Logic.Relation
import Taproot.Proofs.Commitment.ScriptPath
import Taproot.Proofs.Hash.Collision
import Taproot.Transaction.Basic

/-! # What a root binds

A root is the same for trees that differ in the order of children and in leaves with the same
script. Such trees are the only ones that share a root, unless two of the inputs hashed for them
collide: the tag tells a leaf from a branch, and the inputs of a branch are told up to their order.
-/
namespace Taproot

/-- What opens a leaf besides the internal key: its script and its path. -/
def LeafPath.opening (l : LeafPath) : Bytes × List Bytes := (l.script, l.path)

namespace ScriptTree

/-- One change: two children change places, or another leaf with the same script is put in. -/
inductive Exchange : ScriptTree → ScriptTree → Prop
  | swap {l r : ScriptTree} : Exchange (branch l r) (branch r l)
  | leaf {x y : Miniscript.Typed} (h : x.fragment.script.bytes = y.fragment.script.bytes) :
    Exchange (leaf x) (leaf y)
  | left {l l' r : ScriptTree} (h : Exchange l l') : Exchange (branch l r) (branch l' r)
  | right {l r r' : ScriptTree} (h : Exchange r r') : Exchange (branch l r) (branch l r')

/-- Any number of changes. -/
def Rearranges : ScriptTree → ScriptTree → Prop := Relation.ReflTransGen Exchange

/-! ## Changes keep the root -/

def openings (t : ScriptTree) : List (Bytes × List Bytes) := t.commit.2.map LeafPath.opening

/-- One more sibling at the upper end of a path. -/
def extendOpening (sibling : Bytes) (o : Bytes × List Bytes) : Bytes × List Bytes :=
  (o.1, o.2 ++ [sibling])

theorem openings_branch (l r : ScriptTree) : (branch l r).openings =
    l.openings.map (extendOpening r.commit.1) ++ r.openings.map (extendOpening l.commit.1) := by
  simp only [openings, commit, List.map_append, List.map_map]
  rfl

theorem root_branch (l r : ScriptTree) :
    (branch l r).commit.1 = ScriptPath.join l.commit.1 r.commit.1 :=
  ScriptPath.branchHash_eq_join _ _

/-- A change keeps the root, and the openings up to their order. -/
theorem Exchange.commit_eq {t t' : ScriptTree} (h : Exchange t t') :
    t.commit.1 = t'.commit.1 ∧ t.openings.Perm t'.openings := by
  induction h with
  | swap =>
    refine ⟨?_, ?_⟩
    · rw [root_branch, root_branch, ScriptPath.join_comm]
    · rw [openings_branch, openings_branch]
      exact List.perm_append_comm
  | leaf h =>
    refine ⟨?_, ?_⟩
    · rw [commit, commit, h]
    · rw [openings, openings, commit, commit, List.map_singleton, List.map_singleton,
        LeafPath.opening, LeafPath.opening, h]
  | left _ ih =>
    obtain ⟨hroot, hperm⟩ := ih
    refine ⟨?_, ?_⟩
    · rw [root_branch, root_branch, hroot]
    · rw [openings_branch, openings_branch, hroot]
      exact (hperm.map _).append_right _
  | right _ ih =>
    obtain ⟨hroot, hperm⟩ := ih
    refine ⟨?_, ?_⟩
    · rw [root_branch, root_branch, hroot]
    · rw [openings_branch, openings_branch, hroot]
      exact (hperm.map _).append_left _

theorem Rearranges.commit_eq {t t' : ScriptTree} (h : Rearranges t t') :
    t.commit.1 = t'.commit.1 ∧ t.openings.Perm t'.openings := by
  induction h with
  | refl => exact ⟨rfl, .refl _⟩
  | tail _ hstep ih =>
    obtain ⟨hroot, hperm⟩ := hstep.commit_eq
    exact ⟨ih.1.trans hroot, ih.2.trans hperm⟩

/-! ## A root keeps the tree -/

/-- What the root of the tree is the digest of. -/
def hashInput : ScriptTree → HashInput
  | leaf x => ⟨some .tapLeaf, tapscriptVersion :: sized x.fragment.script.bytes⟩
  | branch l r =>
    let (a, b) := (l.commit.1, r.commit.1)
    ⟨some .tapBranch, if b < a then b ++ a else a ++ b⟩

theorem digest_hashInput (t : ScriptTree) : t.hashInput.digest = t.commit.1 := by
  cases t <;> rfl

/-- All that is hashed while the tree is committed to. -/
def hashInputs : ScriptTree → List HashInput
  | leaf x => [hashInput (leaf x)]
  | branch l r => hashInput (branch l r) :: (l.hashInputs ++ r.hashInputs)

theorem hashInput_mem (t : ScriptTree) : t.hashInput ∈ t.hashInputs := by
  cases t <;> exact List.mem_cons_self

end ScriptTree

theorem CompactSize.length_ofNat_mono {n m : Nat} (h : n ≤ m) :
    (ofNat n).length ≤ (ofNat m).length := by
  unfold ofNat
  repeat' split
  all_goals simp only [List.length_cons, List.length_nil, Bytes.length_ofNatLE]
  all_goals omega

/-- The whole length tells how much of it is the size. -/
theorem sized_injective {a b : Bytes} (h : sized a = sized b) : a = b := by
  have hl := congrArg List.length h
  simp only [sized, List.length_append] at hl
  have hab : a.length = b.length := by
    rcases Nat.le_total a.length b.length with hle | hle
    · have := CompactSize.length_ofNat_mono hle
      omega
    · have := CompactSize.length_ofNat_mono hle
      omega
  rw [sized, sized, hab] at h
  exact List.append_cancel_left h

/-- Two hashes in order are told up to their order. -/
theorem eq_or_swapped_of_ordered {a b c d : Bytes} (ha : a.length = 32) (hb : b.length = 32)
    (hc : c.length = 32) (hd : d.length = 32)
    (h : (if b < a then b ++ a else a ++ b) = if d < c then d ++ c else c ++ d) :
    (a = c ∧ b = d) ∨ (a = d ∧ b = c) := by
  split at h <;> split at h
  · obtain ⟨rfl, rfl⟩ := List.append_inj h (hb.trans hd.symm)
    exact .inl ⟨rfl, rfl⟩
  · obtain ⟨rfl, rfl⟩ := List.append_inj h (hb.trans hc.symm)
    exact .inr ⟨rfl, rfl⟩
  · obtain ⟨rfl, rfl⟩ := List.append_inj h (ha.trans hd.symm)
    exact .inr ⟨rfl, rfl⟩
  · obtain ⟨rfl, rfl⟩ := List.append_inj h (ha.trans hc.symm)
    exact .inl ⟨rfl, rfl⟩

namespace ScriptTree

theorem Rearranges.both {l l' r r' : ScriptTree} (hl : Rearranges l l') (hr : Rearranges r r') :
    Rearranges (branch l r) (branch l' r') := by
  have hleft : Rearranges (branch l r) (branch l' r) :=
    Relation.ReflTransGen.lift (branch · r) (fun _ _ => Exchange.left) _ _ hl
  have hright : Rearranges (branch l' r) (branch l' r') :=
    Relation.ReflTransGen.lift (branch l' ·) (fun _ _ => Exchange.right) _ _ hr
  exact hleft.trans hright

theorem Rearranges.crossed {l l' r r' : ScriptTree} (hl : Rearranges l r') (hr : Rearranges r l') :
    Rearranges (branch l r) (branch l' r') :=
  (hl.both hr).tail .swap

/-- Where nothing collides, trees with one root are rearrangements of each other. -/
theorem rearranges_of_root_eq {t t' : ScriptTree}
    (hclash : ∀ i ∈ t.hashInputs, ∀ j ∈ t'.hashInputs, ¬ i.Collides j)
    (h : t.commit.1 = t'.commit.1) : Rearranges t t' := by
  have hinput {u u' : ScriptTree} (hu : ¬ u.hashInput.Collides u'.hashInput)
      (hr : u.commit.1 = u'.commit.1) : u.hashInput = u'.hashInput := by
    refine Classical.byContradiction fun hne => hu ⟨hne, ?_⟩
    rw [digest_hashInput, digest_hashInput, hr]
  induction t generalizing t' with
  | leaf x =>
    have he := hinput (hclash _ (hashInput_mem _) _ (hashInput_mem _)) h
    cases t' with
    | leaf y =>
      have hdata := congrArg HashInput.data he
      exact .single (.leaf (sized_injective (List.cons.inj hdata).2))
    | branch l' r' => cases congrArg HashInput.tag he
  | branch l r ihl ihr =>
    have he := hinput (hclash _ (hashInput_mem _) _ (hashInput_mem _)) h
    cases t' with
    | leaf y => cases congrArg HashInput.tag he
    | branch l' r' =>
      have hsub {u u' : ScriptTree} (hu : u.hashInputs ⊆ (branch l r).hashInputs)
          (hu' : u'.hashInputs ⊆ (branch l' r').hashInputs) :
          ∀ i ∈ u.hashInputs, ∀ j ∈ u'.hashInputs, ¬ i.Collides j :=
        fun i hi j hj => hclash i (hu hi) j (hu' hj)
      have hleft (u v : ScriptTree) : u.hashInputs ⊆ (branch u v).hashInputs :=
        fun i hi => List.mem_cons_of_mem _ (List.mem_append_left _ hi)
      have hright (u v : ScriptTree) : v.hashInputs ⊆ (branch u v).hashInputs :=
        fun i hi => List.mem_cons_of_mem _ (List.mem_append_right _ hi)
      rcases eq_or_swapped_of_ordered l.length_commit r.length_commit l'.length_commit
        r'.length_commit (congrArg HashInput.data he) with ⟨hl, hr⟩ | ⟨hl, hr⟩
      · exact (ihl (hsub (hleft l r) (hleft l' r')) hl).both
          (ihr (hsub (hright l r) (hright l' r')) hr)
      · exact (ihl (hsub (hleft l r) (hright l' r')) hl).crossed
          (ihr (hsub (hright l r) (hleft l' r')) hr)

end ScriptTree

/-! ## Commitments -/

/-- Commitments to rearranged trees have the same root and, for the same internal key, the same
output; and commitments with the same root are to rearranged trees, or two different inputs that are
hashed for them have the same hash. -/
theorem root_binds_tree {key key' : Bytes} {t t' : ScriptTree} {c c' : Commitment}
    (h : Descriptor.commit ⟨key, some t⟩ = .ok c) (h' : Descriptor.commit ⟨key', some t'⟩ = .ok c') :
    (t.Rearranges t' → c.root = c'.root ∧
      (c.leaves.map LeafPath.opening).Perm (c'.leaves.map LeafPath.opening) ∧
      (key = key' → c.output = c'.output)) ∧
    (c.root = c'.root →
      t.Rearranges t' ∨ ∃ i ∈ t.hashInputs, ∃ j ∈ t'.hashInputs, i.Collides j) := by
  obtain ⟨o, ho, rfl⟩ := Descriptor.commit_eq_ok h
  obtain ⟨o', ho', rfl⟩ := Descriptor.commit_eq_ok h'
  simp only [Option.map_some, Option.getD_some, Option.some.injEq] at ho ho' ⊢
  constructor
  · intro hr
    obtain ⟨hroot, hperm⟩ := hr.commit_eq
    refine ⟨hroot, hperm, ?_⟩
    rintro rfl
    rw [hroot] at ho
    exact Except.ok.inj (ho.symm.trans ho')
  · intro hroot
    by_cases hclash : ∃ i ∈ t.hashInputs, ∃ j ∈ t'.hashInputs, i.Collides j
    · exact .inr hclash
    · refine .inl (ScriptTree.rearranges_of_root_eq (fun i hi j hj hij => ?_) hroot)
      exact hclash ⟨i, hi, j, hj, hij⟩

namespace HeightOrKey

/-- The leaves have changed places. -/
def exchanged : Descriptor where
  internalKey := descriptor.internalKey
  tree := some (.branch (.leaf key) (.leaf (.after 800000)))

theorem exchanged_commits : exchanged.commit.toOption.isSome = true := by
  simp only [exchanged, descriptor, Descriptor.commit, ScriptTree.commit, leafHash, branchHash,
    PublicKey.tweak, tapTweak, HashTag.hash_eq_by]
  decide +kernel

theorem same_output : ∃ c c', descriptor.commit = .ok c ∧ exchanged.commit = .ok c' ∧
    c.root = c'.root ∧ c.output = c'.output := by
  have h := eq_ok_get commits
  have h' := eq_ok_get exchanged_commits
  obtain ⟨hroot, -, hout⟩ := (root_binds_tree h h').1 (.single .swap)
  exact ⟨_, _, h, h', hroot, hout rfl⟩

end HeightOrKey
end Taproot
