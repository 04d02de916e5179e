import Mathlib.Data.List.Basic
import Taproot.Commitment
import Taproot.Proofs.Hash.Windows
import Taproot.Proofs.Result

/-! # Script paths

The check that an output script commits to a leaf script, from the bytes of a control block alone, and
that it accepts every leaf of a commitment.
-/
namespace Taproot

namespace ScriptPath

/-- The hash of a leaf: its version, and its script behind the script's length. -/
def bottom (version : UInt8) (script : Bytes) : Bytes :=
  HashTag.tapLeaf.hash ([version] ++ CompactSize.ofNat script.length ++ script)

/-- Two hashes one level up, the lesser one first. -/
def join (a b : Bytes) : Bytes := HashTag.tapBranch.hash (if a < b then a ++ b else b ++ a)

/-- The hashes of 32 bytes behind the first byte and the internal key. -/
def siblings (block : Bytes) : List Bytes :=
  (List.range ((block.length - 33) / 32)).map fun j => (block.drop (33 + 32 * j)).take 32

/-- The check of a script and its control block against an output script. The first byte holds the
version of the leaf and, in its low bit, the parity of the output key. -/
def accepts (outputScript script block : Bytes) : Bool :=
  match block with
  | [] => false
  | first :: rest =>
    let internalKey := rest.take 32
    let root := (siblings block).foldl join (bottom (first &&& 0xfe) script)
    let tweak := (HashTag.tapTweak.hash (internalKey ++ root)).toNatBE
    match PublicKey.point? internalKey with
    | none => false
    | some inner =>
      match inner.add (Curve.multiply tweak Curve.generator) with
      | .infinity => false
      | .affine x y =>
        decide (32 ≤ rest.length ∧ rest.length % 32 = 0 ∧ tweak < Curve.n ∧
          outputScript = 0x51 :: 0x20 :: Bytes.ofNatBE 32 x ∧ y % 2 = (first &&& 1).toNat)

/-! ## Hashes of nodes -/

theorem leafHash_eq_bottom (version : UInt8) (script : Bytes) :
    leafHash version script = bottom version script := rfl

theorem join_comm (a b : Bytes) : join a b = join b a := by
  unfold join
  by_cases hab : a < b
  · rw [if_pos hab, if_neg (List.lt_asymm hab)]
  · by_cases hba : b < a
    · rw [if_neg hab, if_pos hba]
    · rw [if_neg hab, if_neg hba, List.le_antisymm hab hba]

theorem branchHash_eq_join (a b : Bytes) : branchHash a b = join a b := join_comm b a

theorem length_branchHash (a b : Bytes) : (branchHash a b).length = 32 := HashTag.length_hash _ _

/-! ## Control blocks -/

theorem flatten_drop {path : List Bytes} (hp : ∀ e ∈ path, e.length = 32) (j : Nat) :
    path.flatten.drop (32 * j) = (path.drop j).flatten := by
  induction path generalizing j with
  | nil => simp
  | cons e path ih =>
    cases j with
    | zero => rfl
    | succ j =>
      have he := hp e List.mem_cons_self
      rw [List.flatten_cons, List.drop_succ_cons, ← ih fun f hf => hp f (List.mem_cons_of_mem e hf),
        List.drop_append, List.drop_eq_nil_of_le (by omega), List.nil_append, he,
        Nat.mul_succ, Nat.add_sub_cancel]

theorem length_flatten {path : List Bytes} (hp : ∀ e ∈ path, e.length = 32) :
    path.flatten.length = 32 * path.length := by
  induction path with
  | nil => rfl
  | cons e path ih =>
    rw [List.flatten_cons, List.length_append, hp e List.mem_cons_self,
      ih fun f hf => hp f (List.mem_cons_of_mem e hf), List.length_cons]
    omega

theorem siblings_block (first : UInt8) {key : Bytes} (hk : key.length = 32) {path : List Bytes}
    (hp : ∀ e ∈ path, e.length = 32) : siblings (first :: (key ++ path.flatten)) = path := by
  have hn : ((first :: (key ++ path.flatten)).length - 33) / 32 = path.length := by
    rw [List.length_cons, List.length_append, hk, length_flatten hp]
    omega
  rw [siblings, hn]
  refine List.ext_getElem (by simp) fun j hj _ => ?_
  have hj : j < path.length := by simpa using hj
  have hd : (first :: (key ++ path.flatten)).drop (33 + 32 * j) = (path.drop j).flatten := by
    rw [← flatten_drop hp, show 33 + 32 * j = (32 + 32 * j) + 1 by omega, List.drop_succ_cons,
      ← List.drop_drop, ← hk, List.drop_left]
  rw [List.getElem_map, List.getElem_range, hd, List.drop_eq_getElem_cons hj, List.flatten_cons]
  have he := hp path[j] (List.getElem_mem hj)
  rw [← he, List.take_left]

end ScriptPath

/-! ## The leaves of a tree -/

open ScriptPath

namespace ScriptTree

theorem map_leaf_commit (t : ScriptTree) : t.commit.2.map LeafPath.leaf = t.leaves := by
  induction t with
  | leaf x => rfl
  | branch l r ihl ihr =>
    rw [commit, leaves, ← ihl, ← ihr, List.map_append, List.map_map, List.map_map]
    rfl

theorem length_commit (t : ScriptTree) : t.commit.1.length = 32 := by
  cases t with
  | leaf x => exact HashTag.length_hash _ _
  | branch l r => exact length_branchHash _ _

/-- A leaf with its own script and a path that leads from it to the root. -/
structure Reaches (root : Bytes) (l : LeafPath) : Prop where
  script : l.script = l.leaf.fragment.script.bytes
  width : ∀ e ∈ l.path, e.length = 32
  climb : l.path.foldl join l.hash = root

theorem Reaches.extend {root sibling : Bytes} {l : LeafPath} (h : Reaches root l)
    (hs : sibling.length = 32) : Reaches (join root sibling) (l.extend sibling) where
  script := h.script
  width e he := by
    rcases List.mem_append.mp he with he | he
    · exact h.width e he
    · rw [List.mem_singleton.mp he, hs]
  climb := by
    have hc : (l.path ++ [sibling]).foldl join l.hash = join root sibling := by
      rw [List.foldl_append, h.climb]
      rfl
    exact hc

theorem reaches_commit {t : ScriptTree} {l : LeafPath} (hl : l ∈ t.commit.2) :
    Reaches t.commit.1 l := by
  induction t generalizing l with
  | leaf x =>
    obtain rfl := List.mem_singleton.mp hl
    exact ⟨rfl, by simp, rfl⟩
  | branch left right ihl ihr =>
    have hroot : (branch left right).commit.1 = join left.commit.1 right.commit.1 :=
      branchHash_eq_join _ _
    rw [hroot]
    rcases List.mem_append.mp hl with hl | hl
    · obtain ⟨l', hl', rfl⟩ := List.mem_map.mp hl
      exact (ihl hl').extend right.length_commit
    · obtain ⟨l', hl', rfl⟩ := List.mem_map.mp hl
      rw [join_comm]
      exact (ihr hl').extend left.length_commit

end ScriptTree

/-! ## The output key -/

theorem PublicKey.tweak_eq_ok {key : Bytes} {root : Option Bytes} {o : OutputKey}
    (h : PublicKey.tweak key root = .ok o) : ∃ inner x y, PublicKey.point? key = some inner ∧
      (tapTweak key root).toNatBE < Curve.n ∧
      inner.add (Curve.multiply (tapTweak key root).toNatBE Curve.generator) = .affine x y ∧
      o = ⟨Bytes.ofNatBE 32 x, y % 2 = 1⟩ := by
  unfold PublicKey.tweak at h
  split at h
  · cases h
  · rename_i inner hp
    obtain ⟨ht, h⟩ := ite_error_eq_ok.mp h
    split at h
    · cases h
    · rename_i x y ha
      cases h
      exact ⟨inner, x, y, hp, Nat.lt_of_not_le ht, ha, rfl⟩

theorem PublicKey.length_of_point? {key : Bytes} {inner : Curve.Point}
    (h : PublicKey.point? key = some inner) : key.length = 32 := by
  unfold PublicKey.point? at h
  split at h
  · assumption
  · cases h

theorem Descriptor.commit_eq_ok {d : Descriptor} {c : Commitment} (h : d.commit = .ok c) :
    ∃ o, PublicKey.tweak d.internalKey (d.tree.map (·.commit.1)) = .ok o ∧
      c = ⟨d.internalKey, (d.tree.map (·.commit.2)).getD [], d.tree.map (·.commit.1), o⟩ := by
  obtain ⟨key, _ | t⟩ := d
  all_goals
    simp only [commit, bind_eq_ok, pure_eq_ok] at h
    obtain ⟨o, ho, rfl⟩ := h
    exact ⟨o, ho, rfl⟩

/-! ## Commitments -/

/-- The first byte of a control block. -/
theorem version_and_parity (odd : Bool) :
    (tapscriptVersion ||| if odd then 1 else 0) &&& 0xfe = tapscriptVersion ∧
      ((tapscriptVersion ||| if odd then 1 else 0) &&& 1).toNat = if odd then 1 else 0 := by
  cases odd <;> decide

theorem accepts_controlBlock {c : Commitment} {l : LeafPath} {root : Bytes}
    (hl : ScriptTree.Reaches root l) (ho : PublicKey.tweak c.internalKey (some root) = .ok c.output) :
    accepts c.outputScript l.script (c.controlBlock l) = true := by
  obtain ⟨inner, x, y, hp, ht, ha, hc⟩ := PublicKey.tweak_eq_ok ho
  have hk := PublicKey.length_of_point? hp
  obtain ⟨hv, hb⟩ := version_and_parity c.output.odd
  have htake : (c.internalKey ++ l.path.flatten).take 32 = c.internalKey := by
    rw [← hk, List.take_left]
  have hroot : (siblings (c.controlBlock l)).foldl join (bottom tapscriptVersion l.script) = root := by
    rw [Commitment.controlBlock, siblings_block _ hk hl.width, ← leafHash_eq_bottom]
    exact hl.climb
  rw [Commitment.controlBlock] at hroot
  simp only [accepts, Commitment.controlBlock, htake, hv, hroot, hp]
  simp only [tapTweak, Option.getD_some] at ht ha
  simp only [ha, decide_eq_true_eq]
  have hkey : c.outputScript = 0x51 :: 0x20 :: Bytes.ofNatBE 32 x := by
    rw [Commitment.outputScript, hc]
    rfl
  rw [hb, hc]
  refine ⟨?_, ?_, ht, hkey, ?_⟩
  · rw [List.length_append, hk]
    omega
  · rw [List.length_append, hk, length_flatten hl.width]
    omega
  · by_cases hy : y % 2 = 1
    · simp [hy]
    · have : y % 2 = 0 := by omega
      simp [this]

/-- The leaves of a descriptor come in order, and the output script commits to each of them. -/
theorem leaves_committed {d : Descriptor} {c : Commitment} (h : d.commit = .ok c) :
    c.leaves.map LeafPath.leaf = (d.tree.map ScriptTree.leaves).getD [] ∧
      ∀ l ∈ c.leaves, l.script = l.leaf.fragment.script.bytes ∧
        accepts c.outputScript l.script (c.controlBlock l) = true := by
  obtain ⟨o, ho, rfl⟩ := Descriptor.commit_eq_ok h
  obtain ⟨key, _ | t⟩ := d
  · exact ⟨rfl, nofun⟩
  · refine ⟨t.map_leaf_commit, fun l hl => ?_⟩
    have hr := ScriptTree.reaches_commit hl
    exact ⟨hr.script, accepts_controlBlock hr ho⟩

namespace HeightOrKey

def key : Miniscript.Typed :=
  .checkedKey (Bytes.ofNatBE 32 0xf9308a019258c31049344f85f89d5229b531c845836f99b08601f113bce036f9)

def descriptor : Descriptor where
  internalKey := Bytes.ofNatBE 32 0xc6047f9441ed7d6d3045406e95c07cd85c778e4b8cef3ca7abac09b95c709ee5
  tree := some (.branch (.leaf (.after 800000)) (.leaf key))

theorem commits : descriptor.commit.toOption.isSome = true := by
  simp only [descriptor, Descriptor.commit, ScriptTree.commit, leafHash, branchHash,
    PublicKey.tweak, tapTweak, HashTag.hash_eq_by]
  decide +kernel

theorem committed :
    (descriptor.commit.toOption.get commits).leaves.map LeafPath.leaf = [.after 800000, key] ∧
      ∀ l ∈ (descriptor.commit.toOption.get commits).leaves,
        l.script = l.leaf.fragment.script.bytes ∧
        accepts (descriptor.commit.toOption.get commits).outputScript l.script
          ((descriptor.commit.toOption.get commits).controlBlock l) = true :=
  leaves_committed (eq_ok_get commits)

end HeightOrKey

end Taproot
