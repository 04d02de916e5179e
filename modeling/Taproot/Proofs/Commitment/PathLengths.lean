import Taproot.Proofs.Commitment.ScriptPath

/-! # Lengths of paths

The path of a leaf has one hash for each branch above it, and its control block 32 bytes for each of
them.
-/
namespace Taproot

/-- The most hashes that a control block may hold. -/
def maxPathLength : Nat := 128

namespace ScriptTree

variable {t : ScriptTree} {l : LeafPath}

/-- The number of branches above the deepest leaf. -/
def depth : ScriptTree → Nat
  | leaf _ => 0
  | branch left right => max (depth left) (depth right) + 1

theorem length_path_extend (sibling : Bytes) (l : LeafPath) :
    (l.extend sibling).path.length = l.path.length + 1 := by
  simp [LeafPath.extend]

theorem length_path_le (hl : l ∈ t.commit.2) : l.path.length ≤ t.depth := by
  induction t generalizing l with
  | leaf x =>
    obtain rfl := List.mem_singleton.mp hl
    exact Nat.le_refl 0
  | branch left right ihl ihr =>
    rw [depth]
    rcases List.mem_append.mp hl with hl | hl
    · obtain ⟨l', hl', rfl⟩ := List.mem_map.mp hl
      have := ihl hl'
      rw [length_path_extend]
      omega
    · obtain ⟨l', hl', rfl⟩ := List.mem_map.mp hl
      have := ihr hl'
      rw [length_path_extend]
      omega

theorem exists_length_path (t : ScriptTree) : ∃ l ∈ t.commit.2, l.path.length = t.depth := by
  induction t with
  | leaf x => exact ⟨_, List.mem_singleton_self _, rfl⟩
  | branch left right ihl ihr =>
    obtain ⟨l, hl, hdl⟩ := ihl
    obtain ⟨r, hr, hdr⟩ := ihr
    rcases Nat.le_total right.depth left.depth with h | h
    · refine ⟨_, List.mem_append_left _ (List.mem_map_of_mem hl), ?_⟩
      rw [length_path_extend, hdl, depth, Nat.max_eq_left h]
    · refine ⟨_, List.mem_append_right _ (List.mem_map_of_mem hr), ?_⟩
      rw [length_path_extend, hdr, depth, Nat.max_eq_right h]

end ScriptTree

namespace Descriptor

variable {d : Descriptor} {c : Commitment}

/-- The number of branches above the deepest leaf; a descriptor without leaves has none. -/
def depth (d : Descriptor) : Nat := (d.tree.map ScriptTree.depth).getD 0

theorem length_path_le_iff (h : d.commit = .ok c) (n : Nat) :
    (∀ l ∈ c.leaves, l.path.length ≤ n) ↔ d.depth ≤ n := by
  obtain ⟨o, -, rfl⟩ := commit_eq_ok h
  obtain ⟨key, _ | t⟩ := d
  · exact ⟨fun _ => Nat.zero_le n, fun _ l hl => by cases hl⟩
  · constructor
    · intro hn
      obtain ⟨l, hl, hd⟩ := t.exists_length_path
      exact Nat.le_trans (Nat.le_of_eq hd.symm) (hn l hl)
    · exact fun hn l hl => Nat.le_trans (ScriptTree.length_path_le hl) hn

theorem length_controlBlock (h : d.commit = .ok c) {l : LeafPath} (hl : l ∈ c.leaves) :
    (c.controlBlock l).length = 33 + 32 * l.path.length := by
  obtain ⟨o, ho, rfl⟩ := commit_eq_ok h
  obtain ⟨key, _ | t⟩ := d
  · cases hl
  · obtain ⟨inner, -, -, hp, -⟩ := PublicKey.tweak_eq_ok ho
    have hk := PublicKey.length_of_point? hp
    have hw := (ScriptTree.reaches_commit (t := t) hl).width
    rw [Commitment.controlBlock, List.length_cons, List.length_append, hk,
      ScriptPath.length_flatten hw]
    omega

end Descriptor
end Taproot
