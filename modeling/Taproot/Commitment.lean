import Taproot.Descriptor.Basic
import Taproot.Key.Tweak
import Taproot.Script.CompactSize

/-! # The commitment to a script tree

Leaves and branches are hashed up to a root, to which the output key commits. Each leaf keeps the
hashes of its siblings on the way up, which prove it in a control block.
-/
namespace Taproot

open Miniscript

/-- The version of tapscript leaves. -/
def tapscriptVersion : UInt8 := 0xc0

def leafHash (version : UInt8) (script : Bytes) : Bytes :=
  HashTag.tapLeaf.hash (version :: (CompactSize.ofNat script.length ++ script))

/-- The children are hashed in lexicographic order. -/
def branchHash (a b : Bytes) : Bytes :=
  HashTag.tapBranch.hash (if b < a then b ++ a else a ++ b)

/-- A leaf and the hashes of its siblings, from the leaf up. -/
structure LeafPath where
  leaf : Typed
  script : Bytes
  path : List Bytes

/-- Puts one more sibling at the upper end. -/
def LeafPath.extend (sibling : Bytes) (l : LeafPath) : LeafPath :=
  { l with path := l.path ++ [sibling] }

/-- The root and the leaves from left to right. -/
def ScriptTree.commit : ScriptTree → Bytes × List LeafPath
  | leaf x =>
    let script := x.fragment.script.bytes
    (leafHash tapscriptVersion script, [⟨x, script, []⟩])
  | branch l r =>
    let (lh, ls) := commit l
    let (rh, rs) := commit r
    (branchHash lh rh, ls.map (LeafPath.extend rh) ++ rs.map (LeafPath.extend lh))

structure Commitment where
  internalKey : Bytes
  leaves : List LeafPath
  root : Option Bytes
  output : OutputKey

def Descriptor.commit (d : Descriptor) : Except KeyError Commitment := do
  let (root, leaves) := match d.tree with
    | none => (none, [])
    | some t =>
      let (h, ls) := t.commit
      (some h, ls)
  return ⟨d.internalKey, leaves, root, ← PublicKey.tweak d.internalKey root⟩

def LeafPath.hash (l : LeafPath) : Bytes := leafHash tapscriptVersion l.script

namespace Commitment

/-- The leaf version with the parity of the output key, the internal key and the path. -/
def controlBlock (c : Commitment) (l : LeafPath) : Bytes :=
  (tapscriptVersion ||| if c.output.odd then 1 else 0) :: (c.internalKey ++ l.path.flatten)

def outputScript (c : Commitment) : Bytes := Taproot.outputScript c.output.key

end Commitment
end Taproot
