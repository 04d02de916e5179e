import Taproot.Descriptor.Checksum
import Taproot.Descriptor.Error
import Taproot.Miniscript.Typed

/-! # Descriptors

An internal key and, perhaps, a tree of script leaves; their canonical text and its checksum.
-/
namespace Taproot

open Miniscript

inductive ScriptTree
  | leaf (x : Typed)
  | branch (left right : ScriptTree)

structure Descriptor where
  internalKey : Bytes
  tree : Option ScriptTree

namespace ScriptTree

/-- The leaves from left to right. -/
def leaves : ScriptTree → List Typed
  | leaf x => [x]
  | branch l r => leaves l ++ leaves r

def text : ScriptTree → String
  | leaf x => x.fragment.text
  | branch l r => "\x7b" ++ text l ++ "," ++ text r ++ "\x7d"

end ScriptTree

def Descriptor.text (d : Descriptor) : String :=
  match d.tree with
  | none => "tr(" ++ d.internalKey.hex ++ ")"
  | some t => "tr(" ++ d.internalKey.hex ++ "," ++ t.text ++ ")"

/-- The checksum of a text, or the first character that it does not cover. -/
def descriptorChecksum (cs : List Char) : Except DescriptorError (List Char) :=
  match Checksum.compute cs with
  | .ok sum => .ok sum
  | .error (c, position) => .error (.syntaxAt .forbiddenCharacter ⟨[c], position⟩)

/-- The text up to its first `#`, with its checksum behind it. -/
def appendChecksum (text : String) : Except DescriptorError String :=
  let body := text.toList.takeWhile (· ≠ '#')
  (fun sum => String.ofList (body ++ '#' :: sum)) <$> descriptorChecksum body

def Descriptor.withChecksum (d : Descriptor) : Except DescriptorError String :=
  appendChecksum d.text

end Taproot
