import Taproot.Descriptor.Parser

/-! # Reading and the store

Nothing in the store matters to how a text is read but which keys and images are known: among stores
that know the same, a text is read as the same descriptor or refused for the same reason.
-/
namespace Taproot

/-- The stores know the same keys and images. -/
structure Store.KnowsSame (st st' : Store) : Prop where
  keys : ∀ k, (st'.findKey? k).isNone = (st.findKey? k).isNone
  images : ∀ d, (st'.findImage? d).isNone = (st.findImage? d).isNone

namespace Descriptor

open Miniscript

variable {st st' : Store} {ending : Token}

namespace Parser

theorem publicKey_congr (h : st.KnowsSame st') :
    publicKey ⟨st', ending⟩ = publicKey ⟨st, ending⟩ := by
  unfold publicKey
  simp only [h.keys]
  rfl

theorem hashImage_congr (h : st.KnowsSame st') :
    hashImage ⟨st', ending⟩ = hashImage ⟨st, ending⟩ := by
  unfold hashImage
  simp only [h.images]
  rfl

/-- Commas are found without the store. -/
theorem afterCommas_congr {α : Type} (st st' : Store) (item : Parser α) (limit : Nat) :
    afterCommas ⟨st', ending⟩ item limit = afterCommas ⟨st, ending⟩ item limit := by
  induction limit with
  | zero => rfl
  | succ n ih =>
    rw [afterCommas, afterCommas, ih]
    rfl

theorem fragment_congr (h : st.KnowsSame st') (expression : Parser Typed) (limit : Nat)
    (name : Token) : fragment ⟨st', ending⟩ expression limit name =
      fragment ⟨st, ending⟩ expression limit name := by
  unfold fragment
  simp only [publicKey_congr h, hashImage_congr h, afterCommas_congr st st']
  rfl

theorem expression_congr (h : st.KnowsSame st') (limit depth : Nat) :
    expression ⟨st', ending⟩ limit depth = expression ⟨st, ending⟩ limit depth := by
  induction depth with
  | zero => rfl
  | succ n ih =>
    rw [expression, expression, ih]
    simp only [fragment_congr h]
    rfl

theorem leaf_congr (h : st.KnowsSame st') (limit : Nat) :
    leaf ⟨st', ending⟩ limit = leaf ⟨st, ending⟩ limit := by
  unfold leaf
  rw [expression_congr h]
  rfl

theorem tree_congr (h : st.KnowsSame st') (limit depth : Nat) :
    tree ⟨st', ending⟩ limit depth = tree ⟨st, ending⟩ limit depth := by
  induction depth with
  | zero => rfl
  | succ n ih =>
    rw [tree, tree, ih, leaf_congr h]
    rfl

theorem descriptor_congr (h : st.KnowsSame st') (limit : Nat) :
    descriptor ⟨st', ending⟩ limit = descriptor ⟨st, ending⟩ limit := by
  unfold descriptor
  rw [publicKey_congr h, tree_congr h]
  rfl

end Parser

theorem readBody_congr (h : st.KnowsSame st') (cs : List Char) :
    readBody st' cs = readBody st cs := by
  unfold readBody
  simp only [Parser.descriptor_congr h]

/-- Stores that know the same keys and images read every text alike, also where it is refused. -/
theorem read_congr (h : st.KnowsSame st') (text : String) : read st' text = read st text := by
  unfold read
  simp only [readBody_congr h]

end Descriptor
end Taproot
