import Taproot.Draft.Timelock
import Taproot.Miniscript.Satisfaction
import Taproot.Proofs.Miniscript.Typing

/-! # Predicates of a fragment

The signatures, preimages and timelocks that a fragment names, from left to right.
-/
namespace Taproot.Miniscript

namespace Fragment

mutual

def predicates : Fragment → List Request
  | just _ => []
  | key k => [.sign k]
  | image h => [.preimage h]
  | after n => [.after n]
  | older n => [.older n]
  | multi _ ks => ks.map .sign
  | andV x y | andB x y | orB x y | orC x y | orD x y | orI x y => predicates x ++ predicates y
  | andOr x y z => predicates x ++ predicates y ++ predicates z
  | thresh _ xs => predicatesAll xs
  | wrap _ x => predicates x

def predicatesAll : List Fragment → List Request
  | [] => []
  | x :: xs => predicates x ++ predicatesAll xs

end

theorem mem_predicatesAll {r : Request} {xs : List Fragment} :
    r ∈ predicatesAll xs ↔ ∃ x ∈ xs, r ∈ predicates x := by
  induction xs with
  | nil => simp [predicatesAll]
  | cons x xs ih => simp [predicatesAll, ih]

theorem mem_imagesAll {h : Bytes} {xs : List Fragment} :
    h ∈ imagesAll xs ↔ ∃ x ∈ xs, h ∈ images x := by
  induction xs with
  | nil => simp [imagesAll]
  | cons x xs ih => simp [imagesAll, ih]

theorem mem_images {h : Bytes} {f : Fragment} : h ∈ f.images ↔ .preimage h ∈ f.predicates := by
  induction f with
  | just | key | image | after | older | multi => simp [images, predicates]
  | andV x y ihx ihy | andB x y ihx ihy | orB x y ihx ihy | orC x y ihx ihy | orD x y ihx ihy
  | orI x y ihx ihy => simp [images, predicates, ihx, ihy]
  | andOr x y z ihx ihy ihz => simp [images, predicates, ihx, ihy, ihz]
  | thresh k xs ih =>
    simp only [images, predicates, mem_imagesAll, mem_predicatesAll]
    exact exists_congr fun x => and_congr_right fun hx => ih x hx
  | wrap w x ih => simp [images, predicates, ih]

end Fragment

/-- Keys and digests have 32 bytes, and heights are what a descriptor may give. -/
def Request.InRange : Request → Prop
  | .sign key => key.length = 32
  | .preimage image => image.length = 32
  | .older n => 1 ≤ n ∧ n ≤ maxRelativeHeight
  | .after n => 1 ≤ n ∧ n < heightLimit

instance : (r : Request) → Decidable r.InRange
  | .sign key => inferInstanceAs (Decidable (key.length = 32))
  | .preimage image => inferInstanceAs (Decidable (image.length = 32))
  | .older n => inferInstanceAs (Decidable (1 ≤ n ∧ n ≤ maxRelativeHeight))
  | .after n => inferInstanceAs (Decidable (1 ≤ n ∧ n < heightLimit))

end Taproot.Miniscript
