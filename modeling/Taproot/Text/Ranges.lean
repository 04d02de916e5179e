/-! # Ranges of code points

A class of characters is a list of closed ranges of code points, in ascending order.
-/
namespace Taproot.Text

abbrev Ranges := List (Nat × Nat)

def Ranges.has (r : Ranges) (c : Char) : Bool :=
  r.any fun b => b.1 ≤ c.toNat && c.toNat ≤ b.2

end Taproot.Text
