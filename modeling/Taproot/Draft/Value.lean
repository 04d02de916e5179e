import Taproot.Draft.Basic
import Taproot.Text.Integer

/-! # Output values

An output without a value takes what the inputs provide beyond the other outputs and the fee.
-/
namespace Taproot

inductive ValueFault
  | shortOfFunds (available : Int) (required : Nat)
  | severalRemainders
  /-- Funds are short by amounts of which one cannot be written. -/
  | unwritable
  deriving DecidableEq, Repr

namespace Draft

/-- The values as they are given, by ascending index. -/
def givenValues (d : Draft) : List (Option Nat) := d.outputs.sorted.values.map DraftOutput.value

/-- The given values and the fee together. -/
def required (d : Draft) : Nat := d.givenValues.foldr (fun v total => v.getD 0 + total) d.fee

def outputValues (d : Draft) (available : Int) : Except ValueFault (List Nat) :=
  if 1 < d.givenValues.count none then .error .severalRemainders
  else if available < d.required then
    .error (if Text.isWritable available && Text.isWritable d.required then
      .shortOfFunds available d.required else .unwritable)
  else .ok (d.givenValues.map fun v => v.getD (available - d.required).toNat)

end Draft
end Taproot
