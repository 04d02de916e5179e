import Taproot.Draft.Slots
import Taproot.Text.HexText

/-! # Transaction drafts

Inputs that spend recorded outputs, outputs that pay to descriptors, the fee and the locktime.
-/
namespace Taproot

/-- An unspent output. -/
structure Utxo where
  txid : HexText
  vout : Nat
  value : Nat
  descriptor : String
  deriving DecidableEq, Repr

def Utxo.outpoint (u : Utxo) : String := s!"{u.txid.text}:{u.vout}"

/-- The greatest relative height. -/
def maxRelativeHeight : Nat := 0xffff

/-- `sequence` is the relative timelock in blocks, where there is one. -/
structure DraftInput where
  utxo : Option Utxo := none
  sequence : Option Nat := none
  deriving DecidableEq, Repr

/-- An output without a value takes what remains after the fee. -/
structure DraftOutput where
  descriptor : String
  value : Option Nat := none
  deriving DecidableEq, Repr

structure Draft where
  inputs : Slots DraftInput := []
  outputs : Slots DraftOutput := []
  fee : Nat := 0
  locktime : Option Nat := none
  deriving DecidableEq, Repr

def Draft.hasRelativeTimelock (d : Draft) : Bool := d.inputs.any fun e => e.2.sequence.isSome

end Taproot
