import Taproot.Draft.Basic
import Taproot.Store.Basic

/-! # The wallet

The store, the descriptor that receives the next payment, the recorded outputs and the draft of the
next transaction.
-/
namespace Taproot

structure Wallet where
  store : Store := {}
  inbound : Option String := none
  utxos : List Utxo := []
  draft : Draft := {}
  deriving DecidableEq, Repr

end Taproot
