import Taproot.Hash.Tagged
import Taproot.Transaction.Basic
import Taproot.Transaction.Error

/-! # Signature digests

The message that an input signs: the whole transaction without its witnesses, the outputs that it
spends, the input, and the leaf where a leaf is taken.
-/
namespace Taproot.Transaction

/-- The sighash types that sign everything: the default one and the explicit one. -/
def isSighashType (type : Int) : Bool := type == 0 || type == 1

/-- What is signed for a leaf in addition: its hash, the key version, and that no separator ran. -/
def leafExtension : Option Bytes → Bytes
  | none => []
  | some h => h ++ 0x00 :: Bytes.ofNatLE 4 0xffffffff

/-- Twice the extension flag; there is no annex. -/
def spendType (leaf : Option Bytes) : UInt8 := if leaf.isSome then 2 else 0

def digestMessage (tx : Transaction) (index : Int) (spent : List TxOut) (type : Int)
    (leaf : Option Bytes) : Except EncodingError Bytes := do
  let outpoints ← encodeAll TxIn.encodeOutpoint tx.inputs
  let values ← encodeAll TxOut.encodeValue spent
  let sequences ← encodeAll TxIn.encodeSequence tx.inputs
  let outputs ← encodeAll TxOut.encode tx.outputs
  let version ← unsignedLE 4 tx.version
  let locktime ← unsignedLE 4 tx.locktime
  let position ← unsignedLE 4 index
  return [0x00, UInt8.ofNat type.toNat] ++ version ++ locktime ++ sha256 outpoints ++
    sha256 values ++ sha256 (spent.flatMap fun o => sized o.script) ++ sha256 sequences ++
    sha256 outputs ++ [spendType leaf] ++ position ++ leafExtension leaf

/-- The digest that an input signs; `spent` holds the spent outputs of all inputs. -/
def digest (tx : Transaction) (index : Int) (spent : List TxOut) (type : Int)
    (leaf : Option Bytes) : Except TransactionError Bytes :=
  if !isSighashType type then .error (.sighashType type)
  else if tx.inputs.length ≤ index then .error .inputIndex
  else if spent.length ≠ tx.inputs.length then .error .missingSpentOutput
  else
    match tx.digestMessage index spent type leaf with
    | .ok m => .ok (HashTag.tapSighash.hash m)
    | .error e => .error (.encoding e)

end Taproot.Transaction
