import Taproot.Draft.Value
import Taproot.Number.Binary64
import Taproot.Text.Lowercase
import Taproot.Transaction.Digest
import Taproot.Wallet.Funding

/-! # From the draft to a transaction

The draft is checked and its descriptors are committed to before anything is signed. A transaction
that was broadcast is booked: its inputs leave the recorded outputs and its outputs join them.
-/
namespace Taproot

/-- The indices of the draft that are filled from zero on, and the outputs that it spends. -/
structure Spending where
  timelocks : Timelocks
  utxos : List Utxo
  inputs : List Descriptor
  outputs : List Descriptor

/-- A transaction before it is signed. -/
structure Unsigned where
  transaction : Transaction
  spending : Spending
  /-- The commitments of the spent descriptors. -/
  commitments : List Commitment
  spent : List TxOut

namespace Draft

/-- The spent outputs by ascending index; every index from zero on must have one. -/
def boundUtxos (d : Draft) : Except WalletError (List Utxo) :=
  d.inputs.sorted.mapM fun (index, i) =>
    match i.utxo with
    | some u => .ok u
    | none => .error (.missingInput index)

/-- There is an input, there is an output, and no index is left out. -/
def checkIndices (d : Draft) : Except WalletError Unit :=
  if d.inputs.isEmpty then .error (.missingInput 0)
  else
    match d.inputs.firstGap with
    | some gap => .error (.missingInput gap)
    | none =>
      if d.outputs.isEmpty then .error (.missingOutput 0)
      else
        match d.outputs.firstGap with
        | some gap => .error (.missingOutput gap)
        | none => .ok ()

end Draft

namespace Wallet

def spending (w : Wallet) : Except WalletError Spending := do
  let d := w.draft
  match d.timelocks? with
  | none => throw .locktimeUnenforced
  | some timelocks =>
    d.checkIndices
    let utxos ← d.boundUtxos
    let inputs ← utxos.mapM fun u => w.readDescriptor u.descriptor
    let outputs ← d.outputs.sorted.values.mapM fun o => w.readDescriptor o.descriptor
    return ⟨timelocks, utxos, inputs, outputs⟩

end Wallet

namespace Spending

/-- The inputs as they stand in the transaction. -/
def txIns (s : Spending) : List TxIn :=
  s.utxos.mapIdx fun index u =>
    { txid := u.txid.bytes, vout := u.vout, sequence := s.timelocks.sequence index }

/-- The total of the spent outputs. -/
def available (s : Spending) : Nat := s.utxos.foldr (fun u total => u.value + total) 0

/-- Outputs of the given values to the given commitments. -/
def txOuts (values : List Nat) (commitments : List Commitment) : List TxOut :=
  List.zipWith (fun v c => TxOut.mk (Int.ofNat v) c.outputScript) values commitments

def toUnsigned (s : Spending) (values : List Nat) (inputs outputs : List Commitment) : Unsigned where
  transaction :=
    { inputs := s.txIns, outputs := txOuts values outputs, locktime := s.timelocks.nLockTime }
  spending := s
  commitments := inputs
  spent := txOuts (s.utxos.map Utxo.value) inputs

end Spending

namespace WalletError

def ofValueFault : ValueFault → WalletError
  | .shortOfFunds available required => shortOfFunds available required
  | .severalRemainders => severalRemainders
  | .unwritable => unwritable

end WalletError

namespace Operation

/-- The commitment of a descriptor, of which notice is given. -/
def commit (d : Descriptor) : Operation Commitment := do
  let c ← ofExcept .key d.commit
  inform (.committed c.leaves.length c.output.key.hex)
  return c

def prepare : Operation Unsigned := do
  let w ← wallet
  let s ← ofExcept id w.spending
  let inputs ← s.inputs.mapM commit
  let outputs ← s.outputs.mapM commit
  let values ← ofExcept .ofValueFault (w.draft.outputValues s.available)
  return s.toUnsigned values inputs outputs

/-- The witness of an input, of whose path notice is given. -/
def signInput (u : Unsigned) (index : Nat) (c : Commitment) : Operation SpendWitness := do
  let digestFor := fun leaf => u.transaction.digest index u.spent 0 leaf
  let search := spend c (← wallet).store (u.spending.timelocks.forInput index) digestFor
  let witness ← ofExcept .spend search.result
  inform (match witness.leaf with
    | none => .keyPath index
    | some leaf => .scriptPath index leaf)
  return witness

def signInputs (u : Unsigned) : (index : Nat) → List Commitment → Operation (List SpendWitness)
  | _, [] => return []
  | index, c :: rest => do
    let witness ← signInput u index c
    return witness :: (← signInputs u (index + 1) rest)

end Operation

/-- A signed transaction. -/
structure Built where
  transaction : Transaction
  encoded : Bytes
  txid : Bytes
  weight : Nat
  fee : Nat
  /-- Satoshi for each virtual byte, with two decimals. -/
  feeRate : String
  witnesses : List SpendWitness

def totalValue (outs : List TxOut) : Int := outs.foldr (fun o total => o.value + total) 0

/-- The nearest binary64 number to the rate, with two decimals. -/
def feeRate? (fee virtualSize : Nat) : Option String :=
  (Binary64.nearest fee virtualSize).map fun x => showHundredths x.hundredths

def Transaction.withWitnesses (tx : Transaction) (witnesses : List SpendWitness) : Transaction :=
  { tx with inputs := tx.inputs.zipWith (fun i w => { i with witness := w.items }) witnesses }

namespace Operation

def build : Operation Built := do
  let u ← prepare
  let witnesses ← signInputs u 0 u.commitments
  let tx := u.transaction.withWitnesses witnesses
  let txid ← ofExcept .encoding tx.txid
  let weight ← ofExcept .encoding tx.weight
  let encoded ← ofExcept .encoding tx.encode
  let fee := (totalValue u.spent - totalValue tx.outputs).toNat
  let size := Transaction.virtualSize weight
  match feeRate? fee size with
  | none => throw .feeRateOverflow
  | some feeRate =>
    inform (.built txid.hex size feeRate)
    return { transaction := tx, encoded, txid, weight, fee, feeRate, witnesses }

/-- Records the outputs of a transaction from an index on. -/
def recordOutputs (txid : Bytes) : (index : Nat) → List (Nat × Descriptor) → Operation (List Utxo)
  | _, [] => return []
  | index, (value, d) :: rest => do
    let u ← addUtxo ⟨.ofBytes txid, index, value, d.text⟩
    return u :: (← recordOutputs txid (index + 1) rest)

/-- The first output of a transaction becomes the first input of the next draft. -/
def chainFirst : List Utxo → Operation Unit
  | [] => return
  | u :: _ => do
    edit fun w => { w with draft := { w.draft with inputs := [(0, { utxo := some u })] } }
    inform (.chained u.outpoint)

/-- Books the draft as broadcast; an id that is given must be the one of the draft. -/
def finalize (given : Option String) (chain : Bool) : Operation (List Utxo) := do
  let u ← prepare
  let txid ← ofExcept .encoding u.transaction.txid
  match given with
  | some text => if Text.lower (Text.strip text) ≠ txid.hex then throw (.otherTxid txid.hex text)
  | none => pure ()
  writeOutpoints u.spending.utxos
  writeOutpoints (← wallet).utxos
  -- the places of the new records; that many outputs would not be encoded either
  write [(u.transaction.outputs.length : Int)]
  let spent := u.spending.utxos.map Utxo.outpoint
  edit fun w => { w with utxos := w.utxos.filter fun v => !spent.contains v.outpoint }
  let values := u.transaction.outputs.map fun o => o.value.toNat
  let created ← recordOutputs txid 0 (values.zip u.spending.outputs)
  edit fun w => { w with draft := {} }
  if chain then chainFirst created
  inform (.finalized txid.hex)
  return created

end Operation
end Taproot
