import Taproot.Wallet.Funding

/-! # Editing the draft

Inputs, outputs, timelocks and the fee of the draft. An outpoint is spent by one input only, and
one output at most takes the remainder.
-/
namespace Taproot.Operation

def draft : Operation Draft := return (← wallet).draft

def editDraft (f : Draft → Draft) : Operation Unit := edit fun w => { w with draft := f w.draft }

/-- Some entry at another index is of a class. -/
def anyOther {α : Type} (index : Int) (s : Slots α) (p : α → Bool) : Bool :=
  s.any fun e => e.1 != index && p e.2

/-- What the inputs at other indices spend. -/
def spentByOthers (index : Int) (inputs : Slots DraftInput) : List Utxo :=
  inputs.filterMap fun e => if e.1 = index then none else e.2.utxo

/-- Answers the input that was at the index before. -/
def addInput (index utxoIndex : Int) : Operation (Option DraftInput) := do
  let u ← getUtxo utxoIndex
  let inputs := (← draft).inputs
  if (← findSame u (spentByOthers index inputs)).isSome then throw (.doubleSpend u.outpoint)
  editDraft fun d => { d with inputs := inputs.set index { utxo := some u } }
  writeOutpoints [u]
  announce (.inputSpends index u.outpoint)
  return inputs.get? index

def getInput (index : Int) : Operation DraftInput := do
  match (← draft).inputs.get? index with
  | some i => return i
  | none => refuse (.missingInput index)

/-- Gives notice of a locktime that nothing enforces any more. -/
def warnOfIdleLocktime : Operation Unit := do
  let d ← draft
  if d.locktime.isSome ∧ d.hasRelativeTimelock = false then inform .locktimeIdle

def deleteInput (index : Int) : Operation DraftInput := do
  let i ← getInput index
  editDraft fun d => { d with inputs := d.inputs.remove index }
  warnOfIdleLocktime
  return i

def setSequence (index height : Int) : Operation Unit := do
  if ¬(0 ≤ height ∧ height ≤ maxRelativeHeight) then refuse (.relativeHeight height)
  let i ← getInput index
  let locked := { i with sequence := some height.toNat }
  editDraft fun d => { d with inputs := d.inputs.set index locked }
  announce (.relativeTimelock index height)

def disableSequence (index : Int) : Operation Unit := do
  let i ← getInput index
  editDraft fun d => { d with inputs := d.inputs.set index { i with sequence := none } }
  announce (.relativeTimelockDisabled index)
  warnOfIdleLocktime

/-- Answers the output that was at the index before. No value means the remainder. -/
def addOutput (index : Int) (text : String) (value : Json) : Operation (Option DraftOutput) := do
  let d ← readDescriptor text
  let outputs := (← draft).outputs
  if value.isNull && anyOther index outputs fun o => o.value.isNone then throw .severalRemainders
  let fields : Json := .obj [("descriptor", .str d.text), ("value", value)]
  let o ← ofExcept .invalid (DraftOutput.ofJson fields)
  editDraft fun d => { d with outputs := outputs.set index o }
  announce (.outputPays index o.value d.text)
  return outputs.get? index

def deleteOutput (index : Int) : Operation DraftOutput := do
  match (← draft).outputs.get? index with
  | none => refuse (.missingOutput index)
  | some o =>
    editDraft fun d => { d with outputs := d.outputs.remove index }
    return o

def setLocktime (height : Int) : Operation Unit := do
  if ¬(0 ≤ height ∧ height < heightLimit) then refuse (.notABlockHeight height)
  if (← draft).hasRelativeTimelock = false then throw .locktimeUnenforced
  editDraft fun d => { d with locktime := some height.toNat }
  announce (.locktimeSet height)

def clearLocktime : Operation Unit := editDraft fun d => { d with locktime := none }

def setFee (fee : Int) : Operation Unit := do
  if fee < 0 then throw .negativeFee
  editDraft fun d => { d with fee := fee.toNat }

end Taproot.Operation
