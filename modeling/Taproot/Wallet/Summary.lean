import Taproot.Wallet.Assembly

/-! # The summary of a wallet

A text that lists keys, images, the inbound address, recorded outputs and the draft. Secrets and
preimages are shown only on request.
-/
namespace Taproot

/-- A line on an entry of the store; `kind` says what is shown where the secret half is missing. -/
def summaryEntry (kind shown : String) (hidden : Option HexText) (secrets : Bool) : String :=
  match hidden with
  | none => s!"  {shown} ({kind})"
  | some h => if secrets then s!"  {shown}: {h.text}" else s!"  {shown}"

namespace Store

def keyLines (s : Store) (secrets active : Bool) : List String :=
  s!"Keys [{showActive active}]:" :: (s.keys.filter (·.active == active)).map fun p =>
    summaryEntry "public only" p.publicKey.text p.secret secrets

def imageLines (s : Store) (secrets active : Bool) : List String :=
  s!"Images [{showActive active}]:" :: (s.images.filter (·.active == active)).map fun p =>
    summaryEntry "no preimage" p.image.text p.preimage secrets

def summaryLines (s : Store) (secrets : Bool) : List String :=
  s.keyLines secrets true ++ s.keyLines secrets false ++ s.imageLines secrets true ++
    s.imageLines secrets false

end Store

def Utxo.summary (u : Utxo) : String := s!"{u.outpoint} {u.value} sat {u.descriptor}"

/-- Recorded outputs behind their places. -/
def utxoLines (utxos : List Utxo) : List String := utxos.mapIdx fun i u => s!"{i}: {u.summary}"

def DraftInput.summary (i : DraftInput) : String :=
  let spent := match i.utxo with
    | some u => u.outpoint
    | none => "unbound"
  let relative := match i.sequence with
    | some h => s!"relative timelock {h} block(s)"
    | none => "no relative timelock"
  s!"{spent} ({relative})"

def DraftOutput.summary (o : DraftOutput) : String :=
  let value := match o.value with
    | some v => s!"{v} sat"
    | none => "remainder"
  s!"{value} {o.descriptor}"

def Draft.summaryLines (d : Draft) : List String :=
  let enabled := if d.hasRelativeTimelock then "enabled" else "disabled"
  let locktime := match d.locktime with
    | some h => toString h
    | none => "none"
  "Inputs:" :: (d.inputs.sorted.map fun (index, i) => s!"  {index}: {i.summary}") ++
    "Outputs:" :: (d.outputs.sorted.map fun (index, o) => s!"  {index}: {o.summary}") ++
    [s!"Locktime: {locktime} [{enabled}]", s!"Fee: {d.fee} sat"]

/-- The integers of an output that are shown. -/
def Utxo.numbers (u : Utxo) : List Int := [(u.vout : Int), (u.value : Int)]

def Draft.numbers (d : Draft) : List Int :=
  (d.inputs.flatMap fun (index, i) =>
    index :: i.utxo.toList.map (fun u => (u.vout : Int)) ++ i.sequence.toList.map Int.ofNat) ++
  (d.outputs.flatMap fun (index, o) => index :: o.value.toList.map Int.ofNat) ++
  d.locktime.toList.map Int.ofNat ++ [(d.fee : Int)]

namespace Operation

/-- The lines on the recorded outputs. -/
def listUtxos : Operation (List String) := do
  let utxos := (← wallet).utxos
  write (utxos.flatMap Utxo.numbers)
  return utxoLines utxos

/-- The address of a descriptor. -/
def addressOf (network : Network) (d : Descriptor) : Operation String := do
  return Address.ofKey network (← commit d).output.key

def inboundLine (network : Network) : Operation String := do
  match (← wallet).inbound with
  | none => return "Inbound: none"
  | some text =>
    let address ← addressOf network (← readDescriptor text)
    return s!"Inbound: {address} {text}"

def summary (network : Network) (secrets : Bool) : Operation String := do
  let inbound ← inboundLine network
  let w ← wallet
  let utxos ← listUtxos
  write w.draft.numbers
  return "\n".intercalate (w.store.summaryLines secrets ++ inbound :: "UTXOs:" ::
    utxos.map ("  " ++ ·) ++ w.draft.summaryLines)

end Operation
end Taproot
