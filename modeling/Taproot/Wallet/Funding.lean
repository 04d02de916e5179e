import Taproot.Descriptor.Parser
import Taproot.Wallet.Session

/-! # Funding the wallet

A descriptor is set to receive a payment; the payment then becomes a recorded output, once for
every outpoint.
-/
namespace Taproot

/-- The wallet reads descriptors against its own store. -/
def Wallet.readDescriptor (w : Wallet) (text : String) : Except WalletError Descriptor :=
  (Descriptor.read w.store text).mapError .descriptor

namespace Operation

def readDescriptor (text : String) : Operation Descriptor := do
  ofExcept id ((← wallet).readDescriptor text)

def setInbound (text : String) : Operation Descriptor := do
  let d ← readDescriptor text
  edit fun w => { w with inbound := some d.text }
  inform (.inboundSet d.text)
  return d

def writeOutpoints (us : List Utxo) : Operation Unit := write (us.map fun u => (u.vout : Int))

/-- The first of some outputs at the outpoint of another one; outpoints are compared as texts. -/
def findSame (u : Utxo) : List Utxo → Operation (Option Utxo)
  | [] => return none
  | v :: rest => do
    writeOutpoints [v, u]
    if v.outpoint == u.outpoint then return some v else findSame u rest

/-- Records an output, or answers the one already recorded at its outpoint. -/
def addUtxo (u : Utxo) : Operation Utxo := do
  let known := (← wallet).utxos
  match ← findSame u known with
  | some v => return v
  | none =>
    edit fun w => { w with utxos := known ++ [u] }
    writeOutpoints [u]
    announce (.newUtxo known.length u.outpoint u.value)
    return u

/-- Records a payment to the inbound descriptor, which is then free again. Its fields are checked
together. -/
def fundInbound (txid vout value : Json) : Operation Utxo := do
  match (← wallet).inbound with
  | none => throw .noInbound
  | some text =>
    let fields : Json :=
      .obj [("txid", txid), ("vout", vout), ("value", value), ("descriptor", .str text)]
    let u ← ofExcept .invalid (Utxo.ofJson fields)
    edit fun w => { w with inbound := none }
    addUtxo u

def getUtxo (index : Int) : Operation Utxo := do
  let utxos := (← wallet).utxos
  if index < 0 then refuse (.unknownUtxo index)
  match utxos[index.toNat]? with
  | some u => return u
  | none => refuse (.unknownUtxo index)

end Operation
end Taproot
