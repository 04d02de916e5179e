import Taproot.CommandLine.Command
import Taproot.Wallet.Editing
import Taproot.Wallet.Secrets
import Taproot.Wallet.Summary

/-! # Executing commands

What each command does to the wallet, and the lines that it prints.
-/
namespace Taproot.CommandLine.Command

open Operation

/-- The bytes of a key or an image that was typed. -/
def typed (kind value : String) : Operation Bytes := ofExcept .key (readKeyText kind value)

def leafLines (c : Commitment) (index : Nat) (l : LeafPath) : List String :=
  [s!"Leaf #{index}:     {l.leaf.fragment.text}",
    s!"  script:       {l.leaf.fragment.script.asm}",
    s!"  leaf hash:    {l.hash.hex}",
    s!"  control block: {(c.controlBlock l).hex}"]

def compileLines (network : Network) (text : String) : Operation (List String) := do
  let d ← readDescriptor text
  let c ← commit d
  let withChecksum ← ofExcept .descriptor d.withChecksum
  let root := match c.root with
    | some r => r.hex
    | none => "none"
  return s!"Descriptor:   {withChecksum}" :: s!"Internal key: {c.internalKey.hex}" ::
    (c.leaves.mapIdx (leafLines c)).flatten ++
    [s!"Merkle root:  {root}", s!"Output key:   {c.output.key.hex}",
      s!"scriptPubKey: {c.outputScript.hex}",
      s!"Address:      {Address.ofKey network c.output.key}"]

/-- The place of a recorded output. -/
def placeOf (u : Utxo) : Operation Nat := return (← wallet).utxos.findIdx (· == u)

def perform (network : Network) : Command → Operation (List String)
  | init _ => return []
  | print secrets => return [← summary network secrets]
  | generateKeys count => return (← Operation.generateKeys count).map fun p => p.publicKey.text
  | importKey value true => do
    return [(← importPublic (← typed "public key" value)).publicKey.text]
  | importKey value false => do
    return [(← importSecret (← typed "secret key" value)).publicKey.text]
  | setKeyActive key active => do
    let _ ← Operation.setKeyActive (← typed "public key" key) active
    return []
  | toggleKey key => do
    let p ← Operation.toggleKey (← typed "public key" key)
    return [s!"{p.publicKey.text}: {showActive p.active}"]
  | generateImages count => return (← Operation.generateImages count).map fun p => p.image.text
  | importImage value true => do return [(← Operation.importImage (← typed "image" value)).image.text]
  | importImage value false => do return [(← importPreimage (← typed "preimage" value)).image.text]
  | setImageActive image active => do
    let _ ← Operation.setImageActive (← typed "image" image) active
    return []
  | toggleImage image => do
    let p ← Operation.toggleImage (← typed "image" image)
    return [s!"{p.image.text}: {showActive p.active}"]
  | compile descriptor => compileLines network descriptor
  | setInbound descriptor => return [← addressOf network (← Operation.setInbound descriptor)]
  | fundInbound txid vout value => do
    let u ← Operation.fundInbound (.str txid) (.int vout) (.int value)
    return [s!"UTXO #{← placeOf u}: {u.outpoint}"]
  | listUtxos => Operation.listUtxos
  | addInput index utxo => do
    let _ ← Operation.addInput index utxo
    return []
  | deleteInput index => do
    let _ ← Operation.deleteInput index
    return []
  | setSequence index height => do
    Operation.setSequence index height
    return []
  | disableSequence index => do
    Operation.disableSequence index
    return []
  | addOutput index descriptor value => do
    let _ ← Operation.addOutput index descriptor (.ofOption .int value)
    return []
  | deleteOutput index => do
    let _ ← Operation.deleteOutput index
    return []
  | setLocktime none => throw .noHeight
  | setLocktime (some height) => do
    Operation.setLocktime height
    return []
  | clearLocktime => do
    Operation.clearLocktime
    return []
  | setFee fee => do
    Operation.setFee fee
    return []
  | spend => do
    let b ← build
    return [s!"Fee rate: {b.feeRate} sat/vB", b.encoded.hex]
  | finalize txid chain => do
    let created ← Operation.finalize txid chain
    return created.map fun u => s!"New UTXO: {u.outpoint} {u.value} sat"

/-- Whether the wallet is written back. -/
def saves : Command → Bool
  | print _ | compile _ | listUtxos | spend => false
  | _ => true

end Taproot.CommandLine.Command
