import Taproot.Hash.Sha256
import Taproot.Script.CompactSize

/-! # Transactions

A transaction in its two encodings: the base one, which its id is the hash of, and the one with
witnesses, which is used where some input has a witness. Encoding refuses numbers that do not fit
their fields.
-/
namespace Taproot

/-- `txid` is in the order in which ids are shown, which is the reverse of the encoded one. -/
structure TxIn where
  txid : Bytes
  vout : Int
  sequence : Int
  scriptSig : Bytes := []
  witness : List Bytes := []
  deriving DecidableEq, Repr

structure TxOut where
  value : Int
  script : Bytes
  deriving DecidableEq, Repr

structure Transaction where
  version : Int := 2
  inputs : List TxIn
  outputs : List TxOut
  locktime : Int := 0
  deriving DecidableEq, Repr

/-- Joins the encodings of a list of items. -/
def encodeAll {α : Type} (encode : α → Except EncodingError Bytes) :
    List α → Except EncodingError Bytes
  | [] => .ok []
  | x :: xs => do
    let b ← encode x
    let rest ← encodeAll encode xs
    return b ++ rest

/-- Bytes behind their length. -/
def sized (b : Bytes) : Bytes := CompactSize.ofNat b.length ++ b

namespace TxIn

def encodeOutpoint (i : TxIn) : Except EncodingError Bytes :=
  (i.txid.reverse ++ ·) <$> unsignedLE 4 i.vout

def encodeSequence (i : TxIn) : Except EncodingError Bytes := unsignedLE 4 i.sequence

def encode (i : TxIn) : Except EncodingError Bytes := do
  let outpoint ← i.encodeOutpoint
  let sequence ← i.encodeSequence
  return outpoint ++ (sized i.scriptSig ++ sequence)

def encodeWitness (i : TxIn) : Bytes :=
  CompactSize.ofNat i.witness.length ++ i.witness.flatMap sized

end TxIn

namespace TxOut

def encodeValue (o : TxOut) : Except EncodingError Bytes := unsignedLE 8 o.value

def encode (o : TxOut) : Except EncodingError Bytes := (· ++ sized o.script) <$> o.encodeValue

end TxOut

namespace Transaction

def hasWitness (tx : Transaction) : Bool := tx.inputs.any fun i => !i.witness.isEmpty

/-- Stands before the inputs where witnesses follow. -/
def witnessMarker : Bytes := [0x00, 0x01]

/-- The encoding with a marker before the inputs and witnesses behind the outputs. -/
def encodeWith (marker witnesses : Bytes) (tx : Transaction) : Except EncodingError Bytes := do
  let version ← unsignedLE 4 tx.version
  let inputs ← encodeAll TxIn.encode tx.inputs
  let outputs ← encodeAll TxOut.encode tx.outputs
  let locktime ← unsignedLE 4 tx.locktime
  return version ++ (marker ++ (CompactSize.ofNat tx.inputs.length ++ (inputs ++
    (CompactSize.ofNat tx.outputs.length ++ (outputs ++ (witnesses ++ locktime))))))

def encodeBase (tx : Transaction) : Except EncodingError Bytes := tx.encodeWith [] []

def encode (tx : Transaction) : Except EncodingError Bytes :=
  if tx.hasWitness then tx.encodeWith witnessMarker (tx.inputs.flatMap TxIn.encodeWitness)
  else tx.encodeBase

def txid (tx : Transaction) : Except EncodingError Bytes :=
  (fun b => (hash256 b).reverse) <$> tx.encodeBase

/-- A byte of the base encoding weighs four, and a byte beyond it one. -/
def weight (tx : Transaction) : Except EncodingError Nat := do
  return 3 * (← tx.encodeBase).length + (← tx.encode).length

/-- A quarter of a weight, rounded up. -/
def virtualSize (weight : Nat) : Nat := (weight + 3) / 4

end Transaction
end Taproot
