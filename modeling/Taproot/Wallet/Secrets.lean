import Taproot.Hash.Sha256
import Taproot.Key.Tweak
import Taproot.Wallet.Session

/-! # Keys and images of the wallet

Keys and images are imported or generated. Importing what is known adds the secret half where it
was missing, and changes nothing else. The secrets of keys are kept for the even `y`.
-/
namespace Taproot

/-- How entries of a kind are looked up and changed, and what becomes of their flag. -/
structure EntryKind (α : Type) where
  find? : Store → Bytes → Option α
  update : Store → Bytes → (α → α) → Store
  reference : Bytes → Reference
  isActive : α → Bool
  withActive : α → Bool → α
  /-- Tells that the flag was set. -/
  notice : α → Bool → Notice

namespace EntryKind

def key : EntryKind KeyPair where
  find? := Store.findKey?
  update := Store.updateKey
  reference := .key
  isActive := KeyPair.active
  withActive p active := { p with active }
  notice p := .keyActive p.publicKey.text

def image : EntryKind ImagePair where
  find? := Store.findImage?
  update := Store.updateImage
  reference := .image
  isActive := ImagePair.active
  withActive p active := { p with active }
  notice p := .imageActive p.image.text

end EntryKind

namespace Operation

open Json

def store : Operation Store := return (← wallet).store

def editStore (f : Store → Store) : Operation Unit := edit fun w => { w with store := f w.store }

def checkHalf (field : String) : Option Bytes → Check (Option HexText)
  | some b => some <$> checkBytes field b
  | none => pure none

/-- Adds a key whose halves have 32 bytes each. -/
def addKey (secret : Option Bytes) (pubkey : Bytes) : Operation KeyPair := do
  let fields := KeyPair.mk <$> checkHalf "secret" secret <*> checkBytes "public" pubkey <*> pure true
  let pair ← ofExcept .invalid (fields.report "KeyPair")
  editStore (·.addKey pair)
  return pair

/-- Adds an image; it and its preimage have 32 bytes each. -/
def addImage (preimage : Option Bytes) (digest : Bytes) : Operation ImagePair := do
  let fields :=
    ImagePair.mk <$> checkHalf "preimage" preimage <*> checkBytes "image" digest <*> pure true
  let pair ← ofExcept .invalid (fields.report "ImagePair")
  editStore (·.addImage pair)
  return pair

def lookUp {α : Type} (kind : EntryKind α) (name : Bytes) : Operation α := do
  match kind.find? (← store) name with
  | some entry => return entry
  | none => throw (.descriptor (.unknown (kind.reference name)))

def setActive {α : Type} (kind : EntryKind α) (name : Bytes) (active : Bool) : Operation α := do
  let entry := kind.withActive (← lookUp kind name) active
  editStore fun st => kind.update st name fun _ => entry
  inform (kind.notice entry active)
  return entry

def toggle {α : Type} (kind : EntryKind α) (name : Bytes) : Operation α := do
  setActive kind name !kind.isActive (← lookUp kind name)

def getKey (pubkey : Bytes) : Operation KeyPair := lookUp .key pubkey

def getImage (digest : Bytes) : Operation ImagePair := lookUp .image digest

def setKeyActive (pubkey : Bytes) (active : Bool) : Operation KeyPair := setActive .key pubkey active

def setImageActive (digest : Bytes) (active : Bool) : Operation ImagePair :=
  setActive .image digest active

def toggleKey (pubkey : Bytes) : Operation KeyPair := toggle .key pubkey

def toggleImage (digest : Bytes) : Operation ImagePair := toggle .image digest

def importSecret (given : Bytes) : Operation KeyPair := do
  let secret ← ofExcept .key (Secret.normalize given)
  let pubkey ← ofExcept .key (Secret.publicKey secret)
  match (← store).findKey? pubkey with
  | none =>
    let pair ← addKey secret pubkey
    inform (.importedKey pubkey.hex)
    return pair
  | some pair =>
    if pair.secret.isSome then return pair
    let whole := { pair with secret := some (HexText.ofBytes secret) }
    editStore (·.updateKey pubkey fun _ => whole)
    inform (.addedSecret pubkey.hex)
    return whole

def importPublic (pubkey : Bytes) : Operation KeyPair := do
  ofExcept .key (PublicKey.validate pubkey)
  match (← store).findKey? pubkey with
  | some pair => return pair
  | none =>
    let pair ← addKey none pubkey
    inform (.importedPublicKey pubkey.hex)
    return pair

def importPreimage (preimage : Bytes) : Operation ImagePair := do
  let digest := sha256 preimage
  match (← store).findImage? digest with
  | none =>
    let pair ← addImage preimage digest
    inform (.importedPreimage digest.hex)
    return pair
  | some pair =>
    if pair.preimage.isSome then return pair
    let whole := { pair with preimage := some (HexText.ofBytes preimage) }
    editStore (·.updateImage digest fun _ => whole)
    inform (.addedPreimage digest.hex)
    return whole

def importImage (digest : Bytes) : Operation ImagePair := do
  match (← store).findImage? digest with
  | some pair => return pair
  | none =>
    let pair ← addImage none digest
    inform (.importedImage digest.hex)
    return pair

/-- Draws until a draw stands for less than the group order. -/
def drawSecretWithin : (draws : Nat) → Operation Bytes
  | 0 => throw .entropyExhausted
  | n + 1 => do
    let b ← draw
    if b.toNatBE < Curve.n then return b else drawSecretWithin n

def drawSecret : Operation Bytes := do drawSecretWithin ((← get).entropy.length + 1)

def generateKey : Operation KeyPair := do
  let secret ← ofExcept .key (Secret.normalize (← drawSecret))
  let pubkey ← ofExcept .key (Secret.publicKey secret)
  addKey secret pubkey

def generateImage : Operation ImagePair := do
  let preimage ← draw
  addImage preimage (sha256 preimage)

/-- So many answers of an operation. -/
def repeated {α : Type} (a : Operation α) : Nat → Operation (List α)
  | 0 => return []
  | n + 1 => do return (← a) :: (← repeated a n)

def generateKeys (count : Int) : Operation (List KeyPair) := do
  let pairs ← repeated generateKey count.toNat
  announce (.generatedKeys count)
  return pairs

def generateImages (count : Int) : Operation (List ImagePair) := do
  let pairs ← repeated generateImage count.toNat
  announce (.generatedImages count)
  return pairs

end Operation
end Taproot
