import Taproot.Text.HexText

/-! # The secret store

Key pairs and hash images that the wallet knows, in the order in which they came. An entry without
its secret half is known but cannot be used; an entry can also be put out of use and back.
-/
namespace Taproot

structure KeyPair where
  secret : Option HexText := none
  publicKey : HexText
  active : Bool := true
  deriving DecidableEq, Repr

structure ImagePair where
  preimage : Option HexText := none
  image : HexText
  active : Bool := true
  deriving DecidableEq, Repr

/-- A key or an image that is looked for in the store. -/
inductive Reference
  | key (pubkey : Bytes)
  | image (digest : Bytes)
  deriving DecidableEq, Repr

def Reference.unknownMessage : Reference → String
  | key k => "Unknown key: " ++ k.hex
  | image h => "Unknown image: " ++ h.hex

structure Store where
  keys : List KeyPair := []
  images : List ImagePair := []
  deriving DecidableEq, Repr

namespace KeyPair

/-- The secret, where it may be used. -/
def usableSecret (p : KeyPair) : Option Bytes :=
  if p.active then p.secret.map HexText.bytes else none

def canSign (p : KeyPair) : Bool := p.active && p.secret.isSome

end KeyPair

namespace ImagePair

/-- The preimage, where it may be used. -/
def usablePreimage (p : ImagePair) : Option Bytes :=
  if p.active then p.preimage.map HexText.bytes else none

def canReveal (p : ImagePair) : Bool := p.active && p.preimage.isSome

end ImagePair

namespace Store

def isKey (pubkey : Bytes) (p : KeyPair) : Bool := p.publicKey.text == pubkey.hex

def isImage (digest : Bytes) (p : ImagePair) : Bool := p.image.text == digest.hex

def findKey? (s : Store) (pubkey : Bytes) : Option KeyPair := s.keys.find? (isKey pubkey)

def findImage? (s : Store) (digest : Bytes) : Option ImagePair := s.images.find? (isImage digest)

def activeSecret? (s : Store) (pubkey : Bytes) : Option Bytes :=
  (s.findKey? pubkey).bind KeyPair.usableSecret

def activePreimage? (s : Store) (digest : Bytes) : Option Bytes :=
  (s.findImage? digest).bind ImagePair.usablePreimage

/-- Changes the first entry of a class. -/
def updateFirst {α : Type} (p : α → Bool) (f : α → α) : List α → List α
  | [] => []
  | x :: xs => if p x then f x :: xs else x :: updateFirst p f xs

def updateKey (s : Store) (pubkey : Bytes) (f : KeyPair → KeyPair) : Store :=
  { s with keys := updateFirst (isKey pubkey) f s.keys }

def updateImage (s : Store) (digest : Bytes) (f : ImagePair → ImagePair) : Store :=
  { s with images := updateFirst (isImage digest) f s.images }

def addKey (s : Store) (p : KeyPair) : Store := { s with keys := s.keys ++ [p] }

def addImage (s : Store) (p : ImagePair) : Store := { s with images := s.images ++ [p] }

end Store
end Taproot
