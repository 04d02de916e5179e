import Taproot.Key.Tweak

/-! # Schnorr signatures

Signatures of 64 bytes over x-only keys, made with 32 zero bytes of auxiliary randomness.
-/
namespace Taproot

def challenge (r key message : Bytes) : Nat :=
  (HashTag.challenge.hash (r ++ key ++ message)).toNatBE % Curve.n

/-- The scalar or its negative, whichever has a point with an even `y`. -/
def evenScalar (d : Nat) (point : Curve.Point) : Nat :=
  if point.hasEvenY then d else Curve.n - d

def Secret.nonce (d : Nat) (key message : Bytes) : Nat :=
  let mask := HashTag.aux.hash (List.replicate 32 0)
  let masked := List.zipWith (· ^^^ ·) (Bytes.ofNatBE 32 d) mask
  (HashTag.nonce.hash (masked ++ key ++ message)).toNatBE % Curve.n

def Secret.sign (secret message : Bytes) : Except KeyError Bytes := do
  if message.length ≠ 32 then throw (.digestLength message.length)
  let scalar ← Secret.scalar secret
  let point := Curve.multiply scalar Curve.generator
  let d := evenScalar scalar point
  let key := xBytes point
  let nonce := Secret.nonce d key message
  if nonce = 0 then throw .scalarOutOfRange
  let noncePoint := Curve.multiply nonce Curve.generator
  let k := evenScalar nonce noncePoint
  let r := xBytes noncePoint
  return r ++ Bytes.ofNatBE 32 ((k + challenge r key message * d) % Curve.n)

def PublicKey.verifies (key message signature : Bytes) : Bool :=
  match point? key with
  | none => false
  | some inner =>
    let r : Bytes := signature.take 32
    let s := Bytes.toNatBE (signature.drop 32)
    if signature.length ≠ 64 ∨ Curve.p ≤ r.toNatBE ∨ Curve.n ≤ s then false
    else
      let e := challenge r key message
      match (Curve.multiply s Curve.generator).add (Curve.multiply e inner).neg with
      | .infinity => false
      | .affine x y => y % 2 == 0 && x == r.toNatBE

end Taproot
