import Taproot.Key.Error

/-! # Secret keys

A secret is a byte string whose big-endian value is a scalar from 1 to `n - 1`. A secret and its
negative have the same x-only public key; the one whose point has an even `y` is the normal one.
-/
namespace Taproot

def xBytes : Curve.Point → Bytes
  | .infinity => Bytes.ofNatBE 32 0
  | .affine x _ => Bytes.ofNatBE 32 x

namespace Secret

def scalar (secret : Bytes) : Except KeyError Nat :=
  let v := secret.toNatBE
  if 0 < v ∧ v < Curve.n then .ok v else .error .scalarOutOfRange

def point (secret : Bytes) : Except KeyError Curve.Point :=
  (Curve.multiply · Curve.generator) <$> scalar secret

def hasEvenY (secret : Bytes) : Except KeyError Bool := Curve.Point.hasEvenY <$> point secret

/-- The x-only public key. -/
def publicKey (secret : Bytes) : Except KeyError Bytes := xBytes <$> point secret

/-- A secret that is already normal is answered as it came, whatever its length. -/
def normalize (secret : Bytes) : Except KeyError Bytes :=
  match hasEvenY secret with
  | .error _ => .error .badSecret
  | .ok true => .ok secret
  | .ok false => .ok (Bytes.ofNatBE 32 (Curve.n - secret.toNatBE))

end Secret
end Taproot
