import Taproot.Key.Curve
import Taproot.Text.HexText
import Taproot.Text.Quoted

/-! # Refused keys

Why a secret, a public key, a tweak or a hex text of a key is refused.
-/
namespace Taproot

inductive KeyError
  /-- A scalar is zero or not below the group order. -/
  | scalarOutOfRange
  /-- The same, where the scalar was given as a secret key. -/
  | badSecret
  | keyLength (length : Nat)
  | notOnCurve (key : Bytes)
  | tweakFailed (key : Bytes)
  | tweakTooLarge
  | tweakedSecretZero
  | digestLength (length : Nat)
  | badHex (kind value : String) (fault : HexFault)
  deriving DecidableEq, Repr

namespace KeyError

def scalarMessage : String :=
  s!"Secret scalar must be greater than 0 and less than {Curve.n}."

def pointMessage : String := "The public key could not be parsed or is invalid."

def message : KeyError → String
  | scalarOutOfRange => scalarMessage
  | badSecret => "Invalid secret key: " ++ scalarMessage
  | keyLength n => s!"Invalid x-only public key length: {n}"
  | notOnCurve key => s!"Invalid x-only public key {key.hex}: " ++ pointMessage
  | tweakFailed key => s!"Failed to tweak {key.hex}: " ++ pointMessage
  | tweakTooLarge => "Tweak exceeds curve order"
  | tweakedSecretZero => "Tweaked secret key is zero"
  | digestLength n => s!"Schnorr signing requires a 32-byte digest, got {n} bytes"
  | badHex kind value fault => s!"Invalid {kind} {Text.quoted value}: {fault.message}"

end KeyError

/-- The 32 bytes of a hex text typed as an argument; `kind` says what it stands for. -/
def readKeyText (kind value : String) : Except KeyError Bytes :=
  match HexText.ofString (Text.strip value) with
  | .ok h => .ok h.bytes
  | .error fault => .error (.badHex kind value fault)

end Taproot
