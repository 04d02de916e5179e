import Taproot.Bytes

/-! # Script numbers

An integer is its magnitude, least significant byte first, with the sign in the top bit of the last
byte; a byte is added where that bit is taken. Zero is the empty string.
-/
namespace Taproot.ScriptNumber

/-- The bytes of a magnitude without leading zeros, least significant first. -/
def magnitude (n : Nat) : Bytes :=
  if n = 0 then [] else UInt8.ofNat n :: magnitude (n / 256)
termination_by n

/-- Puts the sign into the last byte, or behind it. -/
def addSign (negative : Bool) : Bytes → Bytes
  | [] => []
  | [x] =>
    if x &&& 0x80 ≠ 0 then [x, if negative then 0x80 else 0x00]
    else [if negative then x ||| 0x80 else x]
  | x :: xs => x :: addSign negative xs

def encode (v : Int) : Bytes := addSign (v < 0) (magnitude v.natAbs)

theorem encode_zero : encode 0 = [] := by
  simp [encode, magnitude, addSign]

end Taproot.ScriptNumber
