import Taproot.Bytes

/-! # Bech32 and bech32m

Text of five-bit groups behind a label, with a checksum of six characters over both. The two forms
differ in the constant that the checksum comes to.
-/
namespace Taproot

/-- The character for each five-bit group. -/
def fiveBitAlphabet : List Char := "qpzry9x8gf2tvdw0s3jn54khce6mua7l".toList

def fiveBitChar (v : Nat) : Char := fiveBitAlphabet.getD v 'q'

namespace Bech32

inductive Form
  | bech32
  | bech32m
  deriving DecidableEq, Repr

def Form.constant : Form → Nat
  | bech32 => 1
  | bech32m => 0x2bc830a3

def generators : List Nat := [0x3b6a57b2, 0x26508e6d, 0x1ea119fa, 0x3d4233dd, 0x2a1462b3]

def step (c v : Nat) : Nat :=
  ((List.range 5).zip generators).foldl
    (fun acc ig => if (c >>> 25).testBit ig.1 then acc ^^^ ig.2 else acc)
    (((c &&& 0x1ffffff) <<< 5) ^^^ v)

def polymod (values : List Nat) : Nat := values.foldl step 1

def expandLabel (label : List Char) : List Nat :=
  label.map (fun c => c.toNat >>> 5) ++ 0 :: label.map fun c => c.toNat &&& 31

def checksum (form : Form) (label : List Char) (data : List Nat) : List Nat :=
  let m := polymod (expandLabel label ++ data ++ List.replicate 6 0) ^^^ form.constant
  (List.range 6).map fun i => (m >>> (5 * (5 - i))) &&& 31

def encode (form : Form) (label : List Char) (data : List Nat) : List Char :=
  label ++ '1' :: (data ++ checksum form label data).map fiveBitChar

def form? (label : List Char) (data : List Nat) : Option Form :=
  let m := polymod (expandLabel label ++ data)
  if m = Form.constant .bech32 then some .bech32
  else if m = Form.constant .bech32m then some .bech32m
  else none

def isVisible (c : Char) : Bool := 33 ≤ c.toNat && c.toNat ≤ 126

/-- Splits at the last `1`. -/
def splitLabel? (cs : List Char) : Option (List Char × List Char) :=
  let tail := cs.reverse.takeWhile (· ≠ '1')
  if tail.length < cs.length then
    some (cs.take (cs.length - tail.length - 1), tail.reverse)
  else none

/-- The form, the label and the data of a text in one letter case and of at most 90 characters. -/
def decode? (text : List Char) : Option (Form × List Char × List Nat) := do
  let small := text.map Char.toLower
  if !text.all isVisible ∨ (small ≠ text ∧ text.map Char.toUpper ≠ text) ∨ 90 < text.length then
    none
  let (label, tail) ← splitLabel? small
  if label.isEmpty ∨ tail.length < 6 then none
  let data ← tail.mapM (fiveBitAlphabet.idxOf? ·)
  let form ← form? label data
  return (form, label, data.take (data.length - 6))

/-- Most significant bit first. -/
def toBits (width v : Nat) : List Bool := (List.range width).map fun i => v.testBit (width - 1 - i)

def ofBits (bits : List Bool) : Nat := bits.foldl (fun v b => 2 * v + b.toNat) 0

/-- Whole groups of `k + 1` bits, and the bits left over. -/
def groups (k : Nat) (bits : List Bool) : List Nat × List Bool :=
  if bits.length ≤ k then ([], bits)
  else
    let (gs, rest) := groups k (bits.drop (k + 1))
    (ofBits (bits.take (k + 1)) :: gs, rest)
termination_by bits.length
decreasing_by simp; omega

/-- Five-bit groups of a byte string, the last one filled with zeros. -/
def ofBytes (b : Bytes) : List Nat :=
  let (gs, rest) := groups 4 (b.flatMap fun x => toBits 8 x.toNat)
  if rest.isEmpty then gs else gs ++ [ofBits (rest ++ List.replicate (5 - rest.length) false)]

/-- The byte string of five-bit groups, which may leave over at most four bits, all zero. -/
def toBytes? (data : List Nat) : Option Bytes :=
  let (gs, rest) := groups 7 (data.flatMap (toBits 5))
  if rest.length < 5 ∧ rest.all (!·) then some (gs.map UInt8.ofNat) else none

end Bech32
end Taproot
