import Taproot.Bytes

/-! # Fixed-width fields and compact sizes

A field of fixed width refuses what does not fit. A compact size takes one, three, five or nine
bytes; it is always written in its shortest form, and any form is read.
-/
namespace Taproot

inductive EncodingError
  | notAByte
  | fieldOverflow
  | pastEnd
  deriving DecidableEq, Repr

/-- An unsigned field of `width` bytes, least significant first. -/
def unsignedLE (width : Nat) (v : Int) : Except EncodingError Bytes :=
  if 0 ≤ v ∧ v < Bytes.bound width then .ok (Bytes.ofNatLE width v.toNat) else .error .fieldOverflow

/-- A number as one byte. -/
def byte (v : Int) : Except EncodingError UInt8 :=
  if 0 ≤ v ∧ v < 256 then .ok (UInt8.ofNat v.toNat) else .error .notAByte

/-- The part of a byte string between two bounds; a negative bound counts from the end, and a bound
outside is moved to the nearer end. -/
def Bytes.slice (b : Bytes) (low high : Int) : Bytes :=
  let place (i : Int) : Nat := if i < 0 then (i + b.length).toNat else i.toNat
  (b.take (place high)).drop (place low)

/-- The byte at an index; a negative index counts from the end. -/
def Bytes.at? (b : Bytes) (i : Int) : Option UInt8 :=
  if 0 ≤ i then b[i.toNat]? else if 0 ≤ i + b.length then b[(i + b.length).toNat]? else none

namespace CompactSize

/-- The shortest form of a size below 2^64. -/
def ofNat (n : Nat) : Bytes :=
  if n < 0xfd then [UInt8.ofNat n]
  else if n ≤ 0xffff then 0xfd :: Bytes.ofNatLE 2 n
  else if n ≤ 0xffffffff then 0xfe :: Bytes.ofNatLE 4 n
  else 0xff :: Bytes.ofNatLE 8 n

/-- The shortest form, where there is one. -/
def encode (v : Int) : Except EncodingError Bytes :=
  if v < 0 then .error .notAByte
  else if v < Bytes.bound 8 then .ok (ofNat v.toNat)
  else .error .fieldOverflow

/-- The bytes that follow a first byte. -/
def tailWidth (first : UInt8) : Nat :=
  if first < 0xfd then 0 else if first = 0xfd then 2 else if first = 0xfe then 4 else 8

/-- The value of a first byte and what was read of its tail, which the end of the data may have
cut short. -/
def value (first : UInt8) (tail : Bytes) : Nat :=
  if first < 0xfd then first.toNat else tail.toNatLE

/-- Reads the size at an offset and answers it with the offset after it. -/
def readAt (data : Bytes) (offset : Int) : Except EncodingError (Nat × Int) :=
  match data.at? offset with
  | none => .error .pastEnd
  | some first =>
    let next := offset + 1 + tailWidth first
    .ok (value first (data.slice (offset + 1) next), next)

end CompactSize
end Taproot
