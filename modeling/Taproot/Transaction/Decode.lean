import Taproot.Transaction.Basic
import Taproot.Transaction.Error

/-! # Reading transactions

The bytes are read from the front. A field that runs past the end is cut short and the offset goes
on as if it were whole, so that only a length read behind the end, or the last offset, tells.
-/
namespace Taproot

/-- The bytes not yet read, and how many were read or passed. -/
structure Cursor where
  rest : Bytes
  offset : Nat

namespace Cursor

def start (b : Bytes) : Cursor := ⟨b, 0⟩

/-- The next bytes, or as many as there are. -/
def take (n : Nat) (c : Cursor) : Bytes × Cursor := (c.rest.take n, ⟨c.rest.drop n, c.offset + n⟩)

/-- A number of so many bytes, least significant first. -/
def number (width : Nat) (c : Cursor) : Nat × Cursor :=
  let (b, c) := c.take width
  (b.toNatLE, c)

/-- The least number that is no index. -/
def indexLimit : Nat := 0x8000000000000000

def endFault (c : Cursor) : ParseFault :=
  if indexLimit ≤ c.offset then .offsetTooLarge else .pastEnd

def size (c : Cursor) : Except ParseFault (Nat × Cursor) :=
  match c.rest with
  | [] => .error c.endFault
  | first :: rest =>
    let (tail, c) := Cursor.take (CompactSize.tailWidth first) ⟨rest, c.offset + 1⟩
    .ok (CompactSize.value first tail, c)

/-- Bytes behind their length. -/
def sized (c : Cursor) : Except ParseFault (Bytes × Cursor) := do
  let (n, c) ← c.size
  return c.take n

/-- So many items, one behind the other. -/
def repeated {α : Type} (item : Cursor → Except ParseFault (α × Cursor)) :
    Nat → Cursor → Except ParseFault (List α × Cursor)
  | 0, c => .ok ([], c)
  | n + 1, c => do
    let (x, c) ← item c
    let (xs, c) ← repeated item n c
    return (x :: xs, c)

/-- Items behind their number. -/
def counted {α : Type} (item : Cursor → Except ParseFault (α × Cursor)) (c : Cursor) :
    Except ParseFault (List α × Cursor) := do
  let (n, c) ← c.size
  repeated item n c

def txIn (c : Cursor) : Except ParseFault (TxIn × Cursor) := do
  let (txid, c) := c.take 32
  let (vout, c) := c.number 4
  let (scriptSig, c) ← c.sized
  let (sequence, c) := c.number 4
  return ({ txid := txid.reverse, vout, sequence, scriptSig }, c)

def txOut (c : Cursor) : Except ParseFault (TxOut × Cursor) := do
  let (value, c) := c.number 8
  let (script, c) ← c.sized
  return ({ value, script }, c)

/-- The witnesses of inputs, in their order. -/
def witnesses : List TxIn → Cursor → Except ParseFault (List TxIn × Cursor)
  | [], c => .ok ([], c)
  | i :: rest, c => do
    let (items, c) ← c.counted sized
    let (rest, c) ← witnesses rest c
    return ({ i with witness := items } :: rest, c)

/-- Whether the marker comes next; there must be a byte to tell, and a second one after a zero. -/
def marker (c : Cursor) : Except ParseFault (Bool × Cursor) :=
  match c.rest with
  | [] => .error c.endFault
  | 0 :: [] => .error c.endFault
  | 0 :: 1 :: rest => .ok (true, ⟨rest, c.offset + 2⟩)
  | _ => .ok (false, c)

end Cursor

namespace Transaction

def read (b : Bytes) : Except ParseFault Transaction := do
  let (version, c) := (Cursor.start b).number 4
  let (marked, c) ← c.marker
  let (inputs, c) ← c.counted Cursor.txIn
  let (outputs, c) ← c.counted Cursor.txOut
  let (inputs, c) ← if marked then c.witnesses inputs else .ok (inputs, c)
  let (locktime, c') := c.number 4
  if b.length ≠ c'.offset then throw .unexpectedLength
  return { version, inputs, outputs, locktime }

def decode (b : Bytes) : Except TransactionError Transaction :=
  match read b with
  | .ok tx => .ok tx
  | .error fault => .error (.unreadable fault)

end Transaction
end Taproot
