import Taproot.Script.CompactSize

/-! # Refused transactions

Why bytes are no transaction, and why a transaction cannot be signed.
-/
namespace Taproot

inductive ParseFault
  /-- A length is to be read behind the end. -/
  | pastEnd
  /-- The same, at an offset that is no index. -/
  | offsetTooLarge
  | unexpectedLength
  deriving DecidableEq, Repr

def ParseFault.message : ParseFault → String
  | pastEnd => "index out of range"
  | offsetTooLarge => "cannot fit 'int' into an index-sized integer"
  | unexpectedLength => "unexpected length"

inductive TransactionError
  | unreadable (fault : ParseFault)
  | sighashType (type : Int)
  | inputIndex
  | missingSpentOutput
  | encoding (e : EncodingError)
  deriving DecidableEq, Repr

/-- Hex digits with their mark, four characters wide. -/
def showHex (n : Int) : String :=
  let digits := Nat.toDigits 16 n.natAbs
  if n < 0 then "-0x" ++ String.ofList digits
  else "0x" ++ String.ofList (List.replicate (2 - digits.length) '0' ++ digits)

def TransactionError.message : TransactionError → String
  | unreadable fault => "Failed to parse transaction: " ++ fault.message
  | sighashType type => "Unsupported sighash type: " ++ showHex type
  | inputIndex => "Input index out of range"
  | missingSpentOutput => "Every input needs its spent output"
  | encoding _ => "A number does not fit its field"

end Taproot
