import Taproot.Bytes

/-! # Opcodes

The opcodes that tapscript leaves use, their printed names, and the forms that verify their result.
-/
namespace Taproot

abbrev Opcode := UInt8

namespace Opcode

abbrev zero : Opcode := 0x00
abbrev pushData1 : Opcode := 0x4c
abbrev pushData2 : Opcode := 0x4d
abbrev pushData4 : Opcode := 0x4e
abbrev negativeOne : Opcode := 0x4f
abbrev one : Opcode := 0x51
abbrev ifOp : Opcode := 0x63
abbrev notIf : Opcode := 0x64
abbrev elseOp : Opcode := 0x67
abbrev endIf : Opcode := 0x68
abbrev verify : Opcode := 0x69
abbrev toAltStack : Opcode := 0x6b
abbrev fromAltStack : Opcode := 0x6c
abbrev ifDup : Opcode := 0x73
abbrev dup : Opcode := 0x76
abbrev swap : Opcode := 0x7c
abbrev size : Opcode := 0x82
abbrev equal : Opcode := 0x87
abbrev equalVerify : Opcode := 0x88
abbrev notEqualZero : Opcode := 0x92
abbrev add : Opcode := 0x93
abbrev boolAnd : Opcode := 0x9a
abbrev boolOr : Opcode := 0x9b
abbrev numEqual : Opcode := 0x9c
abbrev numEqualVerify : Opcode := 0x9d
abbrev sha256 : Opcode := 0xa8
abbrev checkSig : Opcode := 0xac
abbrev checkSigVerify : Opcode := 0xad
abbrev checkLockTimeVerify : Opcode := 0xb1
abbrev checkSequenceVerify : Opcode := 0xb2
abbrev checkSigAdd : Opcode := 0xba

/-- The opcode that pushes `n`, for `1 ≤ n ≤ 16`. -/
def small (n : Nat) : Opcode := UInt8.ofNat (0x50 + n)

/-- The opcode that does the same and then verifies the result. -/
def verifyForm? (op : Opcode) : Option Opcode :=
  if op = checkSig then some checkSigVerify
  else if op = equal then some equalVerify
  else if op = numEqual then some numEqualVerify
  else none

def names : List (Opcode × String) :=
  [(zero, "OP_0"), (negativeOne, "OP_1NEGATE"), (ifOp, "OP_IF"), (notIf, "OP_NOTIF"),
   (elseOp, "OP_ELSE"), (endIf, "OP_ENDIF"), (verify, "OP_VERIFY"), (toAltStack, "OP_TOALTSTACK"),
   (fromAltStack, "OP_FROMALTSTACK"), (ifDup, "OP_IFDUP"), (dup, "OP_DUP"), (swap, "OP_SWAP"),
   (size, "OP_SIZE"), (equal, "OP_EQUAL"), (equalVerify, "OP_EQUALVERIFY"),
   (notEqualZero, "OP_0NOTEQUAL"), (add, "OP_ADD"), (boolAnd, "OP_BOOLAND"), (boolOr, "OP_BOOLOR"),
   (numEqual, "OP_NUMEQUAL"), (numEqualVerify, "OP_NUMEQUALVERIFY"), (sha256, "OP_SHA256"),
   (checkSig, "OP_CHECKSIG"), (checkSigVerify, "OP_CHECKSIGVERIFY"),
   (checkLockTimeVerify, "OP_CHECKLOCKTIMEVERIFY"),
   (checkSequenceVerify, "OP_CHECKSEQUENCEVERIFY"), (checkSigAdd, "OP_CHECKSIGADD")]

def name (op : Opcode) : String :=
  if 0x51 ≤ op ∧ op ≤ 0x60 then s!"OP_{op.toNat - 0x50}"
  else match names.lookup op with
    | some n => n
    | none => s!"OP_UNKNOWN<0x{Bytes.hex [op]}>"

end Opcode
end Taproot
