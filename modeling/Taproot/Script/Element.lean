import Taproot.Script.Opcode
import Taproot.Script.CompactSize
import Taproot.Script.Number

/-! # Script elements

A script is a list of opcodes and data pushes. Pushes are written with the shortest length form;
the empty push is written as the opcode that pushes it.
-/
namespace Taproot

inductive Element
  | op (code : Opcode)
  | push (data : Bytes)
  deriving DecidableEq, Repr

abbrev Script := List Element

namespace Element

/-- An opcode given as a number. -/
def ofCode (code : Int) : Except EncodingError Element := op <$> byte code

/-- The shortest element that pushes a number. -/
def ofInt (v : Int) : Element :=
  if v = 0 then .op .zero
  else if v = -1 then .op .negativeOne
  else if 1 ≤ v ∧ v ≤ 16 then .op (.small v.toNat)
  else .push (ScriptNumber.encode v)

def asm : Element → String
  | op c => c.name
  | push d => s!"<{d.hex}>"

end Element

/-- A push of fewer than 2^32 bytes with its length before it. -/
def pushBytes (data : Bytes) : Bytes :=
  let n := data.length
  if n < 0x4c then UInt8.ofNat n :: data
  else if n ≤ 0xff then Opcode.pushData1 :: UInt8.ofNat n :: data
  else if n ≤ 0xffff then Opcode.pushData2 :: (Bytes.ofNatLE 2 n ++ data)
  else Opcode.pushData4 :: (Bytes.ofNatLE 4 n ++ data)

def Element.bytes : Element → Bytes
  | op c => [c]
  | push d => if d.isEmpty then [Opcode.zero] else pushBytes d

namespace Script

def bytes (s : Script) : Bytes := s.flatMap Element.bytes

def asm (s : Script) : String := " ".intercalate (s.map Element.asm)

end Script

/-- The output script of an output key. -/
def outputScript (key : Bytes) : Bytes := Opcode.one :: 0x20 :: key

end Taproot
