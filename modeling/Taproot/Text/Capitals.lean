/-! # Capitals

The capitals of a text as far as they are ASCII letters. Some letters outside ASCII have ASCII
capitals; a letter without them is kept.
-/
namespace Taproot.Text

def capitals (c : Char) : List Char :=
  match c.toNat with
  | 0x131 => ['I']
  | 0x17f => ['S']
  | 0xdf => ['S', 'S']
  | 0xfb00 => ['F', 'F']
  | 0xfb01 => ['F', 'I']
  | 0xfb02 => ['F', 'L']
  | 0xfb03 => ['F', 'F', 'I']
  | 0xfb04 => ['F', 'F', 'L']
  | 0xfb05 | 0xfb06 => ['S', 'T']
  | _ => [c.toUpper]

def upper (s : String) : String := String.ofList (s.toList.flatMap capitals)

end Taproot.Text
