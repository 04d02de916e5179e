import Taproot.Text.Unprintable

/-! # Quoted text

How a text is shown inside a message: in single quotes, or in double quotes when it holds a single
quote and no double one. The backslash, the quote in use and the characters that are not shown as
themselves are escaped.
-/
namespace Taproot.Text

def hexDigits (width n : Nat) : List Char :=
  let ds := Nat.toDigits 16 n
  List.replicate (width - ds.length) '0' ++ ds

/-- The shortest of the three numbered escapes. -/
def escapeCode (n : Nat) : List Char :=
  if n < 0x100 then '\\' :: 'x' :: hexDigits 2 n
  else if n < 0x10000 then '\\' :: 'u' :: hexDigits 4 n
  else '\\' :: 'U' :: hexDigits 8 n

def isUnprintable (c : Char) : Bool :=
  if c.toNat < 0x7f then c.toNat < 0x20 else unprintable.has c

def escapeChar (quote c : Char) : List Char :=
  if c = '\\' || c = quote then ['\\', c]
  else if c = '\n' then ['\\', 'n']
  else if c = '\r' then ['\\', 'r']
  else if c = '\t' then ['\\', 't']
  else if isUnprintable c then escapeCode c.toNat
  else [c]

def quoteFor (cs : List Char) : Char :=
  if '\'' ∈ cs ∧ '"' ∉ cs then '"' else '\''

def quotedChars (cs : List Char) : List Char :=
  let q := quoteFor cs
  q :: (cs.flatMap (escapeChar q) ++ [q])

def quoted (s : String) : String := String.ofList (quotedChars s.toList)

end Taproot.Text
