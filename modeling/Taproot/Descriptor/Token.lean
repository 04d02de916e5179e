import Taproot.Text.Alphanumeric
import Taproot.Text.Blank

/-! # Descriptor tokens

A token is a run of ASCII letters, digits and underscores, or one other character that is not
blank. Each token knows the offset at which it stands.
-/
namespace Taproot

structure Token where
  chars : List Char
  position : Nat
  deriving DecidableEq, Repr

namespace Token

def text (t : Token) : String := String.ofList t.chars

/-- Stands behind the last token of a text of the given length. -/
def ending (length : Nat) : Token := ⟨"<end>".toList, length⟩

def isNameChar (c : Char) : Bool := c.isAlphanum || c == '_'

/-- The first character is an underscore or alphanumeric. -/
def isWord (t : Token) : Bool :=
  match t.chars with
  | [] => false
  | c :: _ => c == '_' || (if c.toNat < 0x80 then c.isAlphanum else Text.alphanumeric.has c)

/-- The tokens of a text that starts at an offset; `word` holds the run of name characters that
stands before that offset, last first. -/
def scanFrom (position : Nat) (word : List Char) : List Char → List Token
  | [] => close position word
  | c :: rest =>
    if isNameChar c then scanFrom (position + 1) (c :: word) rest
    else if Text.isBlank c then close position word ++ scanFrom (position + 1) [] rest
    else close position word ++ ⟨[c], position⟩ :: scanFrom (position + 1) [] rest
where
  close (position : Nat) (word : List Char) : List Token :=
    if word.isEmpty then [] else [⟨word.reverse, position - word.length⟩]

def scan (cs : List Char) : List Token := scanFrom 0 [] cs

/-- The tokens with the ending behind them. -/
def scanAll (cs : List Char) : List Token := scan cs ++ [ending cs.length]

end Token
end Taproot
