import Taproot.Text.Blank

/-! # Integers written as text

A numeral is a minus sign, if there is one, and digits without zeros in front. Where an integer is
given as text, more spellings are understood: they are reduced to a numeral, which is then read.
-/
namespace Taproot.Text

/-- The greatest number of characters of a numeral. -/
def digitLimit : Nat := 4300

/-- Integers with more digits are not written; the sign does not count. -/
def isWritable (n : Int) : Bool := n.natAbs < Nat.pow 10 digitLimit

/-- A numeral with more digits than are converted. -/
inductive DigitFault
  | reading (digits : Nat)
  | writing
  deriving DecidableEq, Repr

def DigitFault.message (f : DigitFault) : String :=
  let found := match f with
    | reading digits => s!": value has {digits} digits"
    | writing => ""
  s!"Exceeds the limit ({digitLimit} digits) for integer string conversion" ++ found ++
    "; use sys.set_int_max_str_digits() to increase the limit"

def ofDigits (cs : List Char) : Nat := Nat.ofDigitChars 10 cs 0

def signed (negative : Bool) (n : Nat) : Int := if negative then -(n : Int) else n

/-- Splits off a sign; true stands for minus. -/
def takeSign : List Char → Bool × List Char
  | '-' :: rest => (true, rest)
  | '+' :: rest => (false, rest)
  | cs => (false, cs)

/-- A plain decimal numeral of ASCII digits. -/
def isNumeral (cs : List Char) : Bool := !cs.isEmpty && cs.all Char.isDigit

inductive IntegerFault
  | malformed
  | tooLong
  deriving DecidableEq, Repr

/-- The digits at the front, where they are no more than so many with the sign. A numeral that goes
on beyond the limit is too long, whatever follows it. -/
def takeNumeral (limit : Nat) (negative : Bool) (cs : List Char) :
    Except IntegerFault (List Char × List Char) :=
  let (digits, rest) := cs.span Char.isDigit
  let size := digits.length + negative.toNat
  match digits with
  | [] => .error .malformed
  | '0' :: _ :: _ => .error .malformed
  | _ => if limit < size then .error .tooLong else .ok (digits, rest)

def readNumeral (cs : List Char) : Except IntegerFault Int :=
  let (negative, digits) := match cs with
    | '-' :: rest => (true, rest)
    | _ => (false, cs)
  match takeNumeral digitLimit negative digits with
  | .error e => .error e
  | .ok (ds, []) => .ok (signed negative (ofDigits ds))
  | .ok _ => .error .malformed

/-- A plus sign is dropped; a minus sign cannot follow it. -/
def dropPlus? : List Char → Option (List Char)
  | '+' :: '-' :: _ => none
  | '+' :: rest => some rest
  | cs => some cs

/-- Drops zeros behind a first one, with the underscores among them; the last stays where a point or
the end follows. -/
def dropZerosAfter (last : Char) : List Char → Option (List Char)
  | [] => some [last]
  | c :: rest =>
    if c = '0' ∨ c = '_' then dropZerosAfter c rest
    else if c = '.' then some (last :: c :: rest)
    else if c.isDigit ∨ c = '-' then some (c :: rest)
    else none

/-- Drops zeros in front, also those before a minus sign. -/
def dropZeros? : List Char → Option (List Char)
  | [] => none
  | c :: rest =>
    if c = '0' then dropZerosAfter c rest
    else if c.isDigit ∨ c = '-' then some (c :: rest)
    else none

/-- Drops a point with one or more zeros behind it. -/
def dropZeroFraction (cs : List Char) : List Char :=
  match cs.dropWhile (· ≠ '.') with
  | '.' :: '0' :: zeros => if zeros.all (· = '0') then cs.takeWhile (· ≠ '.') else cs
  | _ => cs

/-- Underscores stand alone, and not at an end. -/
def areApart : List Char → Bool
  | [] => true
  | ['_'] => false
  | '_' :: '_' :: _ => false
  | _ :: rest => areApart rest

def dropUnderscores? (cs : List Char) : Option (List Char) :=
  if cs.head? ≠ some '_' ∧ areApart cs then some (cs.filter (· ≠ '_')) else none

/-- Reduces a text to a numeral: no blanks around it, no plus sign, no zeros in front, no fraction
of zeros, and no underscores between digits. -/
def toNumeral? (cs : List Char) : Option (List Char) := do
  let cs ← dropPlus? (trim isWhiteSpace cs)
  let cs ← dropZeros? cs
  dropUnderscores? (dropZeroFraction cs)

/-- An integer that is given as text. -/
def readInteger (s : String) : Except IntegerFault Int :=
  match readNumeral s.toList with
  | .ok n => .ok n
  | .error .tooLong => .error .tooLong
  | .error .malformed =>
    match (toNumeral? s.toList).map readNumeral with
    | some (.ok n) => .ok n
    | _ => .error .malformed

end Taproot.Text
