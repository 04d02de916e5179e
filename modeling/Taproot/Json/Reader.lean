import Taproot.Json.Basic
import Taproot.Text.Integer

/-! # Reading JSON

A strict reader. Besides the grammar it knows the names of the numbers that are not finite, and it
refuses numbers with too many digits before the point and containers nested beyond a depth.
-/
namespace Taproot.Json

structure Limits where
  depth : Nat
  digits : Nat

/-- The limits for files. -/
def Limits.file : Limits := ⟨200, Text.digitLimit⟩

def isSpace (c : Char) : Bool := c = ' ' || c = '\n' || c = '\r' || c = '\t'

def skipSpace (cs : List Char) : List Char := cs.dropWhile isSpace

def hexValue? (c : Char) : Option Nat :=
  if c.isDigit then some (c.toNat - 48)
  else if 'a' ≤ c ∧ c ≤ 'f' then some (c.toNat - 87)
  else if 'A' ≤ c ∧ c ≤ 'F' then some (c.toNat - 55)
  else none

def readUnit : List Char → Option (Nat × List Char)
  | a :: b :: c :: d :: rest => do
    let a ← hexValue? a
    let b ← hexValue? b
    let c ← hexValue? c
    let d ← hexValue? d
    return (4096 * a + 256 * b + 16 * c + d, rest)
  | _ => none

/-- The character that `\u` introduces; the two halves of a pair make one character, and a half on
its own is refused. -/
def readCode (cs : List Char) : Option (Char × List Char) := do
  let (u, rest) ← readUnit cs
  if 0xd800 ≤ u ∧ u < 0xdc00 then
    match rest with
    | '\\' :: 'u' :: rest =>
      let (v, rest) ← readUnit rest
      if 0xdc00 ≤ v ∧ v < 0xe000 then
        some (Char.ofNat (0x10000 + 1024 * (u - 0xd800) + (v - 0xdc00)), rest)
      else none
    | _ => none
  else if 0xdc00 ≤ u ∧ u < 0xe000 then none
  else some (Char.ofNat u, rest)

def simpleEscape? (c : Char) : Option Char :=
  match c with
  | '"' => some '"'
  | '\\' => some '\\'
  | '/' => some '/'
  | 'b' => some '\x08'
  | 'f' => some '\x0c'
  | 'n' => some '\n'
  | 'r' => some '\r'
  | 't' => some '\t'
  | _ => none

/-- One character of a string, or none at the closing quote. -/
def readStringStep : List Char → Option (Option Char × List Char)
  | '"' :: rest => some (none, rest)
  | '\\' :: 'u' :: rest => (readCode rest).map fun (c, r) => (some c, r)
  | '\\' :: c :: rest => (simpleEscape? c).map fun c => (some c, rest)
  | c :: rest => if c.toNat < 0x20 ∨ c = '\\' then none else some (some c, rest)
  | [] => none

/-- The characters up to the closing quote; `before` holds those already read, last first. -/
def readStringTail : (fuel : Nat) → (before : List Char) → List Char → Option (String × List Char)
  | 0, _, _ => none
  | n + 1, before, cs =>
    match readStringStep cs with
    | none => none
    | some (none, rest) => some (String.ofList before.reverse, rest)
    | some (some c, rest) => readStringTail n (c :: before) rest

def readString (cs : List Char) : Option (String × List Char) :=
  readStringTail (cs.length + 1) [] cs

def takeDigits (cs : List Char) : List Char × List Char := cs.span Char.isDigit

/-- The digits after a point, if there is one. -/
def readFraction : List Char → Option (List Char × List Char)
  | '.' :: rest =>
    let (ds, rest) := takeDigits rest
    if ds.isEmpty then none else some (ds, rest)
  | cs => some ([], cs)

/-- The exponent, if there is one. -/
def readExponent : List Char → Option (Option Int × List Char)
  | c :: rest =>
    if c = 'e' ∨ c = 'E' then
      let (negative, rest) := Text.takeSign rest
      let (ds, rest) := takeDigits rest
      if ds.isEmpty then none else some (some (Text.signed negative (Text.ofDigits ds)), rest)
    else some (none, c :: rest)
  | [] => some (none, [])

def readMagnitude (lim : Limits) (negative : Bool) (cs : List Char) : Option (Json × List Char) := do
  let (whole, rest) ← (Text.takeNumeral lim.digits negative cs).toOption
  let (fraction, rest) ← readFraction rest
  let (exponent, rest) ← readExponent rest
  match fraction, exponent with
  | [], none => some (int (Text.signed negative (Text.ofDigits whole)), rest)
  | _, _ =>
    some (real (.decimal negative (Text.ofDigits (whole ++ fraction))
      (exponent.getD 0 - fraction.length)), rest)

def infinityName : List Char := "Infinity".toList

def readNumber (lim : Limits) (cs : List Char) : Option (Json × List Char) :=
  let (negative, digits) := match cs with
    | '-' :: rest => (true, rest)
    | _ => (false, cs)
  if infinityName.isPrefixOf digits then
    some (real (.infinite negative), digits.drop infinityName.length)
  else readMagnitude lim negative digits

mutual

/-- A value after blanks, with the text behind it. -/
def readValue (lim : Limits) : (fuel depth : Nat) → List Char → Option (Json × List Char)
  | 0, _, _ => none
  | n + 1, depth, cs =>
    match skipSpace cs with
    | 'n' :: 'u' :: 'l' :: 'l' :: rest => some (null, rest)
    | 't' :: 'r' :: 'u' :: 'e' :: rest => some (bool true, rest)
    | 'f' :: 'a' :: 'l' :: 's' :: 'e' :: rest => some (bool false, rest)
    | 'N' :: 'a' :: 'N' :: rest => some (real .notANumber, rest)
    | '"' :: rest => (readString rest).map fun (s, r) => (str s, r)
    | '[' :: rest =>
      match skipSpace rest with
      | ']' :: rest => some (arr [], rest)
      | rest =>
        if depth < lim.depth then
          (readItems lim n (depth + 1) rest).map fun (xs, r) => (arr xs, r)
        else none
    | '\x7b' :: rest =>
      match skipSpace rest with
      | '\x7d' :: rest => some (obj [], rest)
      | rest =>
        if depth < lim.depth then
          (readEntries lim n (depth + 1) rest).map fun (xs, r) => (obj xs, r)
        else none
    | cs => readNumber lim cs

/-- The items of an array that has one, up to its closing bracket. -/
def readItems (lim : Limits) : (fuel depth : Nat) → List Char → Option (List Json × List Char)
  | 0, _, _ => none
  | n + 1, depth, cs =>
    match readValue lim n depth cs with
    | none => none
    | some (x, rest) =>
      match skipSpace rest with
      | ']' :: rest => some ([x], rest)
      | ',' :: rest => (readItems lim n depth rest).map fun (xs, r) => (x :: xs, r)
      | _ => none

/-- The entries of an object that has one, up to its closing brace. -/
def readEntries (lim : Limits) :
    (fuel depth : Nat) → List Char → Option (List (String × Json) × List Char)
  | 0, _, _ => none
  | n + 1, depth, cs =>
    match skipSpace cs with
    | '"' :: rest =>
      match readString rest with
      | none => none
      | some (key, rest) =>
        match skipSpace rest with
        | ':' :: rest =>
          match readValue lim n depth rest with
          | none => none
          | some (x, rest) =>
            match skipSpace rest with
            | '\x7d' :: rest => some ([(key, x)], rest)
            | ',' :: rest =>
              (readEntries lim n depth rest).map fun (xs, r) => ((key, x) :: xs, r)
            | _ => none
        | _ => none
    | _ => none

end

/-- The one value that a text holds. -/
def read? (lim : Limits) (s : String) : Option Json :=
  let cs := s.toList
  match readValue lim (2 * cs.length + 2) 0 cs with
  | some (x, rest) => if (skipSpace rest).isEmpty then some x else none
  | none => none

end Taproot.Json
