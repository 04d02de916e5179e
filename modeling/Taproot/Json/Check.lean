import Taproot.Json.Basic
import Taproot.Number.Binary64
import Taproot.Text.HexText
import Taproot.Text.Integer

/-! # Checking JSON values against a shape

A check either gives a value or lists all that is wrong, each with its place. Numbers may also be
given as text, as truth values or with a fraction of zeros.
-/
namespace Taproot.Json

inductive Step
  | field (name : String)
  | item (index : Nat)
  deriving DecidableEq, Repr

inductive IssueKind
  | invalidJson
  | missing
  | notObject
  | notList
  | notTable
  | notString
  | notInteger
  | malformedInteger
  | oversizedInteger
  | fractional
  | notFinite
  | notBool
  | malformedBool
  | tooSmall
  | tooLarge
  | badValue (message : String)
  deriving DecidableEq, Repr

structure Issue where
  place : List Step
  kind : IssueKind
  deriving DecidableEq, Repr

inductive Check (α : Type)
  | pass (value : α)
  | fail (issues : List Issue)

namespace Check

variable {α β : Type}

def issue (kind : IssueKind) : Check α := fail [⟨[], kind⟩]

def map (f : α → β) : Check α → Check β
  | pass a => pass (f a)
  | fail es => fail es

/-- Both must pass, and the issues of both are listed. -/
def ap : Check (α → β) → Check α → Check β
  | pass f, pass a => pass (f a)
  | pass _, fail es => fail es
  | fail es, pass _ => fail es
  | fail es, fail fs => fail (es ++ fs)

instance : Applicative Check where
  pure := pass
  seq f x := ap f (x ())

def bind : Check α → (α → Check β) → Check β
  | pass a, f => f a
  | fail es, _ => fail es

/-- Places the issues below a step. -/
def under (step : Step) : Check α → Check α
  | pass a => pass a
  | fail es => fail (es.map fun e => { e with place := step :: e.place })

end Check

open Check (issue)

def checkString : Json → Check String
  | str s => .pass s
  | _ => issue .notString

def checkNumeral (s : String) : Check Int :=
  match Text.readInteger s with
  | .ok n => .pass n
  | .error .malformed => issue .malformedInteger
  | .error .tooLong => issue .oversizedInteger

/-- Words of 64 bits hold the integers from the negative of this up to it, which is left out. -/
def wordLimit : Nat := 0x8000000000000000

/-- An integer that a binary64 number stands for. -/
def checkReal : Real → Check Int
  | .decimal negative digits exponent =>
    match Binary64.ofDecimal digits exponent with
    | none => issue .notFinite
    | some x =>
      match x.toNat? with
      | none => issue .fractional
      | some n => if n < wordLimit then .pass (Text.signed negative n) else issue .oversizedInteger
  | .infinite _ | .notANumber => issue .notFinite

def checkInteger : Json → Check Int
  | int n => .pass n
  | bool b => .pass (if b then 1 else 0)
  | real x => checkReal x
  | str s => checkNumeral s
  | _ => issue .notInteger

def checkNatural (j : Json) : Check Nat :=
  (checkInteger j).bind fun n => if 0 ≤ n then .pass n.toNat else issue .tooSmall

def checkNaturalUpTo (bound : Nat) (j : Json) : Check Nat :=
  (checkNatural j).bind fun n => if n ≤ bound then .pass n else issue .tooLarge

def falseWords : List String := ["0", "off", "f", "false", "n", "no"]

def trueWords : List String := ["1", "on", "t", "true", "y", "yes"]

/-- Only an integer of 64 bits is taken for a truth value at all. -/
def checkBoolInteger (n : Int) : Check Bool :=
  if n = 0 then .pass false
  else if n = 1 then .pass true
  else if -(wordLimit : Int) ≤ n ∧ n < wordLimit then issue .malformedBool
  else issue .notBool

def checkBool : Json → Check Bool
  | bool b => .pass b
  | int n => checkBoolInteger n
  | real x =>
    match checkReal x with
    | .pass n => checkBoolInteger n
    | .fail _ => issue .notBool
  | str s =>
    let word := s.map Char.toLower
    if word ∈ falseWords then .pass false
    else if word ∈ trueWords then .pass true
    else issue .malformedBool
  | _ => issue .notBool

/-- What is said of a value that was refused for its own sake. -/
def refused (fault : HexFault) : IssueKind := .badValue ("Value error, " ++ fault.message)

def checkHex (j : Json) : Check HexText :=
  (checkString j).bind fun s =>
    match HexText.ofString s with
    | .ok h => .pass h
    | .error fault => issue (refused fault)

/-- The hex text of 32 bytes for a field. -/
def checkBytes (field : String) (b : Bytes) : Check HexText :=
  if b.length = 32 then .pass (.ofBytes b)
  else (issue (refused (.wrongLength b.length))).under (.field field)

variable {α : Type}

def checkNullable (check : Json → Check α) : Json → Check (Option α)
  | null => .pass none
  | j => (check j).map some

def checkItems (check : Json → Check α) (index : Nat) : List Json → Check (List α)
  | [] => .pass []
  | x :: xs => List.cons <$> (check x).under (.item index) <*> checkItems check (index + 1) xs

def checkList (check : Json → Check α) : Json → Check (List α)
  | arr items => checkItems check 0 items
  | _ => issue .notList

def checkEntries (check : Json → Check α) : List (String × Json) → Check (List (Int × α))
  | [] => .pass []
  | (key, x) :: rest =>
    let entry := Prod.mk <$> (checkNumeral key).under (.field "[key]") <*> check x
    List.cons <$> entry.under (.field key) <*> checkEntries check rest

/-- A table whose keys are integers written as text. -/
def checkTable (check : Json → Check α) : Json → Check (List (Int × α))
  | obj entries => checkEntries check entries
  | _ => issue .notTable

/-- The value of a field that must be there. -/
def required (name : String) (check : Json → Check α) (j : Json) : Check α :=
  (match j.get? name with
    | some x => check x
    | none => issue .missing).under (.field name)

/-- The value of a field, or a default where the field is not there. -/
def optional (name : String) (default : α) (check : Json → Check α) (j : Json) : Check α :=
  match j.get? name with
  | some x => (check x).under (.field name)
  | none => .pass default

def checkObject (check : Json → Check α) : Json → Check α
  | obj entries => check (obj entries)
  | _ => issue .notObject

end Taproot.Json
