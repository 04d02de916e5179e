/-! # Expression types

A well-formed expression has a base type and five properties of its witnesses. The rules here type a
fragment from the types of its arguments; a broken rule is named by its `TypeError`.
-/
namespace Taproot.Miniscript

inductive BaseType
  | B
  | V
  | K
  | W
  deriving DecidableEq, Repr

def BaseType.letter : BaseType → String
  | B => "B"
  | V => "V"
  | K => "K"
  | W => "W"

/-- `z`: consumes nothing; `o`: consumes one item; `n`: the top item is not empty; `d`: has a
dissatisfaction; `u`: leaves exactly one when satisfied. -/
structure ExprType where
  base : BaseType
  z : Bool := false
  o : Bool := false
  n : Bool := false
  d : Bool := false
  u : Bool := false
  deriving DecidableEq, Repr

/-- The letters that wrap an expression. -/
inductive Wrapper
  | a
  | s
  | c
  | d
  | v
  | j
  | n
  deriving DecidableEq, Repr

def Wrapper.letter : Wrapper → Char
  | a => 'a'
  | s => 's'
  | c => 'c'
  | d => 'd'
  | v => 'v'
  | j => 'j'
  | n => 'n'

def Wrapper.ofLetter? (c : Char) : Option Wrapper :=
  [a, s, Wrapper.c, d, v, j, n].find? (·.letter == c)

theorem Wrapper.ofLetter?_letter (w : Wrapper) : ofLetter? w.letter = some w := by
  cases w <;> decide

inductive TypeError
  | andVFirst
  | andVSecond
  | andBFirst
  | andBSecond
  | orBFirst
  | orBSecond
  | orCFirst
  | orCSecond
  | orDFirst
  | orDSecond
  | orIArguments
  | andOrFirst
  | andOrBranches
  | multiThreshold
  | multiRepeatedKey
  | threshThreshold
  | threshFirst
  | threshOther
  | wrap (w : Wrapper)
  | unknownWrapper (name : String)
  deriving DecidableEq, Repr

def Wrapper.requirement : Wrapper → String
  | a | v | n => "B"
  | s => "Bo"
  | c => "K"
  | d => "Vz"
  | j => "Bn"

def TypeError.message : TypeError → String
  | andVFirst => "and_v: first argument must be of type V"
  | andVSecond => "and_v: second argument must be of type B, K or V"
  | andBFirst => "and_b: first argument must be of type B"
  | andBSecond => "and_b: second argument must be of type W"
  | orBFirst => "or_b: first argument must be of type Bd"
  | orBSecond => "or_b: second argument must be of type Wd"
  | orCFirst => "or_c: first argument must be Bdu"
  | orCSecond => "or_c: second argument must be of type V"
  | orDFirst => "or_d: first argument must be Bdu"
  | orDSecond => "or_d: second argument must be of type B"
  | orIArguments => "or_i: both arguments must be of the same type B, K or V"
  | andOrFirst => "andor: first argument must be Bdu"
  | andOrBranches => "andor: second and third arguments must be of the same type B, K or V"
  | multiThreshold => "multi_a threshold out of range"
  | multiRepeatedKey => "multi_a keys must be distinct"
  | threshThreshold => "thresh threshold out of range"
  | threshFirst => "thresh: first argument must be Bdu"
  | threshOther => "thresh: other arguments must be Wdu"
  | wrap w => s!"{w.letter}: requires a {w.requirement} expression"
  | unknownWrapper name => "Unknown wrapper: " ++ name

namespace ExprType

/-- The base letter, then the letters of the properties that hold. -/
def text (t : ExprType) : String :=
  t.base.letter ++ (if t.z then "z" else "") ++ (if t.o then "o" else "") ++
    (if t.n then "n" else "") ++ (if t.d then "d" else "") ++ (if t.u then "u" else "")

def just (value : Bool) : ExprType := { base := .B, z := true, u := true, d := !value }

def key : ExprType := { base := .K, o := true, n := true, d := true, u := true }

def image : ExprType := { base := .B, o := true, n := true, d := true, u := true }

def timelock : ExprType := { base := .B, z := true }

def multi (k : Int) (keys : List (List UInt8)) : Except TypeError ExprType :=
  if ¬(1 ≤ k ∧ k ≤ keys.length) then .error .multiThreshold
  else if ¬keys.Nodup then .error .multiRepeatedKey
  else .ok { base := .B, d := true, u := true }

def andV (x y : ExprType) : Except TypeError ExprType :=
  if x.base ≠ .V then .error .andVFirst
  else if y.base = .W then .error .andVSecond
  else .ok {
    base := y.base
    z := x.z && y.z
    o := (x.z && y.o) || (x.o && y.z)
    n := x.n || (x.z && y.n)
    u := y.u }

def andB (x y : ExprType) : Except TypeError ExprType :=
  if x.base ≠ .B then .error .andBFirst
  else if y.base ≠ .W then .error .andBSecond
  else .ok {
    base := .B
    z := x.z && y.z
    o := (x.z && y.o) || (x.o && y.z)
    n := x.n || (x.z && y.n)
    d := x.d && y.d
    u := true }

def orB (x z : ExprType) : Except TypeError ExprType :=
  if ¬(x.base = .B ∧ x.d = true) then .error .orBFirst
  else if ¬(z.base = .W ∧ z.d = true) then .error .orBSecond
  else .ok {
    base := .B
    z := x.z && z.z
    o := (x.z && z.o) || (x.o && z.z)
    d := true
    u := true }

/-- What a condition must be: dissatisfiable, and exactly one when satisfied. -/
def isCondition (x : ExprType) : Bool := x.base == .B && x.d && x.u

def orC (x z : ExprType) : Except TypeError ExprType :=
  if x.isCondition = false then .error .orCFirst
  else if z.base ≠ .V then .error .orCSecond
  else .ok { base := .V, z := x.z && z.z, o := x.o && z.z }

def orD (x z : ExprType) : Except TypeError ExprType :=
  if x.isCondition = false then .error .orDFirst
  else if z.base ≠ .B then .error .orDSecond
  else .ok { base := .B, z := x.z && z.z, o := x.o && z.z, d := z.d, u := z.u }

def orI (x z : ExprType) : Except TypeError ExprType :=
  if ¬(x.base = z.base ∧ x.base ≠ .W) then .error .orIArguments
  else .ok { base := x.base, o := x.z && z.z, u := x.u && z.u, d := x.d || z.d }

def andOr (x y z : ExprType) : Except TypeError ExprType :=
  if x.isCondition = false then .error .andOrFirst
  else if ¬(y.base = z.base ∧ y.base ≠ .W) then .error .andOrBranches
  else .ok {
    base := y.base
    z := x.z && y.z && z.z
    o := (x.z && y.o && z.o) || (x.o && y.z && z.z)
    u := y.u && z.u
    d := z.d }

/-- What the branches of a threshold after the first must be. -/
def isSummand (x : ExprType) : Bool := x.base == .W && x.d && x.u

def thresh (k : Int) (branches : List ExprType) : Except TypeError ExprType :=
  if ¬(1 ≤ k ∧ k ≤ branches.length) then .error .threshThreshold
  else
    match branches with
    | [] => .error .threshThreshold
    | first :: others =>
      if first.isCondition = false then .error .threshFirst
      else if others.all isSummand = false then .error .threshOther
      else
        let consuming := branches.filter fun t => !t.z
        .ok {
          base := .B
          z := consuming.isEmpty
          o := match consuming with
            | [t] => t.o
            | _ => false
          d := true
          u := true }

/-- What a wrapper asks of the expression in it. -/
def admits : Wrapper → ExprType → Bool
  | .a, x | .v, x | .n, x => x.base == .B
  | .s, x => x.base == .B && x.o
  | .c, x => x.base == .K
  | .d, x => x.base == .V && x.z
  | .j, x => x.base == .B && x.n

/-- The type of a wrapped expression. -/
def wrapped : Wrapper → ExprType → ExprType
  | .a, x | .s, x => { base := .W, d := x.d, u := x.u }
  | .c, x => { base := .B, o := x.o, n := x.n, d := x.d, u := true }
  | .d, _ => { base := .B, o := true, n := true, d := true, u := true }
  | .v, x => { base := .V, z := x.z, o := x.o, n := x.n }
  | .j, x => { base := .B, o := x.o, n := true, d := true, u := x.u }
  | .n, x => { base := .B, z := x.z, o := x.o, n := x.n, d := x.d, u := true }

def wrap (w : Wrapper) (x : ExprType) : Except TypeError ExprType :=
  if admits w x then .ok (wrapped w x) else .error (.wrap w)

end ExprType
end Taproot.Miniscript
