/-! # Binary64 numbers

The binary64 number nearest to a fraction, ties to the even mantissa, and its value written with two
decimals.
-/
namespace Taproot

/-- The nearest integer to a quotient, a half going to the even neighbour. -/
def roundHalfEven (num den : Nat) : Nat :=
  let q := num / den
  let r := num % den
  if den < 2 * r ∨ (2 * r = den ∧ q % 2 = 1) then q + 1 else q

/-- The value `mantissa * 2 ^ exponent`. -/
structure Binary64 where
  mantissa : Nat
  exponent : Int
  deriving DecidableEq, Repr

namespace Binary64

/-- Numerator and denominator of `num / den / 2 ^ e`. -/
def scale (num den : Nat) (e : Int) : Nat × Nat :=
  if 0 ≤ e then (num, den <<< e.toNat) else (num <<< (-e).toNat, den)

/-- The exponent at which `num / den` has a mantissa of 53 bits, or the least one. -/
def exponentFor (num den : Nat) : Int :=
  let e : Int := (num.log2 : Int) - den.log2 - 52
  let (n, d) := scale num den e
  max (if n < d <<< 52 then e - 1 else e) (-1074)

/-- `none` stands for infinity. -/
def nearest (num den : Nat) : Option Binary64 :=
  if num = 0 then some ⟨0, 0⟩
  else
    let e := exponentFor num den
    let (n, d) := scale num den e
    let m := roundHalfEven n d
    let (top, unit) := scale m 1 (1024 - e)
    if unit ≤ top then none else some ⟨m, e⟩

def tenTo (n : Nat) : Nat := Nat.pow 10 n

/-- The number nearest to `digits * 10 ^ exponent`. -/
def ofDecimal (digits : Nat) (exponent : Int) : Option Binary64 :=
  let size := ((Nat.toDigits 10 digits).length : Int) + exponent
  if digits = 0 ∨ size < -400 then some ⟨0, 0⟩
  else if 400 < size then none
  else if 0 ≤ exponent then nearest (digits * tenTo exponent.toNat) 1
  else nearest digits (tenTo (-exponent).toNat)

def toNat? (x : Binary64) : Option Nat :=
  if 0 ≤ x.exponent then some (x.mantissa <<< x.exponent.toNat)
  else
    let unit := 1 <<< (-x.exponent).toNat
    if x.mantissa % unit = 0 then some (x.mantissa / unit) else none

def hundredths (x : Binary64) : Nat :=
  let (n, d) := scale (100 * x.mantissa) 1 (-x.exponent)
  roundHalfEven n d

end Binary64

/-- Two decimals of a number of hundredths. -/
def showHundredths (n : Nat) : String :=
  let cents := n % 100
  s!"{n / 100}." ++ (if cents < 10 then s!"0{cents}" else s!"{cents}")

end Taproot
