/-! # The curve secp256k1

Points of `y² = x³ + 7` over the integers modulo `p`, their sum, and multiples of a point. Multiples
are computed in Jacobian coordinates, where `(x, y, z)` stands for `(x / z², y / z³)`.
-/
namespace Taproot.Curve

def p : Nat := 0xfffffffffffffffffffffffffffffffffffffffffffffffffffffffefffffc2f

/-- The number of points. -/
def n : Nat := 0xfffffffffffffffffffffffffffffffebaaedce6af48a03bbfd25e8cd0364141

/-- `b ^ e` modulo `m`, by repeated squaring. -/
def powMod (m b e : Nat) : Nat :=
  if e = 0 then 1 % m
  else
    let h := powMod m (b * b % m) (e / 2)
    if e % 2 = 1 then b * h % m else h
termination_by e

theorem powMod_eq (m b e : Nat) : powMod m b e = Nat.pow b e % m := by
  change _ = b ^ e % m
  induction e using Nat.strongRecOn generalizing b with
  | ind e ih =>
    rw [powMod]
    split
    · subst e; simp
    · rename_i he
      have hs := ih (e / 2) (by omega) (b * b % m)
      have hp : (b * b % m) ^ (e / 2) % m = b ^ (2 * (e / 2)) % m := by
        rw [← Nat.pow_mod, Nat.pow_mul, Nat.pow_two]
      simp only [hs, hp]
      split
      · rename_i ho
        have : e = 2 * (e / 2) + 1 := by omega
        conv => rhs; rw [this, Nat.pow_succ, Nat.mul_comm]
        simp [Nat.mul_mod]
      · have : e = 2 * (e / 2) := by omega
        conv => rhs; rw [this]

def sub (a b : Nat) : Nat := (a + (p - b)) % p

def inverse (a : Nat) : Nat := powMod p a (p - 2)

inductive Point
  | infinity
  | affine (x y : Nat)
  deriving DecidableEq, Repr

namespace Point

def neg : Point → Point
  | infinity => infinity
  | affine x y => affine x (sub 0 y)

/-- The third point of the line through two points, reflected, given the slope of that line. -/
def chord (slope x₁ y₁ x₂ : Nat) : Point :=
  let x := sub (sub (slope * slope % p) x₁) x₂
  affine x (sub (slope * sub x₁ x % p) y₁)

def add : Point → Point → Point
  | infinity, q => q
  | q, infinity => q
  | affine x₁ y₁, affine x₂ y₂ =>
    if x₁ = x₂ then
      if (y₁ + y₂) % p = 0 then infinity
      else chord (3 * x₁ * x₁ * inverse (2 * y₁ % p) % p) x₁ y₁ x₂
    else chord (sub y₂ y₁ * inverse (sub x₂ x₁) % p) x₁ y₁ x₂

/-- The point lies on the curve and its coordinates are reduced. -/
def Valid : Point → Prop
  | infinity => True
  | affine x y => x < p ∧ y < p ∧ y * y % p = (x * x * x + 7) % p

def hasEvenY : Point → Bool
  | infinity => false
  | affine _ y => y % 2 == 0

end Point

/-- A point in Jacobian coordinates; `z = 0` is the point at infinity. -/
structure Jacobian where
  x : Nat
  y : Nat
  z : Nat

namespace Jacobian

def infinity : Jacobian := ⟨1, 1, 0⟩

def double (a : Jacobian) : Jacobian :=
  let b := a.y * a.y % p
  let d := 4 * a.x * b % p
  let e := 3 * a.x * a.x % p
  let x := sub (e * e % p) (2 * d % p)
  ⟨x, sub (e * sub d x % p) (8 * b * b % p), 2 * a.y * a.z % p⟩

def addAffine (a : Jacobian) (x y : Nat) : Jacobian :=
  if a.z = 0 then ⟨x, y, 1⟩
  else
    let zz := a.z * a.z % p
    let h := sub (x * zz % p) a.x
    let r := sub (y * (a.z * zz % p) % p) a.y
    if h = 0 then if r = 0 then a.double else infinity
    else
      let hh := h * h % p
      let hhh := h * hh % p
      let v := a.x * hh % p
      let x₃ := sub (sub (r * r % p) hhh) (2 * v % p)
      ⟨x₃, sub (r * sub v x₃ % p) (a.y * hhh % p), a.z * h % p⟩

def multiple (x y k : Nat) : Jacobian :=
  if k = 0 then infinity
  else
    let h := (multiple x y (k / 2)).double
    if k % 2 = 1 then h.addAffine x y else h
termination_by k

def toPoint (a : Jacobian) : Point :=
  if a.z = 0 then .infinity
  else
    let i := inverse a.z
    let ii := i * i % p
    .affine (a.x * ii % p) (a.y * (i * ii % p) % p)

end Jacobian

def multiply (k : Nat) : Point → Point
  | .infinity => .infinity
  | .affine x y => (Jacobian.multiple x y k).toPoint

def generator : Point :=
  .affine 0x79be667ef9dcbbac55a06295ce870b07029bfcdb2dce28d959f2815b16f81798
    0x483ada7726a3c4655da4fbfc0e1108a8fd17b448a68554199c47d08ffb10d4b8

/-- The point with an even `y` over a given `x`. -/
def liftX (x : Nat) : Option Point :=
  let c := (x * x * x + 7) % p
  let y := powMod p c ((p + 1) / 4)
  if x < p ∧ y * y % p = c then some (.affine x (if y % 2 = 0 then y else p - y)) else none

end Taproot.Curve
