/-! # Byte strings

Byte strings are lists of octets. Integers of a fixed width are read and written in both byte
orders, and hex text is written in lower case.
-/
namespace Taproot

abbrev Bytes := List UInt8

namespace Bytes

def toNatLE : Bytes → Nat
  | [] => 0
  | x :: xs => x.toNat + 256 * toNatLE xs

def toNatBE (b : Bytes) : Nat := b.foldl (fun v x => 256 * v + x.toNat) 0

/-- The least number that does not fit into so many bytes. -/
def bound : (width : Nat) → Nat
  | 0 => 1
  | w + 1 => 256 * bound w

/-- The `width` low bytes of `value`, least significant first. -/
def ofNatLE : (width value : Nat) → Bytes
  | 0, _ => []
  | w + 1, v => UInt8.ofNat v :: ofNatLE w (v / 256)

def ofNatBE (width value : Nat) : Bytes := (ofNatLE width value).reverse

@[simp] theorem length_ofNatLE (w v : Nat) : (ofNatLE w v).length = w := by
  induction w generalizing v with
  | zero => rfl
  | succ w ih => simp [ofNatLE, ih]

@[simp] theorem length_ofNatBE (w v : Nat) : (ofNatBE w v).length = w := by
  simp [ofNatBE]

theorem toNatLE_ofNatLE {w v : Nat} (h : v < bound w) : toNatLE (ofNatLE w v) = v := by
  induction w generalizing v with
  | zero => simp only [bound] at h; simp [toNatLE, ofNatLE]; omega
  | succ w ih =>
    have hd : v / 256 < bound w := by
      simp only [bound] at h
      omega
    simp only [ofNatLE, toNatLE, ih hd, UInt8.toNat_ofNat']
    omega

theorem toNatLE_lt (b : Bytes) : toNatLE b < bound b.length := by
  induction b with
  | nil => simp [toNatLE, bound]
  | cons x xs ih =>
    have hx := x.toNat_lt
    simp only [toNatLE, List.length_cons, bound]
    omega

theorem toNatBE_reverse (b : Bytes) : toNatBE b.reverse = toNatLE b := by
  rw [toNatBE, List.foldl_reverse]
  induction b with
  | nil => rfl
  | cons x xs ih => simp only [List.foldr_cons, toNatLE]; rw [ih]; omega

theorem toNatBE_ofNatBE {w v : Nat} (h : v < bound w) : toNatBE (ofNatBE w v) = v := by
  rw [ofNatBE, toNatBE_reverse, toNatLE_ofNatLE h]

def hexDigit (n : Nat) : Char :=
  if n < 10 then Char.ofNat (48 + n) else Char.ofNat (87 + n)

def hexPair (x : UInt8) : List Char := [hexDigit (x.toNat / 16), hexDigit (x.toNat % 16)]

def hexChars (b : Bytes) : List Char := b.flatMap hexPair

/-- Two digits a byte. -/
def hex (b : Bytes) : String := String.ofList b.hexChars

end Bytes
end Taproot
