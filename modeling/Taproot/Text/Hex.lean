import Taproot.Bytes
import Taproot.Text.Blank

/-! # Reading hex text

A byte is two hex digits of either case. Blanks may stand before, between and after bytes, not
inside one. What `Bytes.hex` writes reads back.
-/
namespace Taproot.Text

def hexValue? (c : Char) : Option Nat :=
  if '0' ≤ c ∧ c ≤ '9' then some (c.toNat - 48)
  else if 'a' ≤ c ∧ c ≤ 'f' then some (c.toNat - 87)
  else if 'A' ≤ c ∧ c ≤ 'F' then some (c.toNat - 55)
  else none

def readHex : List Char → Option Bytes
  | [] => some []
  | [c] => if isAsciiBlank c then some [] else none
  | c :: d :: rest =>
    if isAsciiBlank c then readHex (d :: rest)
    else match hexValue? c, hexValue? d with
      | some hi, some lo => (readHex rest).map (UInt8.ofNat (16 * hi + lo) :: ·)
      | _, _ => none

theorem hexValue?_hexDigit {n : Nat} (h : n < 16) : hexValue? (Bytes.hexDigit n) = some n := by
  match n, h with
  | 0, _ | 1, _ | 2, _ | 3, _ | 4, _ | 5, _ | 6, _ | 7, _ | 8, _ | 9, _ | 10, _ | 11, _ | 12, _
  | 13, _ | 14, _ | 15, _ => decide
  | n + 16, h => omega

theorem isAsciiBlank_hexDigit {n : Nat} (h : n < 16) : isAsciiBlank (Bytes.hexDigit n) = false := by
  match n, h with
  | 0, _ | 1, _ | 2, _ | 3, _ | 4, _ | 5, _ | 6, _ | 7, _ | 8, _ | 9, _ | 10, _ | 11, _ | 12, _
  | 13, _ | 14, _ | 15, _ => decide
  | n + 16, h => omega

theorem readHex_hexChars (b : Bytes) : readHex b.hexChars = some b := by
  induction b with
  | nil => rfl
  | cons x xs ih =>
    have hx := x.toNat_lt
    have hi : x.toNat / 16 < 16 := by omega
    have lo : x.toNat % 16 < 16 := by omega
    have hs : 16 * (x.toNat / 16) + x.toNat % 16 = x.toNat := by omega
    have he : Bytes.hexChars (x :: xs) = Bytes.hexDigit (x.toNat / 16) ::
        Bytes.hexDigit (x.toNat % 16) :: Bytes.hexChars xs := rfl
    rw [he, readHex]
    simp [isAsciiBlank_hexDigit hi, hexValue?_hexDigit hi, hexValue?_hexDigit lo, ih, hs]

theorem readHex_hex (b : Bytes) : readHex b.hex.toList = some b := by
  simp [Bytes.hex, readHex_hexChars]

end Taproot.Text
