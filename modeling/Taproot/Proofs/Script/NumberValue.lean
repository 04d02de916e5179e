import Taproot.Script.Element

/-! # The value of a script number

A number on the stack is read with its sign in the top bit of the last byte. What is written for an
integer reads back as that integer.
-/
namespace Taproot.ScriptNumber

/-- The sign bit. -/
def isNegative : Bytes → Bool
  | [] => false
  | [x] => 128 ≤ x.toNat
  | _ :: y :: rest => isNegative (y :: rest)

/-- The value without the sign bit. -/
def size : Bytes → Nat
  | [] => 0
  | [x] => x.toNat % 128
  | x :: y :: rest => x.toNat + 256 * size (y :: rest)

def decode (b : Bytes) : Int := if isNegative b then -(size b : Int) else size b

theorem toNatLE_magnitude (n : Nat) : (magnitude n).toNatLE = n := by
  induction n using Nat.strongRecOn with
  | ind n ih =>
    rw [magnitude]
    split
    · simp [Bytes.toNatLE, *]
    · have h := ih (n / 256) (by omega)
      simp only [Bytes.toNatLE, h, UInt8.toNat_ofNat']
      omega

theorem magnitude_eq_nil {n : Nat} : magnitude n = [] ↔ n = 0 := by
  rw [magnitude]
  split <;> simp [*]

theorem signBit_set {x : UInt8} : x &&& 0x80 ≠ 0 ↔ 128 ≤ x.toNat := by
  have h : ∀ n < 256, (UInt8.ofNat n &&& 0x80 ≠ 0 ↔ 128 ≤ n) := by decide +kernel
  simpa using h x.toNat x.toNat_lt

theorem toNat_or_signBit {x : UInt8} (hx : ¬128 ≤ x.toNat) : (x ||| 0x80).toNat = x.toNat + 128 := by
  have h : ∀ n < 128, (UInt8.ofNat n ||| 0x80).toNat = n + 128 := by decide +kernel
  simpa using h x.toNat (by omega)

theorem addSign_ne_nil (negative : Bool) {m : Bytes} (h : m ≠ []) : addSign negative m ≠ [] := by
  match m with
  | [x] => simp only [addSign]; split <;> simp
  | x :: y :: rest => simp [addSign]

theorem size_cons {x : UInt8} {rest : Bytes} (h : rest ≠ []) :
    size (x :: rest) = x.toNat + 256 * size rest := by
  cases rest with
  | nil => exact absurd rfl h
  | cons y rest => rfl

theorem isNegative_cons {x : UInt8} {rest : Bytes} (h : rest ≠ []) :
    isNegative (x :: rest) = isNegative rest := by
  cases rest with
  | nil => exact absurd rfl h
  | cons y rest => rfl

theorem size_addSign (negative : Bool) (m : Bytes) : size (addSign negative m) = m.toNatLE := by
  match m with
  | [] => rfl
  | [x] =>
    have hx := x.toNat_lt
    simp only [addSign, Bytes.toNatLE]
    split
    · cases negative <;> simp [size]
    · rename_i h
      rw [signBit_set] at h
      cases negative
      · simp [size]; omega
      · simp [size, toNat_or_signBit h]; omega
  | x :: y :: rest =>
    have ih := size_addSign negative (y :: rest)
    rw [addSign, size_cons (addSign_ne_nil negative (by simp)), ih]
    · rfl
    · exact List.cons_ne_nil y rest

theorem isNegative_addSign (negative : Bool) {m : Bytes} (h : m ≠ []) :
    isNegative (addSign negative m) = negative := by
  match m with
  | [x] =>
    have hx := x.toNat_lt
    simp only [addSign]
    split
    · cases negative <;> simp [isNegative]
    · rename_i h
      rw [signBit_set] at h
      cases negative
      · simp [isNegative]; omega
      · simp [isNegative, toNat_or_signBit h]
  | x :: y :: rest =>
    have ih := isNegative_addSign negative (m := y :: rest) (by simp)
    rw [addSign, isNegative_cons (addSign_ne_nil negative (by simp)), ih]
    exact List.cons_ne_nil y rest

theorem size_encode (v : Int) : size (encode v) = v.natAbs := by
  rw [encode, size_addSign, toNatLE_magnitude]

@[simp] theorem decode_encode (v : Int) : decode (encode v) = v := by
  by_cases hz : v = 0
  · subst hz; simp [encode_zero, decode, isNegative, size]
  · have hm : magnitude v.natAbs ≠ [] := by
      rw [Ne, magnitude_eq_nil]
      omega
    have hn : isNegative (encode v) = decide (v < 0) := isNegative_addSign _ hm
    rw [decode, hn, size_encode]
    by_cases hv : v < 0
    · rw [decide_eq_true hv, if_pos rfl]
      omega
    · rw [decide_eq_false hv, if_neg Bool.false_ne_true]
      omega

theorem encode_one : encode 1 = [1] := by
  have hm : magnitude 1 = [1] := by
    rw [magnitude, magnitude]
    rfl
  rw [encode, show (1 : Int).natAbs = 1 from rfl, hm]
  rfl

theorem encode_injective {v w : Int} (h : encode v = encode w) : v = w := by
  rw [← decode_encode v, h, decode_encode]

end Taproot.ScriptNumber
