import Taproot.Proofs.Script.Execution

/-! # Minimal script numbers

Among the byte strings that are read as a number, the one that is written for it is the shortest, and
the only one that passes the rule for minimal numbers. The element that pushes the number leaves these
bytes, whether it is a push or an opcode of its own.
-/
namespace Taproot

theorem Bytes.bound_le {m n : Nat} (h : m ≤ n) : bound m ≤ bound n := by
  induction h with
  | refl => exact Nat.le_refl _
  | @step n _ ih =>
    change bound m ≤ 256 * bound n
    omega

namespace ScriptNumber

/-- The last byte holds more than the sign, unless the top bit of the byte before it is taken. -/
def isMinimal : Bytes → Bool
  | [] => true
  | [x] => x.toNat % 128 != 0
  | [x, y] => y.toNat % 128 != 0 || 128 ≤ x.toNat
  | _ :: y :: z :: rest => isMinimal (y :: z :: rest)

theorem isMinimal_cons (x : UInt8) {rest : Bytes} (hne : rest ≠ []) (h : isMinimal rest = true) :
    isMinimal (x :: rest) = true := by
  match rest with
  | [y] =>
    have hy : (y.toNat % 128 != 0) = true := h
    rw [isMinimal, hy, Bool.true_or]
  | y :: z :: rest => exact h

/-! ## Lengths and sizes -/

/-- The sign bit is not for the size. -/
theorem two_mul_size_lt (b : Bytes) : 2 * size b < Bytes.bound b.length := by
  match b with
  | [] => decide
  | [x] =>
    simp only [size, List.length_singleton, Bytes.bound]
    omega
  | x :: y :: rest =>
    have ih := two_mul_size_lt (y :: rest)
    have hx := x.toNat_lt
    -- the bound of one byte or more is even, so that a byte still fits under it
    rw [List.length_cons, Bytes.bound] at ih
    rw [size, List.length_cons, List.length_cons, Bytes.bound, Bytes.bound]
    omega

/-- A minimal number does not fit into fewer bytes. -/
theorem bound_le_two_mul_size {x : UInt8} {rest : Bytes} (h : isMinimal (x :: rest) = true) :
    Bytes.bound rest.length ≤ 2 * size (x :: rest) := by
  match rest with
  | [] =>
    simp only [isMinimal, bne_iff_ne] at h
    simp only [size, List.length_nil, Bytes.bound]
    omega
  | [y] =>
    simp only [isMinimal, Bool.or_eq_true, bne_iff_ne, decide_eq_true_eq] at h
    simp only [size, List.length_singleton, Bytes.bound]
    omega
  | y :: z :: rest =>
    have ih : Bytes.bound (z :: rest).length ≤ 2 * size (y :: z :: rest) := bound_le_two_mul_size h
    rw [size, List.length_cons, Bytes.bound]
    omega

theorem natAbs_decode (b : Bytes) : (decode b).natAbs = size b := by
  unfold decode
  split <;> omega

theorem isNegative_eq {b : Bytes} (h : size b ≠ 0) : isNegative b = decide (decode b < 0) := by
  unfold decode
  cases isNegative b with
  | true =>
    rw [if_pos rfl]
    exact (decide_eq_true (by omega)).symm
  | false =>
    rw [if_neg Bool.false_ne_true]
    exact (decide_eq_false (by omega)).symm

theorem length_le_of_isMinimal {a b : Bytes} (ha : isMinimal a = true) (h : decode b = decode a) :
    a.length ≤ b.length := by
  cases a with
  | nil => exact Nat.zero_le _
  | cons x rest =>
    have hsize : size b = size (x :: rest) := by rw [← natAbs_decode, h, natAbs_decode]
    have hlow := bound_le_two_mul_size ha
    have hhigh := two_mul_size_lt b
    refine Nat.succ_le_of_lt (Nat.lt_of_not_le fun hle => ?_)
    have hb := Bytes.bound_le hle
    omega

/-! ## Only one minimal form -/

theorem ext_of_length {a b : Bytes} (hl : a.length = b.length) (hs : size a = size b)
    (hn : isNegative a = isNegative b) : a = b := by
  match a, b with
  | [], [] => rfl
  | [x], [y] =>
    have hx := x.toNat_lt
    have hy := y.toNat_lt
    simp only [size] at hs
    simp only [isNegative, decide_eq_decide] at hn
    have hxy : x = y := UInt8.toNat_inj.mp (by omega)
    rw [hxy]
  | x :: x' :: a, y :: y' :: b =>
    have hx := x.toNat_lt
    have hy := y.toNat_lt
    simp only [size] at hs
    have hxy : x = y := UInt8.toNat_inj.mp (by omega)
    have ih := ext_of_length (a := x' :: a) (b := y' :: b) (Nat.succ.inj hl) (by omega) hn
    rw [hxy, ih]

theorem eq_of_isMinimal {a b : Bytes} (ha : isMinimal a = true) (hb : isMinimal b = true)
    (h : decode a = decode b) : a = b := by
  have hl : a.length = b.length :=
    Nat.le_antisymm (length_le_of_isMinimal ha h.symm) (length_le_of_isMinimal hb h)
  have hs : size a = size b := by rw [← natAbs_decode, h, natAbs_decode]
  cases a with
  | nil => exact (List.length_eq_zero_iff.mp hl.symm).symm
  | cons x rest =>
    have hpos : size (x :: rest) ≠ 0 := by
      have hlow := bound_le_two_mul_size ha
      have hone : Bytes.bound 0 ≤ Bytes.bound rest.length := Bytes.bound_le (Nat.zero_le _)
      have hzero : Bytes.bound 0 = 1 := rfl
      omega
    refine ext_of_length hl hs ?_
    rw [isNegative_eq hpos, isNegative_eq (hs ▸ hpos), h]

/-! ## What is written is minimal -/

theorem isMinimal_addSign (negative : Bool) {m : Bytes} (h : m.getLast? ≠ some 0) :
    isMinimal (addSign negative m) = true := by
  match m with
  | [] => rfl
  | [x] =>
    have hx : x.toNat ≠ 0 := fun hx => h (congrArg some (UInt8.toNat_inj.mp hx))
    rw [addSign]
    split
    · rename_i htop
      have htop := signBit_set.mp htop
      simp [isMinimal, htop]
    · rename_i htop
      rw [signBit_set] at htop
      cases negative with
      | true =>
        simp only [if_true, isMinimal, toNat_or_signBit htop, bne_iff_ne]
        omega
      | false =>
        simp only [isMinimal, bne_iff_ne, Bool.false_eq_true, if_false]
        omega
  | x :: y :: rest =>
    have ih := isMinimal_addSign negative (m := y :: rest) (by simpa using h)
    rw [addSign]
    · exact isMinimal_cons x (addSign_ne_nil negative (by simp)) ih
    · exact List.cons_ne_nil y rest

theorem getLast?_magnitude (n : Nat) : (magnitude n).getLast? ≠ some 0 := by
  induction n using Nat.strongRecOn with
  | ind n ih =>
    rw [magnitude]
    split
    · simp
    · rename_i hn
      by_cases hd : n / 256 = 0
      · have hlt : n < 256 := by omega
        rw [magnitude_eq_nil.mpr hd, List.getLast?_singleton]
        intro he
        have hz := congrArg UInt8.toNat (Option.some.inj he)
        rw [UInt8.toNat_ofNat', Nat.mod_eq_of_lt hlt] at hz
        exact hn hz
      · obtain ⟨y, rest, hy⟩ := List.exists_cons_of_ne_nil (mt magnitude_eq_nil.mp hd)
        have hrest := ih (n / 256) (by omega)
        rw [hy] at hrest ⊢
        rwa [List.getLast?_cons_cons]

theorem isMinimal_encode (v : Int) : isMinimal (encode v) = true :=
  isMinimal_addSign _ (getLast?_magnitude _)

/-! ## Small numbers -/

theorem encode_of_lt {n : Nat} (hpos : 0 < n) (h : n < 128) : encode n = [UInt8.ofNat n] := by
  have hm : magnitude n = [UInt8.ofNat n] := by
    rw [magnitude, if_neg (by omega), magnitude_eq_nil.mpr (by omega)]
  have htop : ¬ (UInt8.ofNat n &&& 0x80 ≠ 0) := by
    rw [signBit_set, UInt8.toNat_ofNat', Nat.mod_eq_of_lt (by omega)]
    omega
  have hsign : decide ((n : Int) < 0) = false := decide_eq_false (by omega)
  rw [encode, Int.natAbs_natCast, hm, hsign, addSign, if_neg htop]
  rfl

theorem encode_neg_one : encode (-1) = [0x81] := by
  have hm : magnitude 1 = [1] := by
    rw [magnitude, if_neg (by decide), magnitude_eq_nil.mpr (by decide)]
    rfl
  rw [encode, show (-1 : Int).natAbs = 1 from rfl, hm]
  rfl

end ScriptNumber

/-- The bytes that an element is there to push: those of a push, and those of the opcodes for small
numbers, which stand for one byte or none. -/
def Element.pushed? : Element → Option Bytes
  | .push data => some data
  | .op code =>
    if code = Opcode.zero then some []
    else if code = Opcode.negativeOne then some [0x81]
    else if 0x51 ≤ code ∧ code ≤ 0x60 then some [code - 0x50]
    else none

theorem Opcode.exists_small {code : Opcode} (h : 0x51 ≤ code ∧ code ≤ 0x60) :
    ∃ n : Nat, (1 ≤ n ∧ n ≤ 16) ∧ code = .small n ∧ code - 0x50 = UInt8.ofNat n := by
  have hlow : 81 ≤ code.toNat := UInt8.le_iff_toNat_le.mp h.1
  have hhigh : code.toNat ≤ 96 := UInt8.le_iff_toNat_le.mp h.2
  obtain ⟨n, hn⟩ : ∃ n, code.toNat = 0x50 + n := ⟨code.toNat - 0x50, by omega⟩
  refine ⟨n, by omega, ?_, ?_⟩
  · rw [Opcode.small, ← hn, UInt8.ofNat_toNat]
  · have hbase : (0x50 : UInt8).toNat = 0x50 := rfl
    apply UInt8.toNat_inj.mp
    rw [UInt8.toNat_sub_of_le _ _ (UInt8.le_iff_toNat_le.mpr (by omega)), UInt8.toNat_ofNat',
      hbase]
    omega

namespace ScriptContext

theorem onStack_of_pushed? {c : ScriptContext} {code : Opcode} {data : Bytes}
    (h : (Element.op code).pushed? = some data) (s : List Bytes) :
    isStackOp code = true ∧ c.onStack code s = some (data :: s) := by
  unfold Element.pushed? at h
  dsimp only at h
  split at h
  · subst code
    cases h
    exact ⟨rfl, rfl⟩
  · split at h
    · subst code
      cases h
      have ho : c.onStack Opcode.negativeOne s = some (ScriptNumber.encode (-1) :: s) := rfl
      exact ⟨rfl, by rw [ho, ScriptNumber.encode_neg_one]⟩
    · split at h
      · rename_i hsmall
        cases h
        obtain ⟨n, hn, hcode, hbyte⟩ := Opcode.exists_small hsmall
        obtain ⟨hop, ho⟩ := onStack_small (c := c) (s := s) (n := n) (by omega)
        rw [Int.toNat_natCast] at hop ho
        rw [hbyte, hcode]
        exact ⟨hop, by rw [ho, ScriptNumber.encode_of_lt (by omega) (by omega)]⟩
      · cases h

/-- Wherever it is executed, the element puts the bytes that it is there to push on the stack. -/
theorem step_of_pushed? (c : ScriptContext) {e : Element} {data : Bytes} (h : e.pushed? = some data)
    {m : Machine} (hm : m.executing = true) :
    c.step e m = some { m with stack := data :: m.stack } := by
  obtain ⟨s, a, b⟩ := m
  cases e with
  | push d =>
    obtain rfl : d = data := Option.some.inj h
    rw [step, if_pos hm]
  | op code =>
    obtain ⟨hop, ho⟩ := onStack_of_pushed? (c := c) h s
    rw [step_stackOp hop hm, ho]
    rfl

end ScriptContext

theorem Element.pushed?_ofInt (v : Int) : (ofInt v).pushed? = some (ScriptNumber.encode v) := by
  unfold ofInt
  split
  · subst v
    rw [ScriptNumber.encode_zero]
    rfl
  · split
    · subst v
      rw [ScriptNumber.encode_neg_one]
      rfl
    · split
      · rename_i hsmall
        obtain ⟨n, rfl⟩ := Int.eq_ofNat_of_zero_le (show 0 ≤ v by omega)
        have hcodes : ∀ k < 17, 1 ≤ k →
            (Element.op (.small k)).pushed? = some [UInt8.ofNat k] := by decide
        rw [Int.toNat_natCast, hcodes n (by omega) (by omega),
          ScriptNumber.encode_of_lt (by omega) (by omega)]
      · rfl

namespace ScriptNumber

/-- What is written for a number is read as that number. It is minimal, no shorter byte string is
read as the number, no other minimal one is, and it is what the element that pushes the number leaves
on the stack. -/
theorem encode_only_minimal (v : Int) :
    decode (encode v) = v ∧ isMinimal (encode v) = true ∧
      (∀ b : Bytes, b.length < (encode v).length → decode b ≠ v) ∧
      (∀ b : Bytes, isMinimal b = true → decode b = v → b = encode v) ∧
      (Element.ofInt v).pushed? = some (encode v) ∧
      ∀ (c : ScriptContext) (m : Machine), m.executing = true →
        c.step (.ofInt v) m = some { m with stack := encode v :: m.stack } := by
  have hm := isMinimal_encode v
  have hp := Element.pushed?_ofInt v
  refine ⟨decode_encode v, hm, fun b hb hv => ?_, fun b hb hv => ?_, hp, fun c m => ?_⟩
  · have hle := length_le_of_isMinimal hm (hv.trans (decode_encode v).symm)
    omega
  · exact eq_of_isMinimal hb hm (hv.trans (decode_encode v).symm)
  · exact c.step_of_pushed? hp

/-- The size of the preimages that are asked for takes one byte, and a sign byte is added from 128
on. -/
example : encode 32 = [0x20] ∧ encode 128 = [0x80, 0x00] ∧ encode (-255) = [0xff, 0x80] := by
  refine ⟨?_, ?_, ?_⟩ <;> simp [encode, magnitude, addSign] <;> decide

end ScriptNumber
end Taproot
