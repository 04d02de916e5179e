import Mathlib.Algebra.Order.Ring.Nat
import Mathlib.Data.List.TakeDrop
import Taproot.Text.TypedInteger

/-! # Numerals that are written

The numeral that is written for an integer is read as that integer, where it is not too long, and
what is read from a text has a numeral that is not too long.
-/
namespace Taproot.Text

theorem isDigit_sub_lt {c : Char} (h : c.isDigit = true) : c.toNat - '0'.toNat < 10 := by
  simp only [Char.isDigit, Bool.and_eq_true, decide_eq_true_eq] at h
  have h9 : c.toNat ≤ '9'.toNat := UInt32.le_iff_toNat_le.mp h.2
  have : '9'.toNat = 57 := rfl
  have : '0'.toNat = 48 := rfl
  omega

theorem ofDigits_lt {cs : List Char} (h : ∀ c ∈ cs, c.isDigit = true) :
    ofDigits cs < 10 ^ cs.length := by
  induction cs with
  | nil => decide
  | cons c cs ih =>
    have hc := isDigit_sub_lt (h c List.mem_cons_self)
    have hcs := ih fun d hd => h d (List.mem_cons_of_mem c hd)
    rw [ofDigits] at hcs ⊢
    rw [Nat.ofDigitChars_cons, Nat.ofDigitChars_eq_ofDigitChars_zero, List.length_cons,
      Nat.pow_succ]
    have hm : 10 ^ cs.length * (10 * 0 + (c.toNat - '0'.toNat)) ≤ 10 ^ cs.length * 9 :=
      Nat.mul_le_mul_left _ (by omega)
    omega

theorem ofDigits_toDigits (n : Nat) : ofDigits (Nat.toDigits 10 n) = n :=
  Nat.ofDigitChars_ten_toDigits

theorem isDigit_of_mem_toDigits {n : Nat} {c : Char} (h : c ∈ Nat.toDigits 10 n) :
    c.isDigit = true := Nat.isDigit_of_mem_toDigits (by decide) (by decide) h

/-- No zero stands in front of other digits. -/
theorem toDigits_ne_zero_cons (n : Nat) (c : Char) (cs : List Char) :
    Nat.toDigits 10 n ≠ '0' :: c :: cs := by
  induction n using Nat.strongRecOn generalizing c cs with
  | ind n ih =>
    by_cases hn : n < 10
    · rw [Nat.toDigits_of_lt_base hn]
      simp
    · intro h
      have hlast := Nat.toDigits_of_base_le (b := 10) (n := n) (by decide) (by omega)
      rw [hlast] at h
      cases hd : Nat.toDigits 10 (n / 10) with
      | nil => simp at hd
      | cons d ds =>
        rw [hd, List.cons_append] at h
        obtain ⟨rfl, hds⟩ := List.cons.inj h
        cases ds with
        | nil =>
          have hz : n / 10 = 0 := by
            have he := ofDigits_toDigits (n / 10)
            rw [hd] at he
            exact he.symm
          omega
        | cons e es => exact ih (n / 10) (by omega) e es hd

/-! ## Signs and digits -/

/-- The sign that is written before the digits. -/
def signChars (negative : Bool) : List Char := if negative then ['-'] else []

/-- What is written for an integer is a sign and the digits of its magnitude. -/
theorem exists_magnitude (n : Int) : ∃ negative m, signed negative m = n ∧
    (toString n).toList = signChars negative ++ Nat.toDigits 10 m := by
  cases n with
  | ofNat m => exact ⟨false, m, rfl, Nat.toList_repr⟩
  | negSucc m =>
    refine ⟨true, m + 1, rfl, ?_⟩
    change ("-" ++ Nat.repr (m + 1)).toList = _
    rw [String.toList_append, Nat.toList_repr]
    rfl

/-- Splits off a minus sign. -/
def splitMinus (cs : List Char) : Bool × List Char :=
  match cs with
  | '-' :: rest => (true, rest)
  | _ => (false, cs)

theorem splitMinus_signChars {negative : Bool} {cs : List Char}
    (hd : ∀ c ∈ cs.head?, c.isDigit = true) :
    splitMinus (signChars negative ++ cs) = (negative, cs) := by
  cases negative with
  | true => rfl
  | false =>
    change splitMinus cs = (false, cs)
    unfold splitMinus
    split
    · cases hd '-' rfl
    · rfl

/-- Different integers are written differently. -/
theorem toString_inj {m n : Int} (h : toString m = toString n) : m = n := by
  obtain ⟨negative, a, rfl, ha⟩ := exists_magnitude m
  obtain ⟨negative', b, rfl, hb⟩ := exists_magnitude n
  have hdigits (k : Nat) : ∀ c ∈ (Nat.toDigits 10 k).head?, c.isDigit = true :=
    fun c hc => isDigit_of_mem_toDigits (List.mem_of_mem_head? hc)
  rw [h, hb] at ha
  have hsplit := congrArg splitMinus ha
  rw [splitMinus_signChars (hdigits a), splitMinus_signChars (hdigits b)] at hsplit
  obtain ⟨rfl, hab⟩ := Prod.mk.inj hsplit
  have hvalue := congrArg ofDigits hab
  rw [ofDigits_toDigits, ofDigits_toDigits] at hvalue
  rw [hvalue]

theorem readNumeral_eq (cs : List Char) : readNumeral cs =
    match takeNumeral digitLimit (splitMinus cs).1 (splitMinus cs).2 with
    | .error e => .error e
    | .ok (ds, []) => .ok (signed (splitMinus cs).1 (ofDigits ds))
    | .ok _ => .error .malformed := rfl

/-- Digits do not go on in what follows. -/
def Ended (rest : List Char) : Prop := ∀ c ∈ rest.head?, c.isDigit = false

theorem span_digits {ds rest : List Char} (hd : ∀ c ∈ ds, c.isDigit = true) (hr : Ended rest) :
    (ds ++ rest).span Char.isDigit = (ds, rest) := by
  rw [List.span_eq_takeWhile_dropWhile, List.takeWhile_append_of_pos hd,
    List.dropWhile_append_of_pos hd]
  cases rest with
  | nil => simp
  | cons c rest => simp [hr c rfl]

theorem takeNumeral_toDigits {limit m : Nat} {negative : Bool} {rest : List Char}
    (hl : (Nat.toDigits 10 m).length + negative.toNat ≤ limit) (hr : Ended rest) :
    takeNumeral limit negative (Nat.toDigits 10 m ++ rest) = .ok (Nat.toDigits 10 m, rest) := by
  unfold takeNumeral
  rw [span_digits (fun c hc => isDigit_of_mem_toDigits hc) hr]
  dsimp only
  split
  · rename_i h
    simp at h
  · rename_i c cs h
    exact absurd h (toDigits_ne_zero_cons m c cs)
  · rw [if_neg (by omega)]

theorem takeNumeral_eq_ok {limit : Nat} {negative : Bool} {cs ds rest : List Char}
    (h : takeNumeral limit negative cs = .ok (ds, rest)) :
    (∀ c ∈ ds, c.isDigit = true) ∧ ds ≠ [] ∧ ds.length + negative.toNat ≤ limit := by
  unfold takeNumeral at h
  rw [List.span_eq_takeWhile_dropWhile] at h
  dsimp only at h
  split at h
  · cases h
  · cases h
  · rename_i hne _
    split at h
    · cases h
    · rename_i hle
      obtain ⟨rfl, -⟩ := Prod.mk.inj (Except.ok.inj h)
      exact ⟨fun c hc => List.all_eq_true.mp List.all_takeWhile c hc, hne, by omega⟩

/-! ## Short integers -/

/-- The numeral is not too long to be read. -/
def Short (n : Int) : Prop := (toString n).length ≤ digitLimit

theorem length_toString_signed_le {negative : Bool} {m k : Nat} (hk : 0 < k) (hm : m < 10 ^ k) :
    (toString (signed negative m)).length ≤ k + negative.toNat := by
  have hd : (Nat.toDigits 10 m).length ≤ k := (Nat.length_toDigits_le_iff (by decide) hk).mpr hm
  have hpositive : (toString (m : Int)).length = (Nat.toDigits 10 m).length := by
    rw [← String.length_toList]
    exact congrArg List.length Nat.toList_repr
  cases negative with
  | false =>
    change (toString (m : Int)).length ≤ k + 0
    omega
  | true =>
    cases m with
    | zero =>
      change (toString (0 : Int)).length ≤ k + 1
      change 1 ≤ k + 1
      omega
    | succ m =>
      have hnegative :
          (toString (Int.negSucc m)).length = (Nat.toDigits 10 (m + 1)).length + 1 := by
        rw [← Nat.toList_repr, String.length_toList, Nat.add_comm]
        exact String.length_append "-" _
      change (toString (Int.negSucc m)).length ≤ k + 1
      omega

theorem short_of_lt {n : Nat} (h : n < 10 ^ 20) : Short n := by
  have hl : (toString (signed false n)).length ≤ 20 + 0 := length_toString_signed_le (by decide) h
  exact Nat.le_trans hl (by decide)

theorem short_of_readNumeral {cs : List Char} {n : Int} (h : readNumeral cs = .ok n) : Short n := by
  rw [readNumeral_eq] at h
  generalize (splitMinus cs).1 = negative at h
  split at h
  · cases h
  · rename_i ds ht
    obtain ⟨hd, hne, hl⟩ := takeNumeral_eq_ok ht
    obtain rfl := Except.ok.inj h
    exact Nat.le_trans (length_toString_signed_le (List.length_pos_iff.mpr hne) (ofDigits_lt hd)) hl
  · cases h

/-- What is read from a text may be written again. -/
theorem short_of_readInteger {s : String} {n : Int} (h : readInteger s = .ok n) : Short n := by
  unfold readInteger at h
  split at h
  · rename_i hn
    exact short_of_readNumeral (hn.trans h)
  · cases h
  · split at h
    · rename_i hn
      obtain ⟨cs, -, hcs⟩ := Option.map_eq_some_iff.mp hn
      exact short_of_readNumeral (hcs.trans h)
    · cases h

theorem signed_eq_natCast {negative : Bool} {m n : Nat} (h : signed negative m = n) : m = n := by
  unfold signed at h
  split at h <;> omega

/-- A typed number that is not negative may be written to a file. -/
theorem short_of_readTyped? {s : String} {n : Nat} (h : readTyped? s = some (n : Int)) :
    Short n := by
  obtain ⟨cs, -, h⟩ := Option.bind_eq_some_iff.mp h
  split at h
  · rename_i hcs
    simp only [Bool.and_eq_true, decide_eq_true_eq, isNumeral, List.all_eq_true] at hcs
    obtain ⟨⟨-, hd⟩, hl⟩ := hcs
    obtain rfl := signed_eq_natCast (Option.some.inj h)
    have hlt : ofDigits cs < 10 ^ digitLimit :=
      Nat.lt_of_lt_of_le (ofDigits_lt hd) (Nat.pow_le_pow_right (by decide) hl)
    have hlimit : 0 < digitLimit := by decide
    have hle : (toString (signed false (ofDigits cs))).length ≤ digitLimit + 0 :=
      length_toString_signed_le hlimit hlt
    exact hle
  · cases h

theorem length_toString_signed {negative : Bool} {m : Nat}
    (ht : (toString (signed negative m)).toList = signChars negative ++ Nat.toDigits 10 m) :
    (toString (signed negative m)).length = (Nat.toDigits 10 m).length + negative.toNat := by
  rw [← String.length_toList, ht, List.length_append, Nat.add_comm]
  cases negative <;> rfl

theorem readNumeral_magnitude {negative : Bool} {m : Nat}
    (hl : (Nat.toDigits 10 m).length + negative.toNat ≤ digitLimit) :
    readNumeral (signChars negative ++ Nat.toDigits 10 m) = .ok (signed negative m) := by
  have hend : Ended [] := nofun
  have ht := takeNumeral_toDigits hl hend
  rw [List.append_nil] at ht
  rw [readNumeral_eq, splitMinus_signChars fun c hc =>
    isDigit_of_mem_toDigits (List.mem_of_mem_head? hc)]
  dsimp only
  rw [ht]
  dsimp only
  rw [ofDigits_toDigits]

/-- What is written for an integer is read as that integer. -/
theorem readInteger_toString {n : Int} (h : Short n) : readInteger (toString n) = .ok n := by
  obtain ⟨negative, m, rfl, ht⟩ := exists_magnitude n
  have hl : (Nat.toDigits 10 m).length + negative.toNat ≤ digitLimit :=
    length_toString_signed ht ▸ h
  unfold readInteger
  rw [ht, readNumeral_magnitude hl]

/-! ## Integers that are written -/

theorem isWritable_natCast {n : Nat} : isWritable n = true ↔ n < 10 ^ digitLimit := by
  rw [isWritable, decide_eq_true_eq, Int.natAbs_natCast, Nat.pow_eq]

theorem isWritable_of_le {m n : Nat} (h : m ≤ n) (hn : isWritable n = true) :
    isWritable m = true :=
  isWritable_natCast.mpr (Nat.lt_of_le_of_lt h (isWritable_natCast.mp hn))

theorem isWritable_of_lt {n : Nat} (h : n < 10 ^ 20) : isWritable n = true := by
  have hlimit : 20 ≤ digitLimit := by decide
  have hpow : 10 ^ 20 ≤ 10 ^ digitLimit := Nat.pow_le_pow_right (by decide) hlimit
  exact isWritable_natCast.mpr (Nat.lt_of_lt_of_le h hpow)

end Taproot.Text
