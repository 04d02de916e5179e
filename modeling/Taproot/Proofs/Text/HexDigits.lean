import Taproot.Text.Hex

/-! # Hex digits

Hex digits are ASCII characters and no blanks, and an even number of them is read as bytes.
-/
namespace Taproot.Text

theorem of_ascii {P : Char → Prop} (h : ∀ n < 128, P (Char.ofNat n)) {c : Char}
    (hc : c.toNat < 128) : P c := by
  rw [← Char.ofNat_toNat c]
  exact h c.toNat hc

theorem toNat_lt_of_le {c a : Char} (h : c.val ≤ a.val) (ha : a.toNat < 128) : c.toNat < 128 :=
  Nat.lt_of_le_of_lt (UInt32.le_iff_toNat_le.mp h) ha

theorem toNat_lt_of_hexValue? {c : Char} (h : (hexValue? c).isSome = true) : c.toNat < 128 := by
  unfold hexValue? at h
  split at h
  · rename_i hd
    exact toNat_lt_of_le hd.2 (by decide)
  · split at h
    · rename_i hd
      exact toNat_lt_of_le hd.2 (by decide)
    · split at h
      · rename_i hd
        exact toNat_lt_of_le hd.2 (by decide)
      · cases h

theorem isAsciiBlank_of_hexValue? {c : Char} (h : (hexValue? c).isSome = true) :
    isAsciiBlank c = false :=
  of_ascii (P := fun c => (hexValue? c).isSome = true → isAsciiBlank c = false)
    (by decide +kernel) (toNat_lt_of_hexValue? h) h

/-- Hex digits in pairs are bytes. -/
theorem exists_readHex {n : Nat} {cs : List Char} (hl : cs.length = 2 * n)
    (hc : ∀ c ∈ cs, (hexValue? c).isSome = true) :
    ∃ b, readHex cs = some b ∧ b.length = n := by
  induction n generalizing cs with
  | zero =>
    obtain rfl := List.length_eq_zero_iff.mp hl
    exact ⟨[], rfl, rfl⟩
  | succ n ih =>
    match cs, hl with
    | c :: d :: cs, hl =>
      obtain ⟨b, hb, hn⟩ := @ih cs (by simpa [Nat.mul_succ] using hl)
        fun e he => hc e (List.mem_cons_of_mem c (List.mem_cons_of_mem d he))
      obtain ⟨hi, hhi⟩ := Option.isSome_iff_exists.mp (hc c List.mem_cons_self)
      obtain ⟨lo, hlo⟩ := Option.isSome_iff_exists.mp
        (hc d (List.mem_cons_of_mem c List.mem_cons_self))
      refine ⟨UInt8.ofNat (16 * hi + lo) :: b, ?_, by simp [hn]⟩
      rw [readHex, isAsciiBlank_of_hexValue? (hc c List.mem_cons_self), hhi, hlo, hb]
      rfl

end Taproot.Text
