import Taproot.Proofs.Text.HexDigits
import Taproot.Text.HexText

/-! # Hex texts and their bytes

A hex text that came in has no capitals, and without the blanks between its bytes it is what its
bytes are written as. So it is told from other texts of the same bytes by its blanks alone.
-/
namespace Taproot.Text

def isCapital (c : Char) : Bool := 0x41 ≤ c.toNat && c.toNat ≤ 0x5a

/-! ## Lower case -/

theorem isCapital_of_lt {c : Char} (h : 0x5a < c.toNat) : isCapital c = false := by
  simp [isCapital]
  omega

theorem isCapital_ofNat {n : Nat} (h : 0x5a < n) : isCapital (Char.ofNat n) = false := by
  by_cases hn : n.isValidChar
  · have he : Char.ofNat n = Char.ofNatAux n hn := dif_pos hn
    rw [he]
    exact isCapital_of_lt h
  · have he : Char.ofNat n = '\x00' := dif_neg hn
    rw [he]
    rfl

set_option maxRecDepth 3000 in
/-- No run moves a letter down to the capitals. -/
theorem lowerRuns_past_capitals : ∀ r ∈ lowerRuns, 0x5a < (r.first : Int) + r.distance := by
  decide

theorem isCapital_lowerLetter (c : Char) : isCapital (lowerLetter c) = false := by
  unfold lowerLetter
  split
  · rename_i h
    exact of_ascii (P := fun c => isCapital c.toLower = false) (by decide) h
  · rename_i h
    split
    · rename_i r hr
      have hpast := lowerRuns_past_capitals r (List.mem_of_find?_eq_some hr)
      have hhas := List.find?_some hr
      simp only [LowerRun.has, Bool.and_eq_true, decide_eq_true_eq] at hhas
      exact isCapital_ofNat (by omega)
    · exact isCapital_of_lt (by omega)

theorem isCapital_lowerFrom (before cs : List Char) :
    ∀ c ∈ lowerFrom before cs, isCapital c = false := by
  induction cs generalizing before with
  | nil => exact nofun
  | cons d cs ih =>
    intro c hc
    rw [lowerFrom] at hc
    rcases List.mem_append.mp hc with hc | hc
    · split at hc
      · obtain rfl := List.mem_singleton.mp hc
        unfold lowerSigma
        split <;> rfl
      · split at hc
        · rcases List.mem_cons.mp hc with rfl | hc
          · rfl
          · obtain rfl := List.mem_singleton.mp hc
            rfl
        · obtain rfl := List.mem_singleton.mp hc
          exact isCapital_lowerLetter d
    · exact ih _ c hc

theorem toLower_eq_self {c : Char} (hc : c.toNat < 128) (hl : isCapital c = false) :
    c.toLower = c :=
  of_ascii (P := fun c => isCapital c = false → c.toLower = c) (by decide) hc hl

theorem lowerFrom_eq_self {cs : List Char} (h : ∀ c ∈ cs, c.toNat < 128 ∧ isCapital c = false)
    (before : List Char) : lowerFrom before cs = cs := by
  induction cs generalizing before with
  | nil => rfl
  | cons c cs ih =>
    obtain ⟨hc, hl⟩ := h c List.mem_cons_self
    have hsigma : c ≠ 'Σ' := by
      rintro rfl
      exact absurd hc (by decide)
    have hdotted : c ≠ 'İ' := by
      rintro rfl
      exact absurd hc (by decide)
    have hletter : lowerLetter c = c := by rw [lowerLetter, if_pos hc, toLower_eq_self hc hl]
    rw [lowerFrom, if_neg hsigma, if_neg hdotted, hletter,
      ih fun d hd => h d (List.mem_cons_of_mem c hd)]
    rfl

/-! ## Bytes without blanks -/

/-- A digit that is no capital is the one that its value is written as. -/
theorem hexDigit_of_hexValue? {c : Char} {n : Nat} (h : hexValue? c = some n)
    (hc : isCapital c = false) : n < 16 ∧ Bytes.hexDigit n = c := by
  have hs : (hexValue? c).isSome = true := by rw [h]; rfl
  have hd := of_ascii (P := fun c => isCapital c = false →
      ∀ m ∈ hexValue? c, m < 16 ∧ Bytes.hexDigit m = c)
    (by decide) (toNat_lt_of_hexValue? hs) hc
  exact hd n h

/-- The characters that are read are digits and blanks. -/
theorem digit_or_blank {cs : List Char} {b : Bytes} (h : readHex cs = some b) :
    ∀ c ∈ cs, isAsciiBlank c = true ∨ (hexValue? c).isSome = true := by
  fun_induction readHex cs generalizing b with
  | case1 => exact nofun
  | case2 c hc =>
    intro d hd
    obtain rfl := List.mem_singleton.mp hd
    exact .inl hc
  | case3 => cases h
  | case4 c d rest hc ih =>
    intro e he
    rcases List.mem_cons.mp he with rfl | he
    · exact .inl hc
    · exact ih h e he
  | case5 c d rest hc hi lo hlo hhi ih =>
    obtain ⟨b', hb, -⟩ := Option.map_eq_some_iff.mp h
    intro e he
    rcases List.mem_cons.mp he with rfl | he
    · exact .inr (by rw [hhi]; rfl)
    · rcases List.mem_cons.mp he with rfl | he
      · exact .inr (by rw [hlo]; rfl)
      · exact ih hb e he
  | case6 => cases h

/-- Without its blanks a text in lower case is what its bytes are written as. -/
theorem filter_eq_hexChars {cs : List Char} {b : Bytes} (h : readHex cs = some b)
    (hc : ∀ c ∈ cs, isCapital c = false) :
    (cs.filter fun c => !isAsciiBlank c) = b.hexChars := by
  fun_induction readHex cs generalizing b with
  | case1 =>
    obtain rfl := Option.some.inj h
    rfl
  | case2 c hb =>
    obtain rfl := Option.some.inj h
    rw [List.filter_cons_of_neg (by simp [hb])]
    rfl
  | case3 => cases h
  | case4 c d rest hb ih =>
    rw [List.filter_cons_of_neg (by simp [hb])]
    exact ih h fun e he => hc e (List.mem_cons_of_mem c he)
  | case5 c d rest hb hi lo hlo hhi ih =>
    obtain ⟨b', hb', rfl⟩ := Option.map_eq_some_iff.mp h
    have hd := isAsciiBlank_of_hexValue? (c := d) (by rw [hlo]; rfl)
    obtain ⟨hi16, hic⟩ := hexDigit_of_hexValue? hhi (hc c (by simp))
    obtain ⟨lo16, hlc⟩ := hexDigit_of_hexValue? hlo (hc d (by simp))
    have hn : (UInt8.ofNat (16 * hi + lo)).toNat = 16 * hi + lo := by
      rw [UInt8.toNat_ofNat']
      omega
    have hrest := ih hb' fun e he => hc e (by simp [he])
    rw [List.filter_cons_of_pos (by simp [hb]), List.filter_cons_of_pos (by simp [hd]), hrest,
      Bytes.hexChars, Bytes.hexChars, List.flatMap_cons, Bytes.hexPair, hn,
      show (16 * hi + lo) / 16 = hi by omega, show (16 * hi + lo) % 16 = lo by omega, hic, hlc]
    rfl
  | case6 => cases h

theorem toNat_lt_of_readHex {cs : List Char} {b : Bytes} (h : readHex cs = some b) :
    ∀ c ∈ cs, c.toNat < 128 := by
  intro c hc
  rcases digit_or_blank h c hc with hb | hd
  · simp only [isAsciiBlank, Bool.or_eq_true, Bool.and_eq_true, decide_eq_true_eq, beq_iff_eq] at hb
    omega
  · exact toNat_lt_of_hexValue? hd

end Taproot.Text

namespace Taproot.HexText

/-- The text has no capitals, as texts have that came in. -/
def Lowercase (h : HexText) : Prop := ∀ c ∈ h.text.toList, Text.isCapital c = false

/-- There are no blanks between the bytes. -/
def Unspaced (h : HexText) : Prop := ∀ c ∈ h.text.toList, Text.isAsciiBlank c = false

/-- The text is taken as it stands, where it is given again. -/
def Accepted (h : HexText) : Prop := ofString h.text = .ok h

theorem readHex_text (h : HexText) : Text.readHex h.text.toList = some h.bytes := by
  rw [bytes, Option.some_get]

theorem lowercase_ofString {s : String} {h : HexText} (hs : ofString s = .ok h) : h.Lowercase := by
  unfold ofString at hs
  dsimp only at hs
  split at hs
  · cases hs
  · split at hs
    · cases hs
      intro c hc
      refine Text.isCapital_lowerFrom [] s.toList c ?_
      simpa [Text.lower] using hc
    · cases hs

theorem Accepted.lowercase {h : HexText} (ha : h.Accepted) : h.Lowercase := lowercase_ofString ha

theorem text_ofString {s : String} {h : HexText} (hs : ofString s = .ok h) :
    h.text = Text.lower s := by
  unfold ofString at hs
  dsimp only at hs
  split at hs
  · cases hs
  · split at hs
    · cases hs
      rfl
    · cases hs

theorem length_bytes_ofString {s : String} {h : HexText} (hs : ofString s = .ok h) :
    h.bytes.length = 32 := by
  unfold ofString at hs
  dsimp only at hs
  split at hs
  · cases hs
  · rename_i b hb
    split at hs
    · rename_i hl
      cases hs
      simpa [bytes, hb] using hl
    · cases hs

theorem lower_text {h : HexText} (hl : h.Lowercase) : Text.lower h.text = h.text := by
  have hascii := Text.toNat_lt_of_readHex h.readHex_text
  rw [Text.lower, Text.lowerFrom_eq_self fun c hc => ⟨hascii c hc, hl c hc⟩, String.ofList_toList]

/-- A text in lower case that stands for 32 bytes is taken as it stands. -/
theorem accepted_of_lowercase {h : HexText} (hl : h.Lowercase) (hb : h.bytes.length = 32) :
    h.Accepted := by
  have hlower := lower_text hl
  have hread : Text.readHex (Text.lower h.text).toList = some h.bytes := by
    rw [hlower, h.readHex_text]
  unfold Accepted ofString
  dsimp only
  split
  · rename_i hn
    rw [hread] at hn
    cases hn
  · rename_i b hs
    obtain rfl := Option.some.inj (hread.symm.trans hs)
    rw [if_pos hb]
    obtain ⟨text, hreadable⟩ := h
    simp only [Except.ok.injEq, HexText.mk.injEq]
    exact hlower

theorem accepted_ofString {s : String} {h : HexText} (hs : ofString s = .ok h) : h.Accepted :=
  accepted_of_lowercase (lowercase_ofString hs) (length_bytes_ofString hs)

/-- What bytes are written as are digits. -/
theorem exists_hexDigit_eq {b : Bytes} {c : Char} (h : c ∈ (ofBytes b).text.toList) :
    ∃ n < 16, Bytes.hexDigit n = c := by
  rw [text_ofBytes, Bytes.hex, String.toList_ofList] at h
  obtain ⟨x, -, hx⟩ := List.mem_flatMap.mp h
  have hlt := x.toNat_lt
  rcases List.mem_cons.mp hx with rfl | hx
  · exact ⟨_, by omega, rfl⟩
  · obtain rfl := List.mem_singleton.mp hx
    exact ⟨_, by omega, rfl⟩

theorem lowercase_ofBytes (b : Bytes) : (ofBytes b).Lowercase := by
  intro c hc
  obtain ⟨n, hn, rfl⟩ := exists_hexDigit_eq hc
  have hd : ∀ n < 16, Text.isCapital (Bytes.hexDigit n) = false := by decide
  exact hd n hn

theorem accepted_ofBytes {b : Bytes} (hb : b.length = 32) : (ofBytes b).Accepted :=
  accepted_of_lowercase (lowercase_ofBytes b) (by rw [bytes_ofBytes, hb])

theorem unspaced_ofBytes (b : Bytes) : (ofBytes b).Unspaced := by
  intro c hc
  obtain ⟨n, hn, rfl⟩ := exists_hexDigit_eq hc
  have hd : ∀ n < 16, Text.isAsciiBlank (Bytes.hexDigit n) = false := by decide
  exact hd n hn

/-- Without its blanks the text is what its bytes are written as. -/
theorem filter_text {h : HexText} (hl : h.Lowercase) :
    (h.text.toList.filter fun c => !Text.isAsciiBlank c) = h.bytes.hexChars :=
  Text.filter_eq_hexChars h.readHex_text hl

theorem text_eq_hex {h : HexText} (hl : h.Lowercase) (hu : h.Unspaced) : h.text = h.bytes.hex := by
  have hf : (h.text.toList.filter fun c => !Text.isAsciiBlank c) = h.text.toList := by
    rw [List.filter_eq_self]
    intro c hc
    rw [hu c hc]
    rfl
  rw [filter_text hl] at hf
  rw [Bytes.hex, hf, String.ofList_toList]

/-- Texts without blanks are told apart by their bytes. -/
theorem text_inj {h h' : HexText} (hl : h.Lowercase) (hu : h.Unspaced) (hl' : h'.Lowercase)
    (hu' : h'.Unspaced) (he : h.bytes = h'.bytes) : h.text = h'.text := by
  rw [text_eq_hex hl hu, text_eq_hex hl' hu', he]

theorem colon_notMem (h : HexText) : ':' ∉ h.text.toList := by
  intro hc
  have hd : Text.isAsciiBlank ':' = false ∧ Text.hexValue? ':' = none := by decide
  rcases Text.digit_or_blank h.readHex_text ':' hc with hb | hb
  · rw [hd.1] at hb
    cases hb
  · rw [hd.2] at hb
    cases hb

end Taproot.HexText
