import Taproot.Proofs.Descriptor.RoundTrip

/-! # Blanks beside tokens

Blanks can be put in front of tokens, behind them and between them, at as many places as one likes.
The tokens move, but their words stay, and a descriptor is read from its words alone.
-/
namespace Taproot.Descriptor

/-- No token of the text stands on both sides of the place. -/
def IsBeside (place : Nat) (cs : List Char) : Prop :=
  ∀ t ∈ Token.scan cs, t.position + t.chars.length ≤ place ∨ place ≤ t.position

instance (place : Nat) (cs : List Char) : Decidable (IsBeside place cs) :=
  List.decidableBAll (fun t : Token => t.position + t.chars.length ≤ place ∨ place ≤ t.position)
    (Token.scan cs)

instance (cs : List Char) : Decidable (IsGap cs) :=
  List.decidableBAll (fun c => Text.isBlank c = true) cs

/-- The second text has a gap more than the first one, beside its tokens. -/
inductive Widens : List Char → List Char → Prop
  | insert {front gap behind : List Char} : IsGap gap →
    IsBeside front.length (front ++ behind) → Widens (front ++ behind) (front ++ (gap ++ behind))

/-- Any number of gaps, one after the other. -/
abbrev Respaced : List Char → List Char → Prop := Relation.ReflTransGen Widens

variable {cs cs' front behind gap : List Char} {c : Char}

theorem Widens.at (cs : List Char) {place : Nat} (hg : IsGap gap)
    (hb : IsBeside (cs.take place).length cs) :
    Widens cs (cs.take place ++ (gap ++ cs.drop place)) := by
  have hcs : cs.take place ++ cs.drop place = cs := List.take_append_drop place cs
  have h : Widens (cs.take place ++ cs.drop place) (cs.take place ++ (gap ++ cs.drop place)) :=
    .insert hg (by rwa [hcs])
  rwa [hcs] at h

/-! ## Places beside tokens -/

theorem exists_run (cs : List Char) : ∃ w rest, cs = w ++ rest ∧ w.all Token.isNameChar = true ∧
    EndsName rest ∧ (w = [] → EndsName cs) := by
  refine ⟨cs.takeWhile Token.isNameChar, cs.dropWhile Token.isNameChar,
    List.takeWhile_append_dropWhile.symm, List.all_takeWhile, endsName_dropWhile cs, fun h => ?_⟩
  have hcs : cs.takeWhile Token.isNameChar ++ cs.dropWhile Token.isNameChar = cs :=
    List.takeWhile_append_dropWhile
  rw [h, List.nil_append] at hcs
  rw [← hcs]
  exact endsName_dropWhile cs

/-- Where no token goes on, no name does: the run of name characters on both sides would be one. -/
theorem IsBeside.isCut (h : IsBeside front.length (front ++ behind)) : IsCut front behind := by
  obtain ⟨l, before, hl, hlc, hbefore, hln⟩ := exists_run front.reverse
  obtain ⟨r, after, rfl, hrc, hafter, hrn⟩ := exists_run behind
  obtain rfl : front = before.reverse ++ l.reverse := by
    rw [← List.reverse_reverse front, hl, List.reverse_append]
  by_cases hle : l = []
  · exact Or.inl (hln hle)
  by_cases hre : r = []
  · exact Or.inr (hrn hre)
  have hname : IsName (l.reverse ++ r) := ⟨by simp [hre], by simp [hlc, hrc]⟩
  have hrun : IsTokenOf ((before.reverse ++ l.reverse) ++ (r ++ after))
      ⟨l.reverse ++ r, before.reverse.length⟩ :=
    .name (by simp) hname (by rwa [List.reverse_reverse]) hafter
  have hplace := h _ (mem_scan_iff.mpr hrun)
  have hl0 := List.length_pos_iff.mpr hle
  have hr0 := List.length_pos_iff.mpr hre
  simp only [List.length_append, List.length_reverse] at hplace
  omega

/-! ## Words of respaced texts -/

theorem Widens.map_chars_scan (h : Widens cs cs') :
    (Token.scan cs').map Token.chars = (Token.scan cs).map Token.chars := by
  cases h with
  | insert hg hb => exact map_chars_scan_insert hb.isCut hg

theorem Respaced.map_chars_scan (h : Respaced cs cs') :
    (Token.scan cs').map Token.chars = (Token.scan cs).map Token.chars := by
  induction h with
  | refl => rfl
  | tail _ hw ih => rw [hw.map_chars_scan, ih]

/-- The words of a text tell which characters it has besides blanks. -/
theorem mem_iff_mem_words (hc : Text.isBlank c = false) :
    c ∈ cs ↔ c ∈ ((Token.scan cs).map Token.chars).flatten := by
  rw [← List.flatMap_def, Token.scan, flatMap_scanFrom, List.mem_filter, hc]
  simp

/-! ## Reading respaced texts -/

section Reading

variable {store : Store} {text text' : String} {d : Descriptor}

theorem read_eq_ok_iff_spells (h : '#' ∉ text.toList) : read store text = .ok d ↔
    SpellsDescriptor store ((Token.scan text.toList).map Token.chars) d := by
  rw [read_of_notMem h, readBody_eq_ok, map_chars_scan_trim]

/-- Texts of the same words are read alike. -/
theorem read_eq_ok_iff_of_words (h : '#' ∉ text.toList)
    (hw : (Token.scan text'.toList).map Token.chars = (Token.scan text.toList).map Token.chars) :
    read store text = .ok d ↔ read store text' = .ok d := by
  have h' : '#' ∉ text'.toList := by
    rwa [mem_iff_mem_words (by decide), hw, ← mem_iff_mem_words (by decide)]
  rw [read_eq_ok_iff_spells h, read_eq_ok_iff_spells h', hw]

/-- The tokens of a text are the matches of the pattern up to its end: each name that goes on at
neither end and each other character that is not blank, in order and at its offset, so that together
they are the text without blanks. Blanks beside tokens change no word, nor what is read from a text
without a checksum. -/
theorem only_blanks_ignored (text : String) :
    Token.scanAll text.toList =
      Token.scan text.toList ++ [⟨"<end>".toList, text.toList.length⟩] ∧
    Token.scan text.toList = matchesFrom 0 text.toList ∧
    (∀ t, t ∈ Token.scan text.toList ↔ IsTokenOf text.toList t) ∧
    (Token.scan text.toList).Pairwise Token.Precedes ∧
    (Token.scan text.toList).flatMap Token.chars =
      (text.toList.filter fun c => !Text.isBlank c) ∧
    ∀ text' : String, Respaced text.toList text'.toList →
      (Token.scanAll text'.toList).map Token.text = (Token.scanAll text.toList).map Token.text ∧
      ('#' ∉ text.toList →
        ∀ store d, read store text = .ok d ↔ read store text' = .ok d) := by
  refine ⟨rfl, scanFrom_eq_matchesFrom 0 _, fun t => mem_scan_iff, pairwise_scanFrom 0 _,
    flatMap_scanFrom 0 _, fun text' h => ⟨?_, fun hn store d => ?_⟩⟩
  · have hw := congrArg (List.map String.ofList) h.map_chars_scan
    rw [List.map_map, List.map_map] at hw
    rw [Token.scanAll, Token.scanAll, List.map_append, List.map_append]
    exact congrArg (· ++ ["<end>"]) hw
  · exact read_eq_ok_iff_of_words hn h.map_chars_scan

end Reading

namespace WiderText

/-- Blanks between `tr` and its parenthesis. -/
def first : List Char :=
  SpacedText.text.toList.take 3 ++ (['\u3000', '\n'] ++ SpacedText.text.toList.drop 3)

/-- A blank more, between a row of letters and its colon. -/
def text : String := String.ofList (first.take 156 ++ (['\t'] ++ first.drop 156))

set_option maxRecDepth 4000 in
theorem is_respaced : Respaced SpacedText.text.toList text.toList := by
  have hchars : SpacedText.text.toList = _ := String.toList_ofList
  have h₁ : Widens SpacedText.text.toList first :=
    .at _ (by decide) (by rw [hchars]; decide +kernel)
  have h₂ : Widens first (first.take 156 ++ (['\t'] ++ first.drop 156)) :=
    .at _ (by decide) (by rw [first, hchars]; decide +kernel)
  rw [text, String.toList_ofList]
  exact .tail (.single h₁) h₂

/-- Wider text is read as the same descriptor. -/
theorem is_read_alike : Respaced SpacedText.text.toList text.toList ∧
    '#' ∉ SpacedText.text.toList ∧ ∃ d, d.text = SpacedText.canonicalText ∧
      read SpacedText.earlierStore SpacedText.text = .ok d ∧
      read SpacedText.earlierStore text = .ok d := by
  obtain ⟨d, hd, ht⟩ := exists_of_map_toOption SpacedText.is_read
  obtain ⟨-, -, -, -, -, hrespaced⟩ := only_blanks_ignored SpacedText.text
  have hread := (hrespaced text is_respaced).2 SpacedText.hash_notMem SpacedText.earlierStore d
  exact ⟨is_respaced, SpacedText.hash_notMem, d, ht, hd, hread.mp hd⟩

end WiderText

end Taproot.Descriptor
