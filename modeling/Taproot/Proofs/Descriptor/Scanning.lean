import Taproot.Proofs.Descriptor.Lexemes
import Taproot.Proofs.Descriptor.Steps

/-! # Words in a text

Words that are kept apart by marks are the tokens of the text in which they stand without blanks.
The words of the grammar are of this kind, and all their characters have a checksum.
-/
namespace Taproot.Descriptor

open Miniscript

/-- The characters that stand between words. -/
def marks : List Char := ['(', ')', ',', ':', '\x7b', '\x7d']

/-- No two names follow each other. -/
inductive Apart : Words → Prop
  | nil : Apart []
  | name {w : List Char} : IsName w → Apart [w]
  | mark {c : Char} {us vs : Words} : c ∈ marks → Apart us → Apart vs → Apart (us ++ [c] :: vs)

theorem isNameChar_of_mem_marks {c : Char} (h : c ∈ marks) : Token.isNameChar c = false := by
  have hall : (marks.all fun c => !Token.isNameChar c) = true := by decide
  simpa using List.all_eq_true.mp hall c h

theorem isBlank_of_mem_marks {c : Char} (h : c ∈ marks) : Text.isBlank c = false := by
  have hall : (marks.all fun c => !Text.isBlank c) = true := by decide
  simpa using List.all_eq_true.mp hall c h

theorem scan_flatten {ws : Words} (h : Apart ws) : (Token.scan ws.flatten).map Token.chars = ws := by
  induction h with
  | nil => rfl
  | name hw => rw [List.flatten_singleton, map_chars_scan_lexeme (.name hw nofun)]
  | @mark c us vs hc _ _ ihu ihv =>
    have hn := isNameChar_of_mem_marks hc
    have hb := isBlank_of_mem_marks hc
    have hbehind : IsCut [c] vs.flatten := (IsLexeme.single hn hb).isCut []
    rw [List.flatten_append, List.flatten_cons, map_chars_scan_append (isCut_single hn),
      map_chars_scan_append hbehind, map_chars_scan_lexeme (.single hn hb), ihu, ihv]
    rfl

/-! ## The characters of names -/

/-- A character that can stand in the text of a descriptor. -/
structure IsPlain (c : Char) : Prop where
  covered : c ∈ Checksum.alphabet
  notHash : c ≠ '#'
  notBlank : Text.isBlank c = false

instance (c : Char) : Decidable (IsPlain c) :=
  decidable_of_iff (c ∈ Checksum.alphabet ∧ c ≠ '#' ∧ Text.isBlank c = false)
    ⟨fun h => ⟨h.1, h.2.1, h.2.2⟩, fun h => ⟨h.1, h.2, h.3⟩⟩

theorem isNameChar_of_hexValue? {c : Char} (h : (Text.hexValue? c).isSome = true) :
    Token.isNameChar c = true :=
  Text.of_ascii (P := fun c => (Text.hexValue? c).isSome = true → Token.isNameChar c = true)
    (by decide) (Text.toNat_lt_of_hexValue? h) h

theorem isPlain_of_isNameChar {c : Char} (h : Token.isNameChar c = true) : IsPlain c :=
  Text.of_ascii (P := fun c => Token.isNameChar c = true → IsPlain c)
    (by decide +kernel) (toNat_lt_of_isNameChar h) h

theorem isPlain_of_mem_marks {c : Char} (h : c ∈ marks) : IsPlain c := by
  have hall : (marks.all fun c => IsPlain c) = true := by decide +kernel
  simpa using List.all_eq_true.mp hall c h

theorem Apart.isPlain {ws : Words} (h : Apart ws) {c : Char} (hc : c ∈ ws.flatten) : IsPlain c := by
  induction h with
  | nil => cases hc
  | name hw =>
    rw [List.flatten_singleton] at hc
    exact isPlain_of_isNameChar (List.all_eq_true.mp hw.chars c hc)
  | mark hm _ _ ihu ihv =>
    rw [List.flatten_append, List.mem_append, List.flatten_cons, List.mem_append] at hc
    rcases hc with hc | hc | hc
    · exact ihu hc
    · rw [List.mem_singleton.mp hc]
      exact isPlain_of_mem_marks hm
    · exact ihv hc

/-! ## The words of the grammar -/

namespace Apart

variable {us vs : Words}

theorem behindName {w : List Char} {c : Char} (hw : IsName w) (hc : c ∈ marks) (h : Apart vs) :
    Apart (w :: [c] :: vs) :=
  mark hc (name hw) h

theorem comma (hu : Apart us) (hv : Apart vs) : Apart (us ++ [','] :: vs) :=
  mark (by simp [marks]) hu hv

theorem call {n : String} (hn : IsName n.toList) (h : Apart us) : Apart (call n us) :=
  behindName hn (by simp [marks]) (mark (by simp [marks]) h nil)

theorem written {row : List Char} (hr : ∀ c ∈ row, c ∈ letters) (h : Apart us) :
    Apart (written row us) := by
  have hl : letters.all Token.isNameChar = true := by decide
  cases row with
  | nil => exact h
  | cons c row =>
    have hrow : (c :: row).all Token.isNameChar = true :=
      List.all_eq_true.mpr fun d hd => List.all_eq_true.mp hl d (hr d hd)
    exact behindName ⟨List.cons_ne_nil c row, hrow⟩ (by simp [marks]) h

theorem commas {ι : Type} {is : List ι} {view : ι → Words} (h : Apart us)
    (hi : ∀ i ∈ is, Apart (view i)) : Apart (us ++ is.flatMap fun i => [','] :: view i) := by
  induction is generalizing us with
  | nil => simpa using h
  | cons i is ih =>
    have hv := ih (hi i List.mem_cons_self) fun j hj => hi j (List.mem_cons_of_mem i hj)
    simpa using h.comma hv

end Apart

theorem isName_of_isHex32 {cs : List Char} (h : Parser.isHex32 cs = true) : IsName cs := by
  simp only [Parser.isHex32, Bool.and_eq_true, decide_eq_true_eq, List.all_eq_true] at h
  refine ⟨?_, List.all_eq_true.mpr fun c hc => isNameChar_of_hexValue? (h.2 c hc)⟩
  rintro rfl
  simp at h

theorem SpellsNumber.isName {cs : List Char} {n : Nat} (h : SpellsNumber cs n) : IsName cs := by
  obtain ⟨hd, -, -⟩ := h
  simp only [Text.isNumeral, Bool.and_eq_true, Bool.not_eq_true', List.all_eq_true] at hd
  refine ⟨by simpa using hd.1, List.all_eq_true.mpr fun c hc => ?_⟩
  simp [Token.isNameChar, Char.isAlphanum, hd.2 c hc]

variable {store : Store}

theorem Spells.apart {row : List Char} {core : Words} {x : Typed} (h : Spells store row core x) :
    Apart core ∧ ∀ c ∈ row, c ∈ letters := by
  induction h with
  | just value => cases value <;> exact ⟨.name ⟨by simp, by decide⟩, by simp⟩
  | checkedKey hk => exact ⟨.call ⟨by simp, by decide⟩ (.name (isName_of_isHex32 hk.digits)), by simp⟩
  | key hk => exact ⟨.call ⟨by simp, by decide⟩ (.name (isName_of_isHex32 hk.digits)), by simp⟩
  | image hn hh =>
    refine ⟨.call ?_ (.name (isName_of_isHex32 hh.digits)), by simp⟩
    rcases hn with rfl | rfl <;> exact ⟨by simp, by decide⟩
  | after hn => exact ⟨.call ⟨by simp, by decide⟩ (.name hn.isName), by simp⟩
  | older hn => exact ⟨.call ⟨by simp, by decide⟩ (.name hn.isName), by simp⟩
  | @multi cs k keys x hk hs =>
    have hkeys : ∀ p ∈ keys, Apart [p.1] := fun p hp => .name (isName_of_isHex32 (hs p hp).digits)
    exact ⟨.call ⟨by simp, by decide⟩ ((Apart.name hk.isName).commas hkeys), by simp⟩
  | pair p _ _ _ ihx ihy =>
    refine ⟨.call ?_ ((Apart.written ihx.2 ihx.1).comma (Apart.written ihy.2 ihy.1)), by simp⟩
    cases p <;> exact ⟨by simp [Pair.name], by decide⟩
  | andOr _ _ _ _ iha ihb ihc =>
    have hbc := (Apart.written ihb.2 ihb.1).comma (Apart.written ihc.2 ihc.1)
    exact ⟨.call ⟨by simp, by decide⟩ ((Apart.written iha.2 iha.1).comma hbc), by simp⟩
  | @thresh cs k args x hk _ _ ih =>
    have hargs : ∀ a ∈ args, Apart a.words := fun a ha => .written (ih a ha).2 (ih a ha).1
    exact ⟨.call ⟨by simp, by decide⟩ ((Apart.name hk.isName).commas hargs), by simp⟩
  | wrap _ hy ih =>
    refine ⟨ih.1, fun d hd => ?_⟩
    rcases List.mem_cons.mp hd with rfl | hd
    · exact mem_letters (isWrapperLetter_of_applyLetter hy)
    · exact ih.2 d hd

theorem SpellsTree.apart {ws : Words} {t : ScriptTree} (h : SpellsTree store ws t) : Apart ws := by
  induction h with
  | leaf hx => exact .written hx.apart.2 hx.apart.1
  | branch _ _ ihl ihr =>
    exact .mark (by simp [marks]) .nil (ihl.comma (.mark (by simp [marks]) ihr .nil))

theorem SpellsDescriptor.apart {ws : Words} {d : Descriptor} (h : SpellsDescriptor store ws d) :
    Apart ws := by
  cases h with
  | keyOnly hk => exact .call ⟨by simp, by decide⟩ (.name (isName_of_isHex32 hk.digits))
  | withTree hk ht =>
    have hi := (Apart.name (isName_of_isHex32 hk.digits)).comma ht.apart
    exact .call ⟨by simp, by decide⟩ hi

end Taproot.Descriptor
