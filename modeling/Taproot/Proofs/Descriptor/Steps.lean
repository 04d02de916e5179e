import Taproot.Proofs.Descriptor.Grammar
import Taproot.Proofs.Text.HexDigits

/-! # Steps of the parser

When a step succeeds, what it takes and what it answers. At the end of the tokens a step sees the
ending, which is none of the tokens that are wanted.
-/
namespace Taproot.Descriptor

open Miniscript

/-- The ending is as no token can be. -/
def Source.IsClosed (src : Source) : Prop := src.ending.chars = "<end>".toList

namespace Parser

variable {α β : Type} {p q : Parser α} {s s' s'' : List Token}

/-- The parser answers `x` and leaves the tokens `s'`. -/
def Yields (p : Parser α) (s : List Token) (x : α) (s' : List Token) : Prop := p s = .ok (x, s')

theorem yields_pure {x y : α} : Yields (pure x) s y s' ↔ y = x ∧ s' = s := by
  change Except.ok (x, s) = Except.ok (y, s') ↔ _
  simp [eq_comm]

theorem yields_bind {f : α → Parser β} {y : β} :
    Yields (p >>= f) s y s'' ↔ ∃ x s', Yields p s x s' ∧ Yields (f x) s' y s'' := by
  simp only [Yields, bind, StateT.bind, Except.bind]
  cases p s with
  | error e => simp
  | ok r =>
    constructor
    · intro h
      exact ⟨r.1, r.2, rfl, h⟩
    · rintro ⟨x, s', hr, h⟩
      cases hr
      exact h

theorem yields_map {f : α → β} {y : β} :
    Yields (f <$> p) s y s' ↔ ∃ x, Yields p s x s' ∧ y = f x := by
  rw [map_eq_pure_bind, yields_bind]
  simp only [yields_pure]
  constructor
  · rintro ⟨x, s', h, rfl, rfl⟩
    exact ⟨x, h, rfl⟩
  · rintro ⟨x, h, rfl⟩
    exact ⟨x, s', h, rfl, rfl⟩

theorem not_yields_throw {e : DescriptorError} {x : α} : ¬ Yields (throw e) s x s' := nofun

theorem not_yields_failAt {fault : SyntaxFault} {t : Token} {x : α} :
    ¬ Yields (failAt fault t) s x s' := nofun

theorem not_yields_bind {f : α → Parser β} {y : β} (h : ∀ x s', ¬ Yields p s x s') :
    ¬ Yields (p >>= f) s y s'' := by
  rw [yields_bind]
  rintro ⟨x, s', hx, -⟩
  exact h x s' hx

/-- A guard that a step must pass. -/
theorem yields_unless {c : Prop} [Decidable c] {x : α} (h : ∀ y s', ¬ Yields p s y s') :
    Yields (if c then p else q) s x s' ↔ ¬c ∧ Yields q s x s' := by
  by_cases hc : c <;> simp [hc, h]

theorem yields_get {x : List Token} : Yields get s x s' ↔ x = s ∧ s' = s := by
  simp [Yields, get, getThe, MonadStateOf.get, StateT.get, pure, Except.pure, eq_comm]

variable {src : Source}

theorem yields_peek {t : Token} :
    Yields (peek src) s t s' ↔ t = s.headD src.ending ∧ s' = s := by
  cases s <;> exact yields_pure

theorem yields_next_cons {t : Token} {f : Token → Parser β} {y : β} :
    Yields (next src >>= f) (t :: s) y s' ↔ Yields (f t) s y s' := Iff.rfl

/-- A step that refuses the ending takes a token. -/
theorem yields_next_bind {f : Token → Parser β} {y : β}
    (h : ¬ Yields (f src.ending) [] y s') :
    Yields (next src >>= f) s y s' ↔ ∃ t rest, s = t :: rest ∧ Yields (f t) rest y s' := by
  cases s with
  | nil =>
    constructor
    · intro hy
      exact absurd hy h
    · rintro ⟨t, rest, hs, -⟩
      cases hs
  | cons t rest =>
    rw [yields_next_cons]
    constructor
    · intro hy
      exact ⟨t, rest, rfl, hy⟩
    · rintro ⟨t', rest', hs, hy⟩
      cases hs
      exact hy

theorem yields_expect {c : Char} {u : Unit} (he : src.IsClosed) :
    Yields (expect src c) s u s' ↔ ∃ t, s = t :: s' ∧ t.chars = [c] := by
  unfold expect
  rw [yields_next_bind]
  · constructor
    · rintro ⟨t, rest, rfl, h⟩
      rw [yields_unless fun _ _ => not_yields_failAt, yields_pure] at h
      obtain ⟨hc, -, rfl⟩ := h
      exact ⟨t, rfl, Decidable.not_not.mp hc⟩
    · rintro ⟨t, rfl, hc⟩
      refine ⟨t, s', rfl, ?_⟩
      rw [yields_unless fun _ _ => not_yields_failAt, yields_pure]
      exact ⟨not_not_intro hc, rfl, rfl⟩
  · rw [yields_unless fun _ _ => not_yields_failAt]
    rintro ⟨hc, -⟩
    have hc := Decidable.not_not.mp hc
    rw [he] at hc
    simp at hc

/-- A token that decides how to go on is taken where it is the wanted one. -/
theorem yields_choice {c : Char} {x : α} (he : src.IsClosed) :
    Yields (do
      if (← peek src).chars = [c] then
        let _ ← next src
        p
      else q) s x s' ↔
    (∃ t rest, s = t :: rest ∧ t.chars = [c] ∧ Yields p rest x s') ∨
      (s.headD src.ending).chars ≠ [c] ∧ Yields q s x s' := by
  rw [yields_bind]
  simp only [yields_peek]
  constructor
  · rintro ⟨_, s, ⟨rfl, rfl⟩, h⟩
    split at h
    · rename_i hc
      cases s with
      | nil =>
        rw [List.headD_nil, he] at hc
        simp at hc
      | cons t rest => exact Or.inl ⟨t, rest, rfl, hc, h⟩
    · rename_i hc
      exact Or.inr ⟨hc, h⟩
  · rintro (⟨t, rest, rfl, hc, h⟩ | ⟨hc, h⟩)
    · refine ⟨t, _, ⟨rfl, rfl⟩, ?_⟩
      rw [if_pos hc]
      exact h
    · refine ⟨_, _, ⟨rfl, rfl⟩, ?_⟩
      rw [if_neg hc]
      exact h

theorem yields_comma {b : Bool} (he : src.IsClosed) : Yields (comma src) s b s' ↔
    b = true ∧ (∃ t, s = t :: s' ∧ t.chars = [',']) ∨
      b = false ∧ s' = s ∧ (s.headD src.ending).chars ≠ [','] := by
  unfold comma
  rw [yields_choice he]
  simp only [yields_pure]
  constructor
  · rintro (⟨t, rest, rfl, hc, rfl, rfl⟩ | ⟨hc, rfl, rfl⟩)
    · exact Or.inl ⟨rfl, t, rfl, hc⟩
    · exact Or.inr ⟨rfl, rfl, hc⟩
  · rintro (⟨rfl, t, rfl, hc⟩ | ⟨rfl, rfl, hc⟩)
    · exact Or.inl ⟨t, _, rfl, hc, rfl, rfl⟩
    · exact Or.inr ⟨hc, rfl, rfl⟩

theorem yields_typedAt {t : Token} {r : Except TypeError Typed} {x : Typed} :
    Yields (typedAt t r) s x s' ↔ r = .ok x ∧ s' = s := by
  cases r with
  | ok y =>
    rw [typedAt, yields_pure]
    simp [eq_comm]
  | error e =>
    constructor
    · intro h
      exact absurd h not_yields_failAt
    · rintro ⟨h, -⟩
      cases h

theorem yields_numeral {n : Nat} (he : src.IsClosed) :
    Yields (numeral src) s n s' ↔ ∃ t, s = t :: s' ∧ SpellsNumber t.chars n := by
  unfold numeral
  rw [yields_next_bind]
  · simp only [yields_unless fun _ _ => not_yields_bind fun _ _ => not_yields_failAt, yields_pure,
      yields_unless fun _ _ => not_yields_bind fun _ _ => not_yields_throw]
    constructor
    · rintro ⟨t, rest, rfl, hd, hl, rfl, rfl⟩
      exact ⟨t, rfl, by simpa using hd, Nat.not_lt.mp hl, rfl⟩
    · rintro ⟨t, rfl, hd, hl, rfl⟩
      exact ⟨t, s', rfl, by simpa using hd, Nat.not_lt.mpr hl, rfl, rfl⟩
  · rw [yields_unless fun _ _ => not_yields_bind fun _ _ => not_yields_failAt]
    rintro ⟨hd, -⟩
    rw [he] at hd
    exact hd rfl

/-! ## Keys and images -/

theorem exists_of_isHex32 {cs : List Char} (h : isHex32 cs = true) :
    ∃ b, Text.readHex cs = some b ∧ b.length = 32 := by
  simp only [isHex32, Bool.and_eq_true, decide_eq_true_eq, List.all_eq_true] at h
  exact Text.exists_readHex h.1 h.2

theorem yields_hex32 {fault : SyntaxFault} {r : Bytes × Token} (he : src.IsClosed) :
    Yields (hex32 src fault) s r s' ↔
      s = r.2 :: s' ∧ isHex32 r.2.chars = true ∧ Text.readHex r.2.chars = some r.1 := by
  unfold hex32
  rw [yields_next_bind]
  · simp only [yields_unless fun _ _ => not_yields_bind fun _ _ => not_yields_failAt, yields_pure]
    constructor
    · rintro ⟨t, rest, rfl, hd, rfl, rfl⟩
      have hd : isHex32 t.chars = true := by simpa using hd
      obtain ⟨b, hb, -⟩ := exists_of_isHex32 hd
      exact ⟨rfl, hd, by rw [hb]; rfl⟩
    · rintro ⟨rfl, hd, hb⟩
      exact ⟨r.2, s', rfl, by simpa using hd, by rw [hb]; rfl, rfl⟩
  · rw [yields_unless fun _ _ => not_yields_bind fun _ _ => not_yields_failAt]
    rintro ⟨hd, -⟩
    rw [he] at hd
    exact hd rfl

theorem yields_publicKey {k : Bytes} (he : src.IsClosed) :
    Yields (publicKey src) s k s' ↔ ∃ t, s = t :: s' ∧ SpellsKey src.store t.chars k := by
  unfold publicKey
  simp only [yields_bind, yields_hex32 he, yields_pure,
    yields_unless fun _ _ => not_yields_bind fun _ _ => not_yields_failAt,
    yields_unless fun _ _ => not_yields_bind fun _ _ => not_yields_throw]
  constructor
  · rintro ⟨⟨b, t⟩, s₁, ⟨rfl, hd, hb⟩, hp, hk, rfl, rfl⟩
    exact ⟨t, rfl, hd, hb, by simpa [Option.isSome_iff_ne_none] using hp,
      by simpa [Option.isSome_iff_ne_none] using hk⟩
  · rintro ⟨t, rfl, hd, hb, hp, hk⟩
    exact ⟨(k, t), s', ⟨rfl, hd, hb⟩, by simpa [Option.isSome_iff_ne_none] using hp,
      by simpa [Option.isSome_iff_ne_none] using hk, rfl, rfl⟩

theorem yields_hashImage {h : Bytes} (he : src.IsClosed) :
    Yields (hashImage src) s h s' ↔ ∃ t, s = t :: s' ∧ SpellsImage src.store t.chars h := by
  unfold hashImage
  simp only [yields_bind, yields_hex32 he, yields_pure,
    yields_unless fun _ _ => not_yields_bind fun _ _ => not_yields_throw]
  constructor
  · rintro ⟨⟨b, t⟩, s₁, ⟨rfl, hd, hb⟩, hk, rfl, rfl⟩
    exact ⟨t, rfl, hd, hb, by simpa [Option.isSome_iff_ne_none] using hk⟩
  · rintro ⟨t, rfl, hd, hb, hk⟩
    exact ⟨(h, t), s', ⟨rfl, hd, hb⟩, by simpa [Option.isSome_iff_ne_none] using hk, rfl, rfl⟩

/-! ## Arguments -/

theorem yields_parenthesized {item : Parser α} {x : α} (he : src.IsClosed) :
    Yields (parenthesized src item) s x s' ↔ ∃ t₁ t₂ s₁, s = t₁ :: s₁ ∧ t₁.chars = ['('] ∧
      Yields item s₁ x (t₂ :: s') ∧ t₂.chars = [')'] := by
  unfold parenthesized
  simp only [yields_bind, yields_expect he, yields_pure]
  constructor
  · rintro ⟨-, s₁, ⟨t₁, rfl, h₁⟩, y, s₂, hy, -, s₃, ⟨t₂, rfl, h₂⟩, rfl, rfl⟩
    exact ⟨t₁, t₂, s₁, rfl, h₁, hy, h₂⟩
  · rintro ⟨t₁, t₂, s₁, rfl, h₁, hy, h₂⟩
    exact ⟨⟨⟩, s₁, ⟨t₁, rfl, h₁⟩, x, _, hy, ⟨⟩, s', ⟨t₂, rfl, h₂⟩, rfl, rfl⟩

theorem yields_twoArguments {item : Parser Typed} {r : Typed × Typed} (he : src.IsClosed) :
    Yields (twoArguments src item) s r s' ↔ ∃ t₁ t₂ t₃ s₁ s₂, s = t₁ :: s₁ ∧ t₁.chars = ['('] ∧
      Yields item s₁ r.1 (t₂ :: s₂) ∧ t₂.chars = [','] ∧
      Yields item s₂ r.2 (t₃ :: s') ∧ t₃.chars = [')'] := by
  unfold twoArguments
  simp only [yields_bind, yields_expect he, yields_pure]
  constructor
  · rintro ⟨-, s₁, ⟨t₁, rfl, h₁⟩, x, s₂, hx, -, s₃, ⟨t₂, rfl, h₂⟩, y, s₄, hy, -, s₅,
      ⟨t₃, rfl, h₃⟩, rfl, rfl⟩
    exact ⟨t₁, t₂, t₃, s₁, s₃, rfl, h₁, hx, h₂, hy, h₃⟩
  · rintro ⟨t₁, t₂, t₃, s₁, s₂, rfl, h₁, hx, h₂, hy, h₃⟩
    exact ⟨⟨⟩, s₁, ⟨t₁, rfl, h₁⟩, r.1, _, hx, ⟨⟩, s₂, ⟨t₂, rfl, h₂⟩, r.2, _, hy, ⟨⟩, s',
      ⟨t₃, rfl, h₃⟩, rfl, rfl⟩

theorem yields_threeArguments {item : Parser Typed} {r : Typed × Typed × Typed}
    (he : src.IsClosed) :
    Yields (threeArguments src item) s r s' ↔ ∃ t₁ t₂ t₃ t₄ s₁ s₂ s₃, s = t₁ :: s₁ ∧
      t₁.chars = ['('] ∧ Yields item s₁ r.1 (t₂ :: s₂) ∧ t₂.chars = [','] ∧
      Yields item s₂ r.2.1 (t₃ :: s₃) ∧ t₃.chars = [','] ∧
      Yields item s₃ r.2.2 (t₄ :: s') ∧ t₄.chars = [')'] := by
  unfold threeArguments
  simp only [yields_bind, yields_expect he, yields_pure]
  constructor
  · rintro ⟨-, s₁, ⟨t₁, rfl, h₁⟩, x, s₂, hx, -, s₃, ⟨t₂, rfl, h₂⟩, y, s₄, hy, -, s₅,
      ⟨t₃, rfl, h₃⟩, z, s₆, hz, -, s₇, ⟨t₄, rfl, h₄⟩, rfl, rfl⟩
    exact ⟨t₁, t₂, t₃, t₄, s₁, s₃, s₅, rfl, h₁, hx, h₂, hy, h₃, hz, h₄⟩
  · rintro ⟨t₁, t₂, t₃, t₄, s₁, s₂, s₃, rfl, h₁, hx, h₂, hy, h₃, hz, h₄⟩
    exact ⟨⟨⟩, s₁, ⟨t₁, rfl, h₁⟩, r.1, _, hx, ⟨⟩, s₂, ⟨t₂, rfl, h₂⟩, r.2.1, _, hy, ⟨⟩, s₃,
      ⟨t₃, rfl, h₃⟩, r.2.2, _, hz, ⟨⟩, s', ⟨t₄, rfl, h₄⟩, rfl, rfl⟩

theorem yields_height {limit n : Nat} {fault : SyntaxFault} (he : src.IsClosed) :
    Yields (height src limit fault) s n s' ↔ ∃ t₁ t₂ t₃, s = t₁ :: t₂ :: t₃ :: s' ∧
      t₁.chars = ['('] ∧ SpellsNumber t₂.chars n ∧ t₃.chars = [')'] ∧ 1 ≤ n ∧ n < limit := by
  unfold height
  simp only [yields_bind, yields_peek, yields_expect he, yields_numeral he, yields_pure,
    yields_unless fun _ _ => not_yields_bind fun _ _ => not_yields_failAt]
  constructor
  · rintro ⟨-, s₁, ⟨t₁, rfl, h₁⟩, t₂', s₂, ⟨rfl, rfl⟩, n, s₃, ⟨t₂, rfl, h₂⟩, -, s₄, ⟨t₃, rfl, h₃⟩,
      hr, rfl, rfl⟩
    have hr := Decidable.not_not.mp hr
    exact ⟨t₁, t₂, t₃, rfl, h₁, h₂, h₃, hr.1, hr.2⟩
  · rintro ⟨t₁, t₂, t₃, rfl, h₁, h₂, h₃, hr⟩
    exact ⟨⟨⟩, _, ⟨t₁, rfl, h₁⟩, t₂, _, ⟨rfl, rfl⟩, n, _, ⟨t₂, rfl, h₂⟩, ⟨⟩, s', ⟨t₃, rfl, h₃⟩,
      not_not_intro hr, rfl, rfl⟩

theorem yields_word {t : Token} (he : src.IsClosed) :
    Yields (word src) s t s' ↔ s = t :: s' ∧ t.isWord = true := by
  unfold word
  rw [yields_next_bind]
  · simp only [yields_unless fun _ _ => not_yields_bind fun _ _ => not_yields_failAt, yields_pure]
    constructor
    · rintro ⟨t, rest, rfl, hw, rfl, rfl⟩
      exact ⟨rfl, by simpa using hw⟩
    · rintro ⟨rfl, hw⟩
      exact ⟨t, s', rfl, by simpa using hw, rfl, rfl⟩
  · rw [yields_unless fun _ _ => not_yields_bind fun _ _ => not_yields_failAt]
    rintro ⟨hw, -⟩
    refine hw ?_
    rw [Token.isWord, he]
    rfl

theorem yields_wrappedName {r : List Char × Token} (he : src.IsClosed) :
    Yields (wrappedName src) s r s' ↔
      (∃ t₁ t₂, s = t₁ :: t₂ :: r.2 :: s' ∧ t₁.isWord = true ∧ t₂.chars = [':'] ∧
        (∀ c ∈ t₁.chars, isWrapperLetter c = true) ∧ r.2.isWord = true ∧ r.1 = t₁.chars) ∨
      s = r.2 :: s' ∧ r.2.isWord = true ∧ r.1 = [] ∧ (s'.headD src.ending).chars ≠ [':'] := by
  obtain ⟨row, name⟩ := r
  unfold wrappedName
  rw [yields_bind]
  simp only [yields_word he, yields_choice he]
  constructor
  · rintro ⟨t, s₁, ⟨rfl, hw⟩, ⟨t₂, rest, rfl, hc, h⟩ | ⟨hc, h⟩⟩
    · split at h
      · exact absurd h not_yields_failAt
      · rename_i hf
        rw [yields_bind] at h
        obtain ⟨t₃, s₃, h₃, h⟩ := h
        obtain ⟨rfl, hw'⟩ := (yields_word he).mp h₃
        obtain ⟨hr, rfl⟩ := yields_pure.mp h
        cases hr
        exact Or.inl ⟨t, t₂, rfl, hw, hc, by simpa using hf, hw', rfl⟩
    · obtain ⟨hr, rfl⟩ := yields_pure.mp h
      cases hr
      exact Or.inr ⟨rfl, hw, rfl, hc⟩
  · rintro (⟨t₁, t₂, rfl, hw, hc, hl, hw', hr⟩ | ⟨rfl, hw, hr, hc⟩)
    · refine ⟨t₁, _, ⟨rfl, hw⟩, Or.inl ⟨t₂, _, rfl, hc, ?_⟩⟩
      have hf : (t₁.chars.find? fun c => !isWrapperLetter c) = none := by simpa using hl
      rw [hf]
      exact yields_bind.mpr ⟨name, s', (yields_word he).mpr ⟨rfl, hw'⟩,
        yields_pure.mpr ⟨by rw [← hr], rfl⟩⟩
    · exact ⟨name, s', ⟨rfl, hw⟩, Or.inr ⟨hc, yields_pure.mpr ⟨by rw [← hr], rfl⟩⟩⟩

theorem Token.chars_eq {t : Token} {name : String} : t.text = name ↔ t.chars = name.toList := by
  rw [← String.toList_inj, Token.text, String.toList_ofList]

theorem yields_end {key : Bytes} {scripts : Option ScriptTree} {d : Descriptor}
    (he : src.IsClosed) :
    Yields (do
      expect src ')'
      match ← get with
      | [] => return ⟨key, scripts⟩
      | t :: _ => failAt .trailingInput t) s d s' ↔
    s' = [] ∧ d = ⟨key, scripts⟩ ∧ ∃ t, s = [t] ∧ t.chars = [')'] := by
  simp only [yields_bind, yields_expect he, yields_get]
  constructor
  · rintro ⟨-, s₁, ⟨t, rfl, ht⟩, _, _, ⟨rfl, rfl⟩, h⟩
    split at h
    · obtain ⟨rfl, rfl⟩ := yields_pure.mp h
      exact ⟨rfl, rfl, t, rfl, ht⟩
    · exact absurd h not_yields_failAt
  · rintro ⟨rfl, rfl, t, rfl, ht⟩
    exact ⟨⟨⟩, [], ⟨t, rfl, ht⟩, [], [], ⟨rfl, rfl⟩, yields_pure.mpr ⟨rfl, rfl⟩⟩

theorem yields_descriptor {limit : Nat} {d : Descriptor} (he : src.IsClosed) :
    Yields (descriptor src limit) s d s' ↔ s' = [] ∧ ∃ t₁ t₂ t₃ rest, s = t₁ :: t₂ :: t₃ :: rest ∧
      t₁.chars = "tr".toList ∧ t₂.chars = ['('] ∧ SpellsKey src.store t₃.chars d.internalKey ∧
      ((d.tree = none ∧ ∃ t₄, rest = [t₄] ∧ t₄.chars = [')']) ∨
        ∃ t₄ t₅ s₁ x, rest = t₄ :: s₁ ∧ t₄.chars = [','] ∧ d.tree = some x ∧
          Yields (Parser.tree src limit limit) s₁ x [t₅] ∧ t₅.chars = [')']) := by
  unfold descriptor
  rw [yields_next_bind]
  · simp only [yields_unless fun _ _ => not_yields_bind fun _ _ => not_yields_failAt, ne_eq,
      Decidable.not_not, Token.chars_eq]
    constructor
    · rintro ⟨t₁, s₁, rfl, h₁, h⟩
      rw [yields_bind] at h
      obtain ⟨_, s₂, ho, h⟩ := h
      obtain ⟨t₂, rfl, h₂⟩ := (yields_expect he).mp ho
      rw [yields_bind] at h
      obtain ⟨key, s₃, hk, h⟩ := h
      obtain ⟨t₃, rfl, h₃⟩ := (yields_publicKey he).mp hk
      rw [yields_bind] at h
      obtain ⟨b, s₄, hb, h⟩ := h
      rcases (yields_comma he).mp hb with ⟨rfl, t₄, rfl, h₄⟩ | ⟨rfl, rfl, -⟩
      · rw [if_pos rfl, yields_bind] at h
        obtain ⟨_, s₅, hs, h⟩ := h
        obtain ⟨x, hx, rfl⟩ := yields_map.mp hs
        obtain ⟨rfl, rfl, t₅, rfl, h₅⟩ := (yields_end he).mp h
        exact ⟨rfl, t₁, t₂, t₃, _, rfl, h₁, h₂, h₃, Or.inr ⟨t₄, t₅, s₄, x, rfl, h₄, rfl, hx, h₅⟩⟩
      · rw [if_neg (by simp), yields_bind] at h
        obtain ⟨_, s₅, hs, h⟩ := h
        obtain ⟨rfl, rfl⟩ := yields_pure.mp hs
        obtain ⟨rfl, rfl, t₄, rfl, h₄⟩ := (yields_end he).mp h
        exact ⟨rfl, t₁, t₂, t₃, _, rfl, h₁, h₂, h₃, Or.inl ⟨rfl, t₄, rfl, h₄⟩⟩
    · obtain ⟨key, scripts⟩ := d
      rintro ⟨rfl, t₁, t₂, t₃, rest, rfl, h₁, h₂, h₃, h⟩
      refine ⟨t₁, _, rfl, h₁, yields_bind.mpr ⟨⟨⟩, _, (yields_expect he).mpr ⟨t₂, rfl, h₂⟩,
        yields_bind.mpr ⟨key, _, (yields_publicKey he).mpr ⟨t₃, rfl, h₃⟩, yields_bind.mpr ?_⟩⟩⟩
      rcases h with ⟨rfl, t₄, rfl, h₄⟩ | ⟨t₄, t₅, s₁, x, rfl, h₄, rfl, hx, h₅⟩
      · refine ⟨false, _, (yields_comma he).mpr (Or.inr ⟨rfl, rfl, by simp [h₄]⟩), ?_⟩
        rw [if_neg (by simp), yields_bind]
        exact ⟨none, _, yields_pure.mpr ⟨rfl, rfl⟩, (yields_end he).mpr ⟨rfl, rfl, t₄, rfl, h₄⟩⟩
      · refine ⟨true, _, (yields_comma he).mpr (Or.inl ⟨rfl, t₄, rfl, h₄⟩), ?_⟩
        rw [if_pos rfl, yields_bind]
        exact ⟨some x, _, yields_map.mpr ⟨x, hx, rfl⟩,
          (yields_end he).mpr ⟨rfl, rfl, t₅, rfl, h₅⟩⟩
  · dsimp only
    rw [yields_unless fun _ _ => not_yields_bind fun _ _ => not_yields_failAt]
    rintro ⟨ht, -⟩
    have ht := Decidable.not_not.mp ht
    rw [Token.chars_eq, he] at ht
    simp at ht

end Parser
end Taproot.Descriptor
