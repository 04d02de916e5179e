import Taproot.Proofs.Descriptor.RoundTrip

/-! # Where a fault is reported

A fault is reported at a token of the text or at its ending. A type error is reported at the name of
the fragment that could not be built, or that did not take a letter in front of it, while all that
stands in its parentheses was built.
-/
namespace Taproot

/-- The characters of the token stand in the text at its position. -/
def Token.StandsIn (t : Token) (cs : List Char) : Prop :=
  (cs.drop t.position).take t.chars.length = t.chars

namespace Descriptor

open Miniscript Descriptor.Parser

/-- A text up to its last `#`, or all of it where it has none. -/
def IsBodyOf (cs body : List Char) : Prop :=
  '#' ∉ cs ∧ body = cs ∨ ∃ given, '#' ∉ given ∧ cs = body ++ '#' :: given

/-- A call with arguments that are built, but not to be built itself. -/
inductive Unbuildable (store : Store) : Words → TypeError → Prop
  | multi {cs : List Char} {k : Nat} {keys : List (List Char × Bytes)} {e : TypeError} :
    SpellsNumber cs k → (∀ p ∈ keys, SpellsKey store p.1 p.2) →
    Typed.multi k (keys.map Prod.snd) = .error e →
    Unbuildable store (call "multi_a" (cs :: keys.flatMap fun p => [[','], p.1])) e
  | pair (p : Pair) {rx ry : List Char} {cx cy : Words} {x y : Typed} {e : TypeError} :
    Spells store rx cx x → Spells store ry cy y → p.join (p.first x) (p.second y) = .error e →
    Unbuildable store (call p.name (written rx cx ++ [','] :: written ry cy)) e
  | andOr {ra rb rc : List Char} {ca cb cc : Words} {a b c : Typed} {e : TypeError} :
    Spells store ra ca a → Spells store rb cb b → Spells store rc cc c →
    Typed.andOr a b c = .error e → Unbuildable store
      (call "andor" (written ra ca ++ [','] :: (written rb cb ++ [','] :: written rc cc))) e
  | thresh {cs : List Char} {k : Nat} {args : List Argument} {e : TypeError} :
    SpellsNumber cs k → (∀ a ∈ args, Spells store a.row a.core a.value) →
    Typed.thresh k (asBranches (args.map Argument.value)) = .error e →
    Unbuildable store (call "thresh" (cs :: args.flatMap fun a => [','] :: a.words)) e

/-- The token names a fragment that is not to be built, or that a letter before it does not take. -/
inductive Misbuilt (store : Store) (tokens : List Token) (name : Token) (e : TypeError) : Prop
  | fragment {front args rest : List Token} : tokens = front ++ name :: (args ++ rest) →
    Unbuildable store (name.chars :: args.map Token.chars) e → Misbuilt store tokens name e
  | letter {front args rest : List Token} {row colon : Token} {outer inner : List Char} {c : Char}
      {x : Typed} : tokens = front ++ row :: colon :: name :: (args ++ rest) →
    colon.chars = [':'] → row.chars = outer ++ c :: inner →
    Spells store inner (name.chars :: args.map Token.chars) x → applyLetter c x = .error e →
    Misbuilt store tokens name e

/-! ## Tokens in their texts -/

section Tokens

variable {t : Token} {cs : List Char}

theorem standsIn_of_append (before behind : List Char)
    (h : cs = before ++ (t.chars ++ behind)) (hp : before.length = t.position) :
    t.StandsIn cs := by
  rw [Token.StandsIn, h, ← hp, List.drop_left, List.take_left]

theorem standsIn_of_mem_scan (ht : t ∈ Token.scan cs) (behind : List Char) :
    t.StandsIn (cs ++ behind) := by
  cases mem_scan_iff.mp ht with
  | @name front w rest hcs =>
    exact standsIn_of_append front (rest ++ behind) (by simp [hcs]) rfl
  | @single front rest c hcs =>
    exact standsIn_of_append front (rest ++ behind) (by simp [hcs]) rfl

end Tokens

/-! ## Faults of the parser -/

section Faults

variable {α β : Type} {src : Source} {all s : List Token} {p q : Parser α} {e : Parser Typed}
  {t name : Token} {fault : SyntaxFault} {c : Char} {x : Typed}

/-- Among the tokens or behind them. -/
def IsPlace (src : Source) (all : List Token) (t : Token) : Prop := t ∈ all ∨ t = src.ending

structure Pinpointed (src : Source) (all : List Token) (fault : SyntaxFault) (t : Token) :
    Prop where
  place : IsPlace src all t
  cause : ∀ e, fault = .illTyped e → Misbuilt src.store all t e

/-- Where an end of all tokens is left, the parser leaves an end of it or reports a fault in its
place. -/
def Pinpoints (src : Source) (all : List Token) (p : Parser α) (s : List Token) : Prop :=
  s <:+ all → (∀ x s', Yields p s x s' → s' <:+ s) ∧
    ∀ fault t, p s = .error (.syntaxAt fault t) → Pinpointed src all fault t

theorem pinpoints_pure {x : α} : Pinpoints src all (pure x) s := by
  refine fun _ => ⟨fun y s' h => ?_, fun _ _ h => nomatch h⟩
  obtain ⟨-, rfl⟩ := yields_pure.mp h
  exact List.suffix_rfl

theorem pinpoints_unknown {r : Reference} :
    Pinpoints src all (throw (.unknown r) : Parser α) s :=
  fun _ => ⟨fun _ _ h => absurd h not_yields_throw, fun _ _ h => nomatch h⟩

theorem pinpoints_numeralTooLong {f : Text.DigitFault} :
    Pinpoints src all (throw (.numeralTooLong f) : Parser α) s :=
  fun _ => ⟨fun _ _ h => absurd h not_yields_throw, fun _ _ h => nomatch h⟩

theorem pinpoints_failAt (ht : IsPlace src all t)
    (hf : ∀ e, fault = .illTyped e → Misbuilt src.store all t e) :
    Pinpoints src all (failAt fault t : Parser α) s := by
  refine fun _ => ⟨fun _ _ h => absurd h not_yields_failAt, fun _ _ h => ?_⟩
  cases h
  exact ⟨ht, hf⟩

theorem Pinpoints.bind {f : α → Parser β} (hp : Pinpoints src all p s)
    (hf : ∀ x s', Yields p s x s' → s' <:+ all → Pinpoints src all (f x) s') :
    Pinpoints src all (p >>= f) s := by
  intro hs
  obtain ⟨hleft, hfault⟩ := hp hs
  constructor
  · intro y s'' h
    obtain ⟨x, s', hx, hy⟩ := yields_bind.mp h
    have hs' := hleft x s' hx
    exact ((hf x s' hx (hs'.trans hs) (hs'.trans hs)).1 y s'' hy).trans hs'
  · intro fault t h
    rcases bind_eq_error.mp h with h | ⟨⟨x, s'⟩, hx, h⟩
    · exact hfault fault t h
    · have hs' := (hleft x s' hx).trans hs
      exact (hf x s' hx hs' hs').2 fault t h

theorem Pinpoints.before {f : α → Parser β} (hp : Pinpoints src all p s)
    (hf : ∀ x s', Pinpoints src all (f x) s') : Pinpoints src all (p >>= f) s :=
  hp.bind fun x s' _ _ => hf x s'

theorem pinpoints_ite {b : Prop} [Decidable b] (hp : Pinpoints src all p s)
    (hq : Pinpoints src all q s) : Pinpoints src all (if b then p else q) s := by
  split
  · exact hp
  · exact hq

/-- A guard that ends the parser with a fault. -/
theorem pinpoints_unless {γ : Type} {b : Prop} [Decidable b] {g : Parser γ} {f : γ → Parser α}
    (hg : Pinpoints src all g s) (hn : ∀ x s', ¬ Yields g s x s') (hq : Pinpoints src all q s) :
    Pinpoints src all (if b then g >>= f else q) s :=
  pinpoints_ite (hg.bind fun x s' h => absurd h (hn x s')) hq

theorem pinpoints_next_bind {f : Token → Parser β}
    (hf : ∀ t s', IsPlace src all t → Pinpoints src all (f t) s') :
    Pinpoints src all (next src >>= f) s := by
  intro hs
  cases s with
  | nil => exact hf src.ending [] (Or.inr rfl) hs
  | cons t rest =>
    obtain ⟨hleft, hfault⟩ :=
      hf t rest (Or.inl (hs.mem List.mem_cons_self)) ((List.suffix_cons t rest).trans hs)
    exact ⟨fun x s' h => (hleft x s' h).trans (List.suffix_cons t rest), hfault⟩

theorem pinpoints_peek_bind {f : Token → Parser β}
    (hf : ∀ t, IsPlace src all t → Pinpoints src all (f t) s) :
    Pinpoints src all (peek src >>= f) s := by
  intro hs
  cases s with
  | nil => exact hf src.ending (Or.inr rfl) hs
  | cons t rest => exact hf t (Or.inl (hs.mem List.mem_cons_self)) hs

theorem pinpoints_expect : Pinpoints src all (expect src c) s :=
  pinpoints_next_bind fun _ _ ht => pinpoints_ite (pinpoints_failAt ht nofun) pinpoints_pure

theorem pinpoints_comma : Pinpoints src all (comma src) s :=
  pinpoints_peek_bind fun _ _ =>
    pinpoints_ite (pinpoints_next_bind fun _ _ _ => pinpoints_pure) pinpoints_pure

theorem pinpoints_numeral : Pinpoints src all (numeral src) s := by
  refine pinpoints_next_bind fun _ _ ht => ?_
  refine pinpoints_unless (pinpoints_failAt ht nofun) (fun _ _ => not_yields_failAt) ?_
  exact pinpoints_unless pinpoints_numeralTooLong (fun _ _ => not_yields_throw) pinpoints_pure

theorem pinpoints_hex32 (hf : ∀ e, fault ≠ .illTyped e) : Pinpoints src all (hex32 src fault) s :=
  pinpoints_next_bind fun _ _ ht =>
    pinpoints_unless (pinpoints_failAt ht fun e he => absurd he (hf e))
      (fun _ _ => not_yields_failAt) pinpoints_pure

theorem pinpoints_publicKey (he : src.IsClosed) : Pinpoints src all (publicKey src) s := by
  intro hs
  refine Pinpoints.bind (pinpoints_hex32 nofun) (fun r s' hr _ => ?_) hs
  obtain ⟨rfl, -, -⟩ := (yields_hex32 he).mp hr
  have ht : IsPlace src all r.2 := Or.inl (hs.mem List.mem_cons_self)
  refine pinpoints_unless (pinpoints_failAt ht nofun) (fun _ _ => not_yields_failAt) ?_
  exact pinpoints_unless pinpoints_unknown (fun _ _ => not_yields_throw) pinpoints_pure

theorem pinpoints_hashImage : Pinpoints src all (hashImage src) s :=
  Pinpoints.before (pinpoints_hex32 nofun) fun _ _ =>
    pinpoints_unless pinpoints_unknown (fun _ _ => not_yields_throw) pinpoints_pure

theorem pinpoints_parenthesized (hp : ∀ s, Pinpoints src all p s) :
    Pinpoints src all (parenthesized src p) s := by
  refine pinpoints_expect.before fun _ _ => ?_
  refine (hp _).before fun _ _ => ?_
  exact pinpoints_expect.before fun _ _ => pinpoints_pure

theorem pinpoints_afterCommas (hp : ∀ s, Pinpoints src all p s) (limit : Nat) :
    Pinpoints src all (afterCommas src p limit) s := by
  induction limit generalizing s with
  | zero => exact pinpoints_pure
  | succ n ih =>
    refine pinpoints_comma.before fun _ _ => pinpoints_ite ?_ pinpoints_pure
    refine (hp _).before fun _ _ => ?_
    exact ih.before fun _ _ => pinpoints_pure

theorem pinpoints_twoArguments (hE : ∀ s, Pinpoints src all e s) :
    Pinpoints src all (twoArguments src e) s := by
  refine pinpoints_expect.before fun _ _ => ?_
  refine (hE _).before fun _ _ => ?_
  refine pinpoints_expect.before fun _ _ => ?_
  refine (hE _).before fun _ _ => ?_
  exact pinpoints_expect.before fun _ _ => pinpoints_pure

theorem pinpoints_threeArguments (hE : ∀ s, Pinpoints src all e s) :
    Pinpoints src all (threeArguments src e) s := by
  refine pinpoints_expect.before fun _ _ => ?_
  refine (hE _).before fun _ _ => ?_
  refine pinpoints_expect.before fun _ _ => ?_
  refine (hE _).before fun _ _ => ?_
  refine pinpoints_expect.before fun _ _ => ?_
  refine (hE _).before fun _ _ => ?_
  exact pinpoints_expect.before fun _ _ => pinpoints_pure

theorem pinpoints_height {limit : Nat} (hf : ∀ e, fault ≠ .illTyped e) :
    Pinpoints src all (height src limit fault) s := by
  refine pinpoints_expect.before fun _ _ => ?_
  refine pinpoints_peek_bind fun _ ht => ?_
  refine pinpoints_numeral.before fun _ _ => ?_
  refine pinpoints_expect.before fun _ _ => ?_
  exact pinpoints_unless (pinpoints_failAt ht fun e he => absurd he (hf e))
    (fun _ _ => not_yields_failAt) pinpoints_pure

theorem pinpoints_typedAt {r : Except TypeError Typed} (ht : IsPlace src all t)
    (h : ∀ e, r = .error e → Misbuilt src.store all t e) : Pinpoints src all (typedAt t r) s := by
  cases r with
  | ok x => exact pinpoints_pure
  | error e =>
    refine pinpoints_failAt ht fun e' he => ?_
    cases he
    exact h e rfl

/-! ### Fragments -/

section Fragment

variable {limit : Nat}

/-- The name stands in front of what is left. -/
def Heads (all : List Token) (name : Token) (s : List Token) : Prop :=
  ∃ front, all = front ++ name :: s

theorem Heads.isPlace (h : Heads all name s) : IsPlace src all name := by
  obtain ⟨front, rfl⟩ := h
  exact Or.inl (by simp)

theorem Heads.misbuilt {store : Store} {args rest : List Token} {e : TypeError}
    (h : Heads all name (args ++ rest))
    (he : Unbuildable store (name.chars :: args.map Token.chars) e) :
    Misbuilt store all name e := by
  obtain ⟨front, hall⟩ := h
  exact .fragment hall he

/-- A number and items behind it, of which a fragment is to be built. -/
theorem pinpoints_counted {ι : Type} {item : Parser α} {view : ι → Words} {value : ι → α}
    {P : ι → Prop} {build : Nat → List α → Except TypeError Typed} (he : src.IsClosed) {n : String}
    (hn : name.text = n) (hs : Heads all name s) (hf : ∀ e, fault ≠ .illTyped e)
    (hitem : ∀ s, Pinpoints src all item s)
    (hi : item.Reads fun ws x => ∃ i, ws = view i ∧ value i = x ∧ P i)
    (hb : ∀ {cs k} {is : List ι} {e}, SpellsNumber cs k → (∀ i ∈ is, P i) →
      build k (is.map value) = .error e →
      Unbuildable src.store (call n (cs :: is.flatMap fun i => [','] :: view i)) e) :
    Pinpoints src all (do
      expect src '('
      let k ← numeral src
      let xs ← afterCommas src item limit
      expect src ')'
      if xs.isEmpty then failAt fault name
      typedAt name (build k xs)) s := by
  refine pinpoints_expect.bind fun _ s₁ h₁ _ => ?_
  refine pinpoints_numeral.bind fun k s₂ h₂ _ => ?_
  refine (pinpoints_afterCommas hitem limit).bind fun xs s₃ h₃ _ => ?_
  refine pinpoints_expect.bind fun _ s₄ h₄ _ => ?_
  refine pinpoints_unless (pinpoints_failAt hs.isPlace fun e he => absurd he (hf e))
    (fun _ _ => not_yields_failAt) ?_
  refine pinpoints_typedAt hs.isPlace fun e hx => ?_
  obtain ⟨used, rfl, cs, is, hu, hk, rfl, hp⟩ := reads_counted he hi h₁ h₂ h₃ h₄
  refine hs.misbuilt ?_
  simpa [call, Token.chars_eq.mp hn, hu] using hb hk hp hx

theorem pinpoints_pair (he : src.IsClosed) (hE : e.Reads (IsExpression src.store))
    (hP : ∀ s, Pinpoints src all e s) (p : Pair) (hn : name.text = p.name)
    (hs : Heads all name s) :
    Pinpoints src all (do
      let (a, b) ← twoArguments src e
      typedAt name (p.join (p.first a) (p.second b))) s := by
  refine (pinpoints_twoArguments hP).bind fun r s₁ hr _ => ?_
  refine pinpoints_typedAt hs.isPlace fun e hx => ?_
  obtain ⟨used, rfl, ra, ca, rb, cb, hu, ha, hb⟩ := reads_twoArguments he hE hr
  refine hs.misbuilt ?_
  simpa [call, Token.chars_eq.mp hn, hu] using Unbuildable.pair p ha hb hx

theorem pinpoints_andOr (he : src.IsClosed) (hE : e.Reads (IsExpression src.store))
    (hP : ∀ s, Pinpoints src all e s) (hn : name.text = "andor") (hs : Heads all name s) :
    Pinpoints src all (do
      let (a, b, c) ← threeArguments src e
      typedAt name (Typed.andOr a b c)) s := by
  refine (pinpoints_threeArguments hP).bind fun r s₁ hr _ => ?_
  refine pinpoints_typedAt hs.isPlace fun e hx => ?_
  obtain ⟨used, rfl, ra, ca, rb, cb, rc, cc, hu, ha, hb, hc⟩ := reads_threeArguments he hE hr
  refine hs.misbuilt ?_
  simpa [call, Token.chars_eq.mp hn, hu] using Unbuildable.andOr ha hb hc hx

theorem pinpoints_map {f : α → β} (hp : Pinpoints src all p s) :
    Pinpoints src all (do let y ← p; pure (f y)) s :=
  hp.before fun _ _ => pinpoints_pure

theorem pinpoints_fragment (he : src.IsClosed) (hE : e.Reads (IsExpression src.store))
    (hP : ∀ s, Pinpoints src all e s) (hs : Heads all name s) :
    Pinpoints src all (fragment src e limit name) s := by
  have hkey : Pinpoints src all (parenthesized src (publicKey src)) s :=
    pinpoints_parenthesized fun _ => pinpoints_publicKey he
  have himage : Pinpoints src all (parenthesized src (hashImage src)) s :=
    pinpoints_parenthesized fun _ => pinpoints_hashImage
  unfold fragment
  split
  · exact pinpoints_pure
  · exact pinpoints_pure
  · exact pinpoints_map hkey
  · exact pinpoints_map hkey
  · exact pinpoints_map himage
  · exact pinpoints_map himage
  · exact pinpoints_map (pinpoints_height nofun)
  · exact pinpoints_map (pinpoints_height nofun)
  · exact pinpoints_counted he ‹_› hs nofun (fun _ => pinpoints_publicKey he) (reads_publicKey he)
      .multi
  · exact pinpoints_pair he hE hP .andV ‹_› hs
  · exact pinpoints_pair he hE hP .andB ‹_› hs
  · exact pinpoints_pair he hE hP .orB ‹_› hs
  · exact pinpoints_pair he hE hP .orC ‹_› hs
  · exact pinpoints_pair he hE hP .orD ‹_› hs
  · exact pinpoints_pair he hE hP .orI ‹_› hs
  · exact pinpoints_andOr he hE hP ‹_› hs
  · exact pinpoints_counted he ‹_› hs nofun hP hE.argument .thresh
  · exact pinpoints_failAt hs.isPlace nofun

end Fragment

/-! ### Expressions, trees and descriptors -/

/-- A row of letters around a call that is built; what fails is the letter in front of those that
were applied. -/
theorem pinpoints_applyLetters {core : Words} {row : List Char} (hx : Spells src.store [] core x)
    (ht : IsPlace src all t)
    (hm : ∀ outer c inner y e, row = outer ++ c :: inner → Spells src.store inner core y →
      applyLetter c y = .error e → Misbuilt src.store all t e) :
    Pinpoints src all (applyLetters t row x) s := by
  induction row generalizing s with
  | nil => exact pinpoints_pure
  | cons c row ih =>
    have hrow : Pinpoints src all (applyLetters t row x) s :=
      ih fun outer d inner y e hr => hm (c :: outer) d inner y e (by rw [hr]; rfl)
    refine hrow.bind fun y s' hy _ => ?_
    refine pinpoints_typedAt ht fun e he => ?_
    exact hm [] c row y e rfl (spells_row hx hy).2 he

theorem pinpoints_word : Pinpoints src all (word src) s :=
  pinpoints_next_bind fun _ _ ht =>
    pinpoints_unless (pinpoints_failAt ht nofun) (fun _ _ => not_yields_failAt) pinpoints_pure

theorem pinpoints_wrappedName (he : src.IsClosed) : Pinpoints src all (wrappedName src) s := by
  intro hs
  refine pinpoints_word.bind (fun t s' ht _ => ?_) hs
  obtain ⟨rfl, -⟩ := (yields_word he).mp ht
  refine pinpoints_peek_bind fun _ _ => pinpoints_ite ?_ pinpoints_pure
  refine pinpoints_next_bind fun _ _ _ => ?_
  split
  · exact pinpoints_failAt (Or.inl (hs.mem List.mem_cons_self)) nofun
  · exact pinpoints_word.before fun _ _ => pinpoints_pure

theorem pinpoints_expression (he : src.IsClosed) (limit depth : Nat) :
    Pinpoints src all (expression src limit depth) s := by
  induction depth generalizing s with
  | zero => exact pinpoints_failAt (Or.inr rfl) nofun
  | succ n ih =>
    intro hs
    refine (pinpoints_wrappedName he).bind (fun r s₁ hr _ => ?_) hs
    obtain ⟨row, name⟩ := r
    have hE := reads_expression he limit n
    rcases (yields_wrappedName he).mp hr with ⟨t, colon, rfl, -, hc, -, -, rfl⟩ | ⟨rfl, -, rfl, -⟩
    · obtain ⟨front, rfl⟩ := hs
      have hn : Heads (front ++ t :: colon :: name :: s₁) name s₁ := ⟨front ++ [t, colon], by simp⟩
      refine (pinpoints_fragment he hE (fun _ => ih) hn).bind fun x s₂ hx _ => ?_
      obtain ⟨used, rfl, hcall⟩ := called_fragment he hE hx
      refine pinpoints_applyLetters hcall hn.isPlace fun outer c inner y e hrow hy hl => ?_
      exact .letter rfl hc hrow hy hl
    · obtain ⟨front, rfl⟩ := hs
      have hn : Heads (front ++ name :: s₁) name s₁ := ⟨front, rfl⟩
      exact (pinpoints_fragment he hE (fun _ => ih) hn).before fun _ _ => pinpoints_pure

theorem pinpoints_leaf (he : src.IsClosed) (limit : Nat) :
    Pinpoints src all (Parser.leaf src limit) s := by
  refine pinpoints_peek_bind fun _ ht => ?_
  refine (pinpoints_expression he limit limit).before fun _ _ => ?_
  exact pinpoints_unless (pinpoints_failAt ht nofun) (fun _ _ => not_yields_failAt) pinpoints_pure

theorem pinpoints_tree (he : src.IsClosed) (limit depth : Nat) :
    Pinpoints src all (Parser.tree src limit depth) s := by
  induction depth generalizing s with
  | zero => exact pinpoints_failAt (Or.inr rfl) nofun
  | succ n ih =>
    refine pinpoints_peek_bind fun _ _ => pinpoints_ite ?_ (pinpoints_leaf he limit)
    refine pinpoints_next_bind fun _ _ _ => ?_
    refine ih.before fun _ _ => ?_
    refine pinpoints_expect.before fun _ _ => ?_
    refine ih.before fun _ _ => ?_
    exact pinpoints_expect.before fun _ _ => pinpoints_pure

theorem pinpoints_end {key : Bytes} {scripts : Option ScriptTree} :
    Pinpoints src all (do
      expect src ')'
      match ← get with
      | [] => return (⟨key, scripts⟩ : Descriptor)
      | t :: _ => failAt .trailingInput t) s := by
  refine pinpoints_expect.bind fun _ s₁ _ hs₁ => ?_
  cases s₁ with
  | nil => exact pinpoints_pure
  | cons t rest =>
    have ht : IsPlace src all t := Or.inl (hs₁.mem List.mem_cons_self)
    exact pinpoints_failAt ht nofun

theorem pinpoints_descriptor (he : src.IsClosed) (limit : Nat) :
    Pinpoints src all (descriptor src limit) s := by
  refine pinpoints_next_bind fun _ _ ht => ?_
  refine pinpoints_unless (pinpoints_failAt ht nofun) (fun _ _ => not_yields_failAt) ?_
  refine pinpoints_expect.before fun _ _ => ?_
  refine (pinpoints_publicKey he).before fun _ _ => ?_
  refine pinpoints_comma.before fun _ _ => pinpoints_ite ?_ pinpoints_end
  have htree s : Pinpoints src all (some <$> Parser.tree src limit limit) s :=
    pinpoints_map (pinpoints_tree he limit limit)
  exact (htree _).before fun _ _ => pinpoints_end

end Faults

/-! ## Faults of texts -/

section Texts

variable {store : Store} {cs body : List Char} {fault : SyntaxFault} {t : Token}

theorem exists_of_places_eq_error {offset position : Nat} {c : Char}
    (h : Checksum.places offset cs = .error (c, position)) :
    ∃ before behind, cs = before ++ c :: behind ∧ offset + before.length = position := by
  induction cs generalizing offset with
  | nil => cases h
  | cons d cs ih =>
    cases hd : Checksum.alphabet.idxOf? d with
    | none =>
      rw [Checksum.places_cons_of_none hd] at h
      cases h
      exact ⟨[], cs, rfl, rfl⟩
    | some v =>
      rw [Checksum.places_cons hd, map_eq_error] at h
      obtain ⟨before, behind, rfl, hp⟩ := ih h
      exact ⟨d :: before, behind, rfl, by rw [← hp, List.length_cons]; omega⟩

theorem fault_of_descriptorChecksum (h : descriptorChecksum body = .error (.syntaxAt fault t))
    (behind : List Char) : t.StandsIn (body ++ behind) ∧ fault = .forbiddenCharacter := by
  unfold descriptorChecksum at h
  split at h
  · cases h
  · rename_i c position hc
    cases h
    rw [Checksum.compute, map_eq_error] at hc
    obtain ⟨before, rest, rfl, hp⟩ := exists_of_places_eq_error hc
    exact ⟨standsIn_of_append before (rest ++ behind) (by simp) (by simpa using hp), rfl⟩

theorem fault_of_readBody (h : readBody store body = .error (.syntaxAt fault t)) :
    (t ∈ Token.scan body ∨ t = .ending body.length) ∧
      ∀ e, fault = .illTyped e → Misbuilt store (Token.scan body) t e := by
  rw [readBody, StateT.run', map_eq_error] at h
  have he : (Source.mk store (.ending body.length)).IsClosed := rfl
  obtain ⟨hplace, hcause⟩ := (pinpoints_descriptor he _ List.suffix_rfl).2 fault t h
  exact ⟨hplace, hcause⟩

/-- A fault is reported at a token of the trimmed text, or at the end of its body; a type error at
the name of the fragment that was not to be built, or did not take a letter. -/
theorem fault_of_read {text : String} (h : read store text = .error (.syntaxAt fault t)) :
    ∃ body, IsBodyOf (Text.trim Text.isBlank text.toList) body ∧
      (t = .ending body.length ∨ t.StandsIn (Text.trim Text.isBlank text.toList)) ∧
      ∀ e, fault = .illTyped e → Misbuilt store (Token.scan body) t e := by
  rw [read] at h
  dsimp only at h
  split at h
  · rename_i hs
    obtain ⟨hplace, hcause⟩ := fault_of_readBody h
    refine ⟨_, Or.inl ⟨splitChecksum?_eq_none.mp hs, rfl⟩, ?_, hcause⟩
    rcases hplace with ht | rfl
    · have hst := standsIn_of_mem_scan ht []
      rw [List.append_nil] at hst
      exact Or.inr hst
    · exact Or.inl rfl
  · rename_i body given hs
    obtain ⟨hcs, hn⟩ := splitChecksum?_eq_some.mp hs
    refine ⟨body, Or.inr ⟨given, hn, hcs⟩, ?_⟩
    rw [hcs]
    rcases bind_eq_error.mp h with hsum | ⟨expected, -, h⟩
    · obtain ⟨hst, rfl⟩ := fault_of_descriptorChecksum hsum ('#' :: given)
      exact ⟨Or.inr hst, fun e he => by cases he⟩
    · split at h
      · cases h
        refine ⟨Or.inr ?_, fun e he => by cases he⟩
        exact standsIn_of_append (body ++ ['#']) [] (by simp) (by simp)
      · obtain ⟨hplace, hcause⟩ := fault_of_readBody h
        refine ⟨?_, hcause⟩
        rcases hplace with ht | rfl
        · exact Or.inr (standsIn_of_mem_scan ht _)
        · exact Or.inl rfl

end Texts

namespace NestedLetter

/-- Within `and_v`, the letter `d` stands before a `B` expression. -/
def text : String :=
  " tr(c6047f9441ed7d6d3045406e95c07cd85c778e4b8cef3ca7abac09b95c709ee5, and_v(
    v:pk(f9308a019258c31049344f85f89d5229b531c845836f99b08601f113bce036f9), d:older(144)) )"

def fault : DescriptorError := .syntaxAt (.illTyped (.wrap .d)) ⟨"older".toList, 154⟩

set_option maxRecDepth 4000 in
theorem is_refused : read SpacedText.earlierStore text = .error fault := by
  have hchars : text.toList = _ := String.toList_ofList
  rw [← errorOf_eq_some, read, hchars]
  decide +kernel

theorem blames_inner_name : read SpacedText.earlierStore text = .error fault ∧
    ∃ body, IsBodyOf (Text.trim Text.isBlank text.toList) body ∧
      ((⟨"older".toList, 154⟩ : Token) = .ending body.length ∨
        (⟨"older".toList, 154⟩ : Token).StandsIn (Text.trim Text.isBlank text.toList)) ∧
      ∀ e, SyntaxFault.illTyped (.wrap .d) = .illTyped e →
        Misbuilt SpacedText.earlierStore (Token.scan body) ⟨"older".toList, 154⟩ e :=
  ⟨is_refused, fault_of_read is_refused⟩

end NestedLetter

end Descriptor
end Taproot
