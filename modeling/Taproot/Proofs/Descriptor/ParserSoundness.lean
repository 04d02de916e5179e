import Taproot.Proofs.Descriptor.Steps

/-! # What is read is spelled

A descriptor that is read has its tokens from the grammar: each step takes tokens from the front and
answers what they spell.
-/
namespace Taproot.Descriptor

open Miniscript Descriptor.Parser

variable {α ι : Type} {src : Source}

/-- Whatever the parser answers is spelled by the tokens that it takes. -/
def Parser.Reads (p : Parser α) (R : Words → α → Prop) : Prop :=
  ∀ ⦃s : List Token⦄ ⦃x : α⦄ ⦃s' : List Token⦄, Yields p s x s' →
    ∃ used, s = used ++ s' ∧ R (used.map Token.chars) x

/-- The tokens are a row of letters and a call. -/
def IsExpression (store : Store) (ws : Words) (x : Typed) : Prop :=
  ∃ row core, ws = written row core ∧ Spells store row core x

/-- Items behind commas, where an item comes with what it was read from. -/
theorem reads_afterCommas {item : Parser α} {view : ι → Words} {value : ι → α} {P : ι → Prop}
    (he : src.IsClosed) (hi : item.Reads fun ws x => ∃ i, ws = view i ∧ value i = x ∧ P i)
    (limit : Nat) : (afterCommas src item limit).Reads fun ws xs =>
      ∃ is : List ι, ws = (is.flatMap fun i => [','] :: view i) ∧ xs = is.map value ∧
        ∀ i ∈ is, P i := by
  induction limit with
  | zero =>
    intro s xs s' h
    obtain ⟨rfl, rfl⟩ := yields_pure.mp h
    exact ⟨[], rfl, [], rfl, rfl, by simp⟩
  | succ n ih =>
    intro s xs s' h
    rw [afterCommas, yields_bind] at h
    obtain ⟨b, s₁, hb, h⟩ := h
    rcases (yields_comma he).mp hb with ⟨rfl, t, rfl, ht⟩ | ⟨rfl, rfl, -⟩
    · simp only [↓reduceIte, yields_bind, yields_pure] at h
      obtain ⟨x, s₂, hx, ys, s₃, hys, rfl, rfl⟩ := h
      obtain ⟨u₁, rfl, i, hv, rfl, hp⟩ := hi hx
      obtain ⟨u₂, rfl, is, hvs, rfl, hps⟩ := ih hys
      refine ⟨t :: (u₁ ++ u₂), by simp, i :: is, ?_, rfl, ?_⟩
      · simp [ht, hv, hvs]
      · intro j hj
        rcases List.mem_cons.mp hj with rfl | hj
        · exact hp
        · exact hps j hj
    · simp only [Bool.false_eq_true, ↓reduceIte, yields_pure] at h
      obtain ⟨rfl, rfl⟩ := h
      exact ⟨[], rfl, [], rfl, rfl, by simp⟩

/-! ## Arguments -/

section Arguments

variable {e : Parser Typed}

theorem reads_publicKey (he : src.IsClosed) : (publicKey src).Reads fun ws k =>
    ∃ i : List Char × Bytes, ws = [i.1] ∧ i.2 = k ∧ SpellsKey src.store i.1 i.2 := by
  intro s k s' h
  obtain ⟨t, rfl, hk⟩ := (yields_publicKey he).mp h
  exact ⟨[t], rfl, (t.chars, k), rfl, rfl, hk⟩

theorem Parser.Reads.argument (hE : e.Reads (IsExpression src.store)) : e.Reads fun ws y =>
    ∃ a : Argument, ws = a.words ∧ a.value = y ∧ Spells src.store a.row a.core a.value := by
  intro s y s' h
  obtain ⟨u, rfl, row, core, hw, hy⟩ := hE h
  exact ⟨u, rfl, ⟨row, core, y⟩, hw, rfl, hy⟩

theorem reads_twoArguments (he : src.IsClosed) (hE : e.Reads (IsExpression src.store)) :
    (twoArguments src e).Reads fun ws r => ∃ ra ca rb cb,
      ws = ['('] :: (written ra ca ++ [','] :: (written rb cb ++ [[')']])) ∧
        Spells src.store ra ca r.1 ∧ Spells src.store rb cb r.2 := by
  intro s r s' h
  obtain ⟨t₁, t₂, t₃, s₁, s₂, rfl, h₁, ha, h₂, hb, h₃⟩ := (yields_twoArguments he).mp h
  obtain ⟨u₁, rfl, ra, ca, hw₁, ha'⟩ := hE ha
  obtain ⟨u₂, rfl, rb, cb, hw₂, hb'⟩ := hE hb
  exact ⟨t₁ :: (u₁ ++ t₂ :: (u₂ ++ [t₃])), by simp, ra, ca, rb, cb,
    by simp [h₁, h₂, h₃, hw₁, hw₂], ha', hb'⟩

theorem reads_threeArguments (he : src.IsClosed) (hE : e.Reads (IsExpression src.store)) :
    (threeArguments src e).Reads fun ws r => ∃ ra ca rb cb rc cc,
      ws = ['('] :: (written ra ca ++ [','] :: (written rb cb ++ [','] ::
        (written rc cc ++ [[')']]))) ∧
        Spells src.store ra ca r.1 ∧ Spells src.store rb cb r.2.1 ∧
        Spells src.store rc cc r.2.2 := by
  intro s r s' h
  obtain ⟨t₁, t₂, t₃, t₄, s₁, s₂, s₃, rfl, h₁, ha, h₂, hb, h₃, hc, h₄⟩ :=
    (yields_threeArguments he).mp h
  obtain ⟨u₁, rfl, ra, ca, hw₁, ha'⟩ := hE ha
  obtain ⟨u₂, rfl, rb, cb, hw₂, hb'⟩ := hE hb
  obtain ⟨u₃, rfl, rc, cc, hw₃, hc'⟩ := hE hc
  exact ⟨t₁ :: (u₁ ++ t₂ :: (u₂ ++ t₃ :: (u₃ ++ [t₄]))), by simp, ra, ca, rb, cb, rc, cc,
    by simp [h₁, h₂, h₃, h₄, hw₁, hw₂, hw₃], ha', hb', hc'⟩

/-- A number in front of items behind commas. -/
theorem reads_counted {item : Parser α} {view : ι → Words} {value : ι → α} {P : ι → Prop}
    {limit k : Nat} {xs : List α} {s s₁ s₂ s₃ s' : List Token} {u v : Unit} (he : src.IsClosed)
    (hi : item.Reads fun ws x => ∃ i, ws = view i ∧ value i = x ∧ P i)
    (h₁ : Yields (expect src '(') s u s₁) (h₂ : Yields (numeral src) s₁ k s₂)
    (h₃ : Yields (afterCommas src item limit) s₂ xs s₃) (h₄ : Yields (expect src ')') s₃ v s') :
    ∃ used, s = used ++ s' ∧ ∃ cs, ∃ is : List ι,
      used.map Token.chars = ['('] :: (cs :: (is.flatMap fun i => [','] :: view i) ++ [[')']]) ∧
        SpellsNumber cs k ∧ xs = is.map value ∧ ∀ i ∈ is, P i := by
  obtain ⟨t₁, rfl, ht₁⟩ := (yields_expect he).mp h₁
  obtain ⟨t₂, rfl, ht₂⟩ := (yields_numeral he).mp h₂
  obtain ⟨used, rfl, is, hu, hx, hp⟩ := reads_afterCommas he hi limit h₃
  obtain ⟨t₃, rfl, ht₃⟩ := (yields_expect he).mp h₄
  exact ⟨t₁ :: t₂ :: (used ++ [t₃]), by simp, t₂.chars, is, by simp [ht₁, ht₃, hu], ht₂, hx, hp⟩

end Arguments

/-! ## Fragments -/

section Fragment

variable {e : Parser Typed} {limit : Nat} {name : Token} {s s' : List Token} {x : Typed}

/-- The name and the tokens behind it spell a fragment. -/
def Called (src : Source) (name : Token) (s : List Token) (x : Typed) (s' : List Token) : Prop :=
  ∃ used, s = used ++ s' ∧ Spells src.store [] (name.chars :: used.map Token.chars) x

theorem called_single {β : Type} {item : Parser β} {R : List Char → β → Prop}
    (he : src.IsClosed)
    (hi : ∀ {s y s'}, Yields item s y s' → ∃ t, s = t :: s' ∧ R t.chars y) {n : String}
    (hn : name.text = n) {build : β → Typed}
    (hb : ∀ {cs y}, R cs y → Spells src.store [] (call n [cs]) (build y))
    (h : Yields (do let y ← parenthesized src item; pure (build y)) s x s') :
    Called src name s x s' := by
  rw [yields_bind] at h
  obtain ⟨y, s₁, hy, hx⟩ := h
  obtain ⟨rfl, rfl⟩ := yields_pure.mp hx
  obtain ⟨t₁, t₂, s₂, rfl, h₁, hy, h₂⟩ := (yields_parenthesized he).mp hy
  obtain ⟨t, rfl, hr⟩ := hi hy
  refine ⟨[t₁, t, t₂], rfl, ?_⟩
  simpa [call, Token.chars_eq.mp hn, h₁, h₂] using hb hr

theorem called_height {bound : Nat} {fault : SyntaxFault} (he : src.IsClosed) {n : String}
    (hn : name.text = n) {build : Nat → Typed}
    (hb : ∀ {cs k}, SpellsNumber cs k → 1 ≤ k ∧ k < bound →
      Spells src.store [] (call n [cs]) (build k))
    (h : Yields (do let k ← height src bound fault; pure (build k)) s x s') :
    Called src name s x s' := by
  rw [yields_bind] at h
  obtain ⟨k, s₁, hk, hx⟩ := h
  obtain ⟨rfl, rfl⟩ := yields_pure.mp hx
  obtain ⟨t₁, t₂, t₃, rfl, h₁, h₂, h₃, hr⟩ := (yields_height he).mp hk
  refine ⟨[t₁, t₂, t₃], rfl, ?_⟩
  simpa [call, Token.chars_eq.mp hn, h₁, h₃] using hb h₂ hr

/-- A number and items behind it, of which a fragment is built. -/
theorem called_counted {item : Parser α} {view : ι → Words} {value : ι → α} {P : ι → Prop}
    {fault : SyntaxFault} {build : Nat → List α → Except TypeError Typed} (he : src.IsClosed)
    {n : String} (hn : name.text = n)
    (hi : item.Reads fun ws x => ∃ i, ws = view i ∧ value i = x ∧ P i)
    (hb : ∀ {cs k} {is : List ι}, SpellsNumber cs k → (∀ i ∈ is, P i) →
      build k (is.map value) = .ok x →
      Spells src.store [] (call n (cs :: is.flatMap fun i => [','] :: view i)) x)
    (h : Yields (do
      expect src '('
      let k ← numeral src
      let xs ← afterCommas src item limit
      expect src ')'
      if xs.isEmpty then failAt fault name
      typedAt name (build k xs)) s x s') : Called src name s x s' := by
  simp only [yields_bind, yields_unless fun _ _ => not_yields_bind fun _ _ => not_yields_failAt,
    yields_typedAt] at h
  obtain ⟨_, s₁, h₁, k, s₂, h₂, xs, s₃, h₃, _, s₄, h₄, -, hx, rfl⟩ := h
  obtain ⟨used, rfl, cs, is, hu, hk, rfl, hs⟩ := reads_counted he hi h₁ h₂ h₃ h₄
  refine ⟨used, rfl, ?_⟩
  simpa [call, Token.chars_eq.mp hn, hu] using hb hk hs hx

theorem called_pair (he : src.IsClosed) (hE : e.Reads (IsExpression src.store)) (p : Pair)
    (hn : name.text = p.name)
    (h : Yields (do
      let (a, b) ← twoArguments src e
      typedAt name (p.join (p.first a) (p.second b))) s x s') : Called src name s x s' := by
  rw [yields_bind] at h
  obtain ⟨⟨a, b⟩, s₁, hab, h⟩ := h
  obtain ⟨hx, rfl⟩ := yields_typedAt.mp h
  obtain ⟨used, rfl, ra, ca, rb, cb, hu, ha, hb⟩ := reads_twoArguments he hE hab
  refine ⟨used, rfl, ?_⟩
  simpa [call, Token.chars_eq.mp hn, hu] using Spells.pair p ha hb hx

theorem called_andOr (he : src.IsClosed) (hE : e.Reads (IsExpression src.store))
    (hn : name.text = "andor")
    (h : Yields (do
      let (a, b, c) ← threeArguments src e
      typedAt name (Typed.andOr a b c)) s x s') : Called src name s x s' := by
  rw [yields_bind] at h
  obtain ⟨⟨a, b, c⟩, s₁, hr, h⟩ := h
  obtain ⟨hx, rfl⟩ := yields_typedAt.mp h
  obtain ⟨used, rfl, ra, ca, rb, cb, rc, cc, hu, ha, hb, hc⟩ := reads_threeArguments he hE hr
  refine ⟨used, rfl, ?_⟩
  simpa [call, Token.chars_eq.mp hn, hu] using Spells.andOr ha hb hc hx

theorem called_fragment (he : src.IsClosed) (hE : e.Reads (IsExpression src.store))
    (h : Yields (fragment src e limit name) s x s') : Called src name s x s' := by
  unfold fragment at h
  split at h
  · rename_i hn
    obtain ⟨rfl, rfl⟩ := yields_pure.mp h
    refine ⟨[], rfl, ?_⟩
    rw [Token.chars_eq.mp hn]
    exact Spells.just false
  · rename_i hn
    obtain ⟨rfl, rfl⟩ := yields_pure.mp h
    refine ⟨[], rfl, ?_⟩
    rw [Token.chars_eq.mp hn]
    exact Spells.just true
  · exact called_single he (yields_publicKey he).mp ‹_› .checkedKey h
  · exact called_single he (yields_publicKey he).mp ‹_› .key h
  · exact called_single he (yields_hashImage he).mp ‹_› (.image (Or.inl rfl)) h
  · exact called_single he (yields_hashImage he).mp ‹_› (.image (Or.inr rfl)) h
  · exact called_height he ‹_› .after h
  · exact called_height he ‹_› .older h
  · exact called_counted he ‹_› (reads_publicKey he) .multi h
  · exact called_pair he hE .andV ‹_› h
  · exact called_pair he hE .andB ‹_› h
  · exact called_pair he hE .orB ‹_› h
  · exact called_pair he hE .orC ‹_› h
  · exact called_pair he hE .orD ‹_› h
  · exact called_pair he hE .orI ‹_› h
  · exact called_andOr he hE ‹_› h
  · exact called_counted he ‹_› hE.argument .thresh h
  · exact absurd h not_yields_failAt

end Fragment

/-! ## Expressions, trees and descriptors -/

/-- A row of letters around an expression, the last letter first. -/
theorem spells_row {store : Store} {token : Token} {row : List Char} {core : Words} {x y : Typed}
    {s s' : List Token} (hx : Spells store [] core x) (h : Yields (applyLetters token row x) s y s') :
    s' = s ∧ Spells store row core y := by
  induction row generalizing y s' with
  | nil =>
    obtain ⟨rfl, rfl⟩ := yields_pure.mp h
    exact ⟨rfl, hx⟩
  | cons c row ih =>
    rw [applyLetters, yields_bind] at h
    obtain ⟨z, s₁, hz, h⟩ := h
    obtain ⟨hy, rfl⟩ := yields_typedAt.mp h
    obtain ⟨rfl, hz'⟩ := ih hz
    exact ⟨rfl, .wrap hz' hy⟩

theorem isWord_ne_nil {t : Token} (h : t.isWord = true) : t.chars ≠ [] := by
  intro hn
  rw [Token.isWord, hn] at h
  cases h

theorem written_wrappedName {row : List Char} {name : Token} {s s' : List Token}
    (he : src.IsClosed) (h : Yields (wrappedName src) s (row, name) s') :
    ∃ used, s = used ++ s' ∧ ∀ args, used.map Token.chars ++ args = written row (name.chars :: args) := by
  rcases (yields_wrappedName he).mp h with ⟨t₁, t₂, rfl, hw, hc, -, -, rfl⟩ | ⟨rfl, -, rfl, -⟩
  · refine ⟨[t₁, t₂, name], rfl, fun args => ?_⟩
    obtain ⟨c, row, hr⟩ := List.exists_cons_of_ne_nil (isWord_ne_nil hw)
    simp [written, hr, hc]
  · exact ⟨[name], rfl, fun args => rfl⟩

theorem reads_expression (he : src.IsClosed) (limit depth : Nat) :
    (expression src limit depth).Reads (IsExpression src.store) := by
  induction depth with
  | zero => exact fun _ _ _ h => absurd h not_yields_failAt
  | succ n ih =>
    intro s x s' h
    rw [expression, yields_bind] at h
    obtain ⟨⟨row, name⟩, s₁, hn, h⟩ := h
    simp only [yields_bind] at h
    obtain ⟨y, s₂, hy, hx⟩ := h
    obtain ⟨u₁, rfl, hu⟩ := written_wrappedName he hn
    obtain ⟨u₂, rfl, hy'⟩ := called_fragment he ih hy
    obtain ⟨rfl, hx'⟩ := spells_row hy' hx
    exact ⟨u₁ ++ u₂, by simp, row, _, by rw [List.map_append, hu], hx'⟩

theorem reads_leaf (he : src.IsClosed) (limit : Nat) :
    (Parser.leaf src limit).Reads (SpellsTree src.store) := by
  intro s t s' h
  simp only [Parser.leaf, yields_bind, yields_peek, yields_pure,
    yields_unless fun _ _ => not_yields_bind fun _ _ => not_yields_failAt] at h
  obtain ⟨_, _, ⟨rfl, rfl⟩, x, s₁, hx, hb, rfl, rfl⟩ := h
  obtain ⟨u, rfl, row, core, hw, hx'⟩ := reads_expression he limit limit hx
  refine ⟨u, rfl, ?_⟩
  rw [hw]
  exact .leaf hx' (Decidable.not_not.mp hb)

theorem reads_tree (he : src.IsClosed) (limit depth : Nat) :
    (Parser.tree src limit depth).Reads (SpellsTree src.store) := by
  induction depth with
  | zero => exact fun _ _ _ h => absurd h not_yields_failAt
  | succ n ih =>
    intro s x s' h
    rw [Parser.tree, yields_choice he] at h
    rcases h with ⟨t₁, rest, rfl, h₁, h⟩ | ⟨-, h⟩
    · simp only [yields_bind, yields_expect he, yields_pure] at h
      obtain ⟨l, s₁, hl, -, s₂, ⟨t₂, rfl, h₂⟩, r, s₃, hr, -, s₄, ⟨t₃, rfl, h₃⟩, rfl, rfl⟩ := h
      obtain ⟨u₁, rfl, hl'⟩ := ih hl
      obtain ⟨u₂, rfl, hr'⟩ := ih hr
      refine ⟨t₁ :: (u₁ ++ t₂ :: (u₂ ++ [t₃])), by simp, ?_⟩
      simpa [h₁, h₂, h₃] using SpellsTree.branch hl' hr'
    · exact reads_leaf he limit h

theorem spells_descriptor {s s' : List Token} {d : Descriptor} {limit : Nat} (he : src.IsClosed)
    (h : Yields (descriptor src limit) s d s') :
    SpellsDescriptor src.store (s.map Token.chars) d := by
  obtain ⟨key, scripts⟩ := d
  obtain ⟨rfl, t₁, t₂, t₃, rest, rfl, h₁, h₂, hk, h⟩ := (yields_descriptor he).mp h
  rcases h with ⟨rfl, t₄, rfl, h₄⟩ | ⟨t₄, t₅, s₁, x, rfl, h₄, rfl, hx, h₅⟩
  · simpa [call, h₁, h₂, h₄] using SpellsDescriptor.keyOnly hk
  · obtain ⟨u, rfl, hx'⟩ := reads_tree he limit limit hx
    simpa [call, h₁, h₂, h₄, h₅] using SpellsDescriptor.withTree hk hx'

end Taproot.Descriptor
