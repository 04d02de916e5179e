import Taproot.Proofs.Descriptor.Steps
import Taproot.Proofs.Miniscript.Typing
import Taproot.Proofs.Miniscript.Wrapping

/-! # What is spelled is read

Tokens from the grammar are read, wherever they stand, as what they spell. The bounds of the parser
do not matter, since a part has fewer tokens than the whole.
-/
namespace Taproot.Descriptor

open Miniscript Descriptor.Parser

variable {α ι : Type} {src : Source}

/-- The parser answers `x` to any tokens of the given characters, unless a colon comes next. -/
def Parser.Accepts (src : Source) (p : Parser α) (ws : Words) (x : α) : Prop :=
  ∀ ⦃used rest : List Token⦄, used.map Token.chars = ws → (rest.headD src.ending).chars ≠ [':'] →
    Yields p (used ++ rest) x rest

/-! ## Tokens of given characters -/

section Split

variable {used : List Token} {ws ws' : Words} {cs : List Char}

theorem exists_around (h : used.map Token.chars = ws ++ cs :: ws') :
    ∃ u t v, used = u ++ t :: v ∧ u.map Token.chars = ws ∧ t.chars = cs ∧
      v.map Token.chars = ws' := by
  obtain ⟨u, v, rfl, hu, hv⟩ := List.map_eq_append_iff.mp h
  obtain ⟨t, v, rfl, ht, hv⟩ := List.map_eq_cons_iff.mp hv
  exact ⟨u, t, v, rfl, hu, ht, hv⟩

theorem exists_enclosed (h : used.map Token.chars = cs :: (ws ++ [[')']])) :
    ∃ t u t', used = t :: (u ++ [t']) ∧ t.chars = cs ∧ u.map Token.chars = ws ∧
      t'.chars = [')'] := by
  obtain ⟨t, v, rfl, ht, hv⟩ := List.map_eq_cons_iff.mp h
  obtain ⟨u, t', v, rfl, hu, ht', hv⟩ := exists_around hv
  obtain rfl := List.map_eq_nil_iff.mp hv
  exact ⟨t, u, t', rfl, ht, hu, ht'⟩

end Split

theorem accepts_afterCommas {item : Parser α} {view : ι → Words} {value : ι → α}
    (he : src.IsClosed) {is : List ι} {limit : Nat} (hl : is.length ≤ limit)
    (hi : ∀ i ∈ is, Accepts src item (view i) (value i)) {used rest : List Token}
    (hu : used.map Token.chars = is.flatMap fun i => [','] :: view i)
    (hr : (rest.headD src.ending).chars = [')']) :
    Yields (afterCommas src item limit) (used ++ rest) (is.map value) rest := by
  induction is generalizing used limit with
  | nil =>
    obtain rfl := List.map_eq_nil_iff.mp hu
    cases limit with
    | zero => exact yields_pure.mpr ⟨rfl, rfl⟩
    | succ n =>
      rw [afterCommas, yields_bind]
      refine ⟨false, rest, (yields_comma he).mpr (Or.inr ⟨rfl, rfl, ?_⟩), ?_⟩
      · rw [List.nil_append, hr]
        simp
      · exact yields_pure.mpr ⟨rfl, rfl⟩
  | cons i is ih =>
    cases limit with
    | zero => simp at hl
    | succ n =>
      obtain ⟨t, v, rfl, ht, hv⟩ := List.map_eq_cons_iff.mp hu
      obtain ⟨u, v, rfl, hu, hv⟩ := List.map_eq_append_iff.mp hv
      have hn : ((v ++ rest).headD src.ending).chars ≠ [':'] := by
        cases is with
        | nil =>
          obtain rfl := List.map_eq_nil_iff.mp hv
          rw [List.nil_append, hr]
          simp
        | cons j is =>
          obtain ⟨t', v, rfl, ht', -⟩ := List.map_eq_cons_iff.mp hv
          simp [ht']
      have hx := hi i List.mem_cons_self hu hn
      have hxs := ih (by simpa using hl) (fun j hj => hi j (List.mem_cons_of_mem i hj)) hv
      rw [afterCommas, yields_bind]
      refine ⟨true, u ++ (v ++ rest), (yields_comma he).mpr (Or.inl ⟨rfl, t, by simp, ht⟩), ?_⟩
      simp only [↓reduceIte, yields_bind, yields_pure]
      exact ⟨value i, _, hx, _, _, hxs, rfl, rfl⟩

/-! ## Fragments -/

/-- What stands in parentheses behind a name. -/
def enclosed (inner : Words) : Words := ['('] :: (inner ++ [[')']])

section Fragment

variable {e : Parser Typed} {limit : Nat} {name : Token}

theorem accepts_single {β : Type} {item : Parser β} {cs : List Char} {y : β} {build : β → Typed}
    (he : src.IsClosed) (hi : ∀ {t s}, t.chars = cs → Yields item (t :: s) y s) :
    Accepts src (do let y ← parenthesized src item; pure (build y)) (enclosed [cs]) (build y) := by
  intro used rest hu _
  obtain ⟨t₁, u, t₂, rfl, h₁, hu, h₂⟩ := exists_enclosed hu
  obtain ⟨t, v, rfl, ht, hv⟩ := List.map_eq_cons_iff.mp hu
  obtain rfl := List.map_eq_nil_iff.mp hv
  refine yields_bind.mpr ⟨y, rest, ?_, yields_pure.mpr ⟨rfl, rfl⟩⟩
  exact (yields_parenthesized he).mpr ⟨t₁, t₂, _, rfl, h₁, hi ht, h₂⟩

theorem accepts_height {bound k : Nat} {fault : SyntaxFault} {cs : List Char} {build : Nat → Typed}
    (he : src.IsClosed) (hk : SpellsNumber cs k) (hb : 1 ≤ k ∧ k < bound) :
    Accepts src (do let k ← height src bound fault; pure (build k)) (enclosed [cs]) (build k) := by
  intro used rest hu _
  obtain ⟨t₁, u, t₂, rfl, h₁, hu, h₂⟩ := exists_enclosed hu
  obtain ⟨t, v, rfl, rfl, hv⟩ := List.map_eq_cons_iff.mp hu
  obtain rfl := List.map_eq_nil_iff.mp hv
  refine yields_bind.mpr ⟨k, rest, ?_, yields_pure.mpr ⟨rfl, rfl⟩⟩
  exact (yields_height he).mpr ⟨t₁, t, t₂, rfl, h₁, hk, h₂, hb⟩

/-- A number and the items behind it are read, and a fragment is built of them. -/
theorem accepts_counted {item : Parser α} {view : ι → Words} {value : ι → α} {cs : List Char}
    {k : Nat} {is : List ι} {fault : SyntaxFault} {x : Typed}
    (build : Nat → List α → Except TypeError Typed) (he : src.IsClosed) (hl : is.length ≤ limit)
    (hk : SpellsNumber cs k) (hi : ∀ i ∈ is, Accepts src item (view i) (value i))
    (hne : is.map value ≠ []) (hx : build k (is.map value) = .ok x) :
    Accepts src (do
      expect src '('
      let k ← numeral src
      let xs ← afterCommas src item limit
      expect src ')'
      if xs.isEmpty then failAt fault name
      typedAt name (build k xs)) (enclosed (cs :: is.flatMap fun i => [','] :: view i)) x := by
  intro used rest hu _
  obtain ⟨t₁, u, t₂, rfl, h₁, hu, h₂⟩ := exists_enclosed hu
  obtain ⟨t, v, rfl, rfl, hv⟩ := List.map_eq_cons_iff.mp hu
  have hy : Yields (afterCommas src item limit) (v ++ t₂ :: rest) (is.map value) (t₂ :: rest) :=
    accepts_afterCommas he hl hi hv h₂
  simp only [yields_bind, yields_expect he, yields_numeral he, yields_typedAt,
    yields_unless fun _ _ => not_yields_bind fun _ _ => not_yields_failAt]
  exact ⟨⟨⟩, _, ⟨t₁, rfl, h₁⟩, k, _, ⟨t, rfl, hk⟩, _, _, by simpa using hy, ⟨⟩, rest,
    ⟨t₂, rfl, h₂⟩, mt List.isEmpty_iff.mp hne, hx, rfl⟩

theorem accepts_multi {cs : List Char} {k : Nat} {keys : List (List Char × Bytes)} {x : Typed}
    (he : src.IsClosed) (hn : name.text = "multi_a") (hl : keys.length ≤ limit)
    (hk : SpellsNumber cs k) (hs : ∀ p ∈ keys, SpellsKey src.store p.1 p.2)
    (hx : Typed.multi k (keys.map Prod.snd) = .ok x) :
    Accepts src (fragment src e limit name)
      (enclosed (cs :: keys.flatMap fun p => [[','], p.1])) x := by
  have hi : ∀ p ∈ keys, Accepts src (publicKey src) [p.1] p.2 := by
    intro p hp used rest hu _
    obtain ⟨t, v, rfl, ht, hv⟩ := List.map_eq_cons_iff.mp hu
    obtain rfl := List.map_eq_nil_iff.mp hv
    exact (yields_publicKey he).mpr ⟨t, rfl, ht ▸ hs p hp⟩
  have hne : keys.map Prod.snd ≠ [] := ExprType.multi_ne_nil (Typed.type_of_ofResult hx)
  simp only [fragment, hn]
  exact accepts_counted (fun k keys => Typed.multi k keys) he hl hk hi hne hx

theorem fragment_pair (p : Pair) (hn : name.text = p.name) :
    fragment src e limit name = (do
      let (a, b) ← twoArguments src e
      typedAt name (p.join (p.first a) (p.second b))) := by
  cases p <;> simp only [fragment, hn, Pair.name] <;> rfl

theorem accepts_pair (p : Pair) {as bs : Words} {a b x : Typed} (he : src.IsClosed)
    (hn : name.text = p.name) (ha : Accepts src e as a) (hb : Accepts src e bs b)
    (hx : p.join (p.first a) (p.second b) = .ok x) :
    Accepts src (fragment src e limit name) (enclosed (as ++ [','] :: bs)) x := by
  intro used rest ht _
  obtain ⟨t₁, inner, t₃, rfl, h₁, hi, h₃⟩ := exists_enclosed ht
  obtain ⟨u, t₂, v, rfl, hu, h₂, hv⟩ := exists_around hi
  rw [fragment_pair p hn, yields_bind]
  refine ⟨(a, b), rest, (yields_twoArguments he).mpr ?_, yields_typedAt.mpr ⟨hx, rfl⟩⟩
  refine ⟨t₁, t₂, t₃, u ++ t₂ :: (v ++ t₃ :: rest), v ++ t₃ :: rest, by simp, h₁, ?_, h₂, ?_, h₃⟩
  · exact ha hu (by simp [h₂])
  · exact hb hv (by simp [h₃])

theorem accepts_andOr {as bs cs : Words} {a b c x : Typed} (he : src.IsClosed)
    (hn : name.text = "andor") (ha : Accepts src e as a) (hb : Accepts src e bs b)
    (hc : Accepts src e cs c) (hx : Typed.andOr a b c = .ok x) :
    Accepts src (fragment src e limit name)
      (enclosed (as ++ [','] :: (bs ++ [','] :: cs))) x := by
  intro used rest ht _
  obtain ⟨t₁, inner, t₄, rfl, h₁, hi, h₄⟩ := exists_enclosed ht
  obtain ⟨u, t₂, others, rfl, hu, h₂, ho⟩ := exists_around hi
  obtain ⟨v, t₃, w, rfl, hv, h₃, hw⟩ := exists_around ho
  simp only [fragment, hn]
  rw [yields_bind]
  refine ⟨(a, b, c), rest, (yields_threeArguments he).mpr ?_, yields_typedAt.mpr ⟨hx, rfl⟩⟩
  refine ⟨t₁, t₂, t₃, t₄, u ++ t₂ :: (v ++ t₃ :: (w ++ t₄ :: rest)),
    v ++ t₃ :: (w ++ t₄ :: rest), w ++ t₄ :: rest, by simp, h₁, ?_, h₂, ?_, h₃, ?_, h₄⟩
  · exact ha hu (by simp [h₂])
  · exact hb hv (by simp [h₃])
  · exact hc hw (by simp [h₄])

theorem accepts_thresh {cs : List Char} {k : Nat} {args : List Argument} {x : Typed}
    (he : src.IsClosed) (hn : name.text = "thresh") (hl : args.length ≤ limit)
    (hk : SpellsNumber cs k) (ha : ∀ a ∈ args, Accepts src e a.words a.value)
    (hx : Typed.thresh k (asBranches (args.map Argument.value)) = .ok x) :
    Accepts src (fragment src e limit name)
      (enclosed (cs :: args.flatMap fun a => [','] :: a.words)) x := by
  have hne : args.map Argument.value ≠ [] := by
    intro hn
    refine ExprType.thresh_ne_nil (Typed.type_of_ofResult hx) ?_
    rw [hn]
    rfl
  simp only [fragment, hn]
  exact accepts_counted (fun k xs => Typed.thresh k (asBranches xs)) he hl hk ha hne hx

end Fragment

/-! ## Expressions -/

theorem isWord_congr {t u : Token} (h : t.chars = u.chars) : t.isWord = u.isWord := by
  rw [Token.isWord, Token.isWord, h]

theorem isWord_of_isWrapperLetter {c : Char} {row : List Char} (h : isWrapperLetter c = true)
    {t : Token} (ht : t.chars = c :: row) : t.isWord = true := by
  have hall : (letters.all fun c =>
      c == '_' || if c.toNat < 0x80 then c.isAlphanum else Text.alphanumeric.has c) = true := by
    decide
  rw [Token.isWord, ht]
  exact List.all_eq_true.mp hall c (mem_letters h)

/-- A call that is read behind its name, and a row of letters that is applied to it. -/
structure IsRead (src : Source) (row : List Char) (name : List Char) (args : Words) (x : Typed) :
    Prop where
  word : ∀ {t : Token}, t.chars = name → t.isWord = true
  letters : ∀ c ∈ row, isWrapperLetter c = true
  noColon : ∀ cs ∈ args.head?, cs ≠ [':']
  call : ∃ y, (∀ {t s}, Yields (applyLetters t row y) s x s) ∧
    ∀ {depth limit : Nat} {t : Token}, t.chars = name → args.length ≤ depth → args.length ≤ limit →
      Accepts src (fragment src (expression src limit depth) limit t) args y

theorem IsRead.expression {row name : List Char} {args : Words} {x : Typed} (he : src.IsClosed)
    (h : IsRead src row name args x) {depth limit : Nat}
    (hd : (written row (name :: args)).length ≤ depth)
    (hl : (written row (name :: args)).length ≤ limit) :
    Accepts src (Parser.expression src limit depth) (written row (name :: args)) x := by
  intro used rest hu hr
  obtain ⟨y, hrow, hcall⟩ := h.call
  cases depth with
  | zero => cases row <;> simp [written] at hd
  | succ n =>
    rw [Parser.expression, yields_bind]
    cases row with
    | nil =>
      obtain ⟨t, v, rfl, ht, hv⟩ := List.map_eq_cons_iff.mp hu
      have hn : ((v ++ rest).headD src.ending).chars ≠ [':'] := by
        cases v with
        | nil => exact hr
        | cons t' v =>
          subst hv
          exact h.noColon _ rfl
      have hc : Yields (fragment src (Parser.expression src limit n) limit t) (v ++ rest) y rest :=
        hcall ht (by simpa [written] using hd) (by simp [written] at hl; omega) hv hr
      exact ⟨([], t), v ++ rest, (yields_wrappedName he).mpr (Or.inr ⟨rfl, h.word ht, rfl, hn⟩),
        yields_bind.mpr ⟨y, rest, hc, hrow⟩⟩
    | cons c row =>
      obtain ⟨t₁, v, rfl, h₁, hv⟩ := List.map_eq_cons_iff.mp hu
      obtain ⟨t₂, v, rfl, h₂, hv⟩ := List.map_eq_cons_iff.mp hv
      obtain ⟨t, v, rfl, ht, hv⟩ := List.map_eq_cons_iff.mp hv
      have hc : Yields (fragment src (Parser.expression src limit n) limit t) (v ++ rest) y rest :=
        hcall ht (by simp [written] at hd; omega) (by simp [written] at hl; omega) hv hr
      have hw := isWord_of_isWrapperLetter (h.letters c List.mem_cons_self) h₁
      exact ⟨(c :: row, t), v ++ rest, (yields_wrappedName he).mpr (Or.inl
        ⟨t₁, t₂, rfl, hw, h₂, h₁ ▸ h.letters, h.word ht, h₁.symm⟩),
        yields_bind.mpr ⟨y, rest, hc, hrow⟩⟩

/-- An expression begins with a word. -/
theorem IsRead.head_ne {row name : List Char} {args : Words} {x : Typed}
    (h : IsRead src row name args x) {used rest : List Token}
    (hu : used.map Token.chars = written row (name :: args)) :
    ((used ++ rest).headD src.ending).chars ≠ ['\x7b'] := by
  have hw : ∀ {t : Token}, t.isWord = true → t.chars ≠ ['\x7b'] := by
    intro t ht hc
    have := ht.symm.trans (isWord_congr (u := ⟨['\x7b'], 0⟩) hc)
    cases this
  cases row with
  | nil =>
    obtain ⟨t, v, rfl, ht, -⟩ := List.map_eq_cons_iff.mp hu
    exact hw (h.word ht)
  | cons c row =>
    obtain ⟨t, v, rfl, ht, -⟩ := List.map_eq_cons_iff.mp hu
    exact hw (isWord_of_isWrapperLetter (h.letters c List.mem_cons_self) ht)

theorem isRead_call {name : String} {inner : Words} {x : Typed}
    (hw : (Token.mk name.toList 0).isWord = true)
    (hc : ∀ {depth limit : Nat} {t : Token}, t.text = name → (enclosed inner).length ≤ depth →
      (enclosed inner).length ≤ limit →
      Accepts src (fragment src (expression src limit depth) limit t) (enclosed inner) x) :
    ∃ n args, call name inner = n :: args ∧ IsRead src [] n args x := by
  refine ⟨name.toList, enclosed inner, rfl, fun ht => (isWord_congr ht).trans hw, by simp, ?_, x,
    yields_pure.mpr ⟨rfl, rfl⟩, fun ht => hc (Token.chars_eq.mpr ht)⟩
  simp [enclosed]

theorem length_le_flatMap {β : Type} {xs : List ι} {f : ι → List β} (h : ∀ i, f i ≠ []) :
    xs.length ≤ (xs.flatMap f).length := by
  induction xs with
  | nil => simp
  | cons x xs ih =>
    have := List.length_pos_iff.mpr (h x)
    rw [List.flatMap_cons, List.length_append, List.length_cons]
    omega

theorem length_le_of_mem {β : Type} {xs : List ι} {x : ι} (f : ι → List β) (h : x ∈ xs) :
    (f x).length ≤ (xs.flatMap f).length :=
  (List.sublist_flatten_of_mem (List.mem_map_of_mem h)).length_le

theorem exists_isRead {row : List Char} {core : Words} {x : Typed} (he : src.IsClosed)
    (h : Spells src.store row core x) :
    ∃ name args, core = name :: args ∧ IsRead src row name args x := by
  induction h with
  | just value =>
    refine ⟨_, [], rfl, ?_, by simp, by simp, .just value, yields_pure.mpr ⟨rfl, rfl⟩, ?_⟩
    · intro t ht
      cases value <;> exact isWord_congr (u := ⟨_, 0⟩) ht
    · intro depth limit t ht _ _ used rest hu _
      obtain rfl := List.map_eq_nil_iff.mp hu
      have hn : t.text = if value then "1" else "0" := by
        rw [Token.chars_eq, ht]
        cases value <;> rfl
      cases value with
      | false =>
        simp only [fragment, hn]
        exact yields_pure.mpr ⟨rfl, rfl⟩
      | true =>
        simp only [fragment, hn]
        exact yields_pure.mpr ⟨rfl, rfl⟩
  | checkedKey hk =>
    refine isRead_call rfl fun hn _ _ => ?_
    simp only [fragment, hn]
    exact accepts_single he fun ht => (yields_publicKey he).mpr ⟨_, rfl, ht ▸ hk⟩
  | key hk =>
    refine isRead_call rfl fun hn _ _ => ?_
    simp only [fragment, hn]
    exact accepts_single he fun ht => (yields_publicKey he).mpr ⟨_, rfl, ht ▸ hk⟩
  | image hn hh =>
    rcases hn with rfl | rfl
    · refine isRead_call rfl fun hn _ _ => ?_
      simp only [fragment, hn]
      exact accepts_single he fun ht => (yields_hashImage he).mpr ⟨_, rfl, ht ▸ hh⟩
    · refine isRead_call rfl fun hn _ _ => ?_
      simp only [fragment, hn]
      exact accepts_single he fun ht => (yields_hashImage he).mpr ⟨_, rfl, ht ▸ hh⟩
  | after hn hb =>
    refine isRead_call rfl fun hn' _ _ => ?_
    simp only [fragment, hn']
    exact accepts_height he hn hb
  | older hn hb =>
    refine isRead_call rfl fun hn' _ _ => ?_
    simp only [fragment, hn']
    exact accepts_height he hn hb
  | @multi cs k keys x hk hs hx =>
    refine isRead_call rfl fun hn _ hl => ?_
    have : keys.length ≤ (keys.flatMap fun p => [[','], p.1]).length := length_le_flatMap (by simp)
    exact accepts_multi he hn (by simp [enclosed] at hl; omega) hk hs hx
  | @pair p ra rb ca cb a b x _ _ hz iha ihb =>
    obtain ⟨na, as, rfl, iha⟩ := iha
    obtain ⟨nb, bs, rfl, ihb⟩ := ihb
    refine isRead_call (by cases p <;> rfl) fun hn hd hl => ?_
    simp only [enclosed, List.length_cons, List.length_append] at hd hl
    exact accepts_pair p he hn (iha.expression he (by omega) (by omega))
      (ihb.expression he (by omega) (by omega)) hz
  | andOr _ _ _ hx iha ihb ihc =>
    obtain ⟨na, as, rfl, iha⟩ := iha
    obtain ⟨nb, bs, rfl, ihb⟩ := ihb
    obtain ⟨nc, cs, rfl, ihc⟩ := ihc
    refine isRead_call rfl fun hn hd hl => ?_
    simp only [enclosed, List.length_cons, List.length_append] at hd hl
    exact accepts_andOr he hn (iha.expression he (by omega) (by omega))
      (ihb.expression he (by omega) (by omega)) (ihc.expression he (by omega) (by omega)) hx
  | @thresh cs k args x hk _ hx ih =>
    -- each branch is shorter than the call, so that one level less is enough for it
    refine isRead_call rfl fun hn hd hl => ?_
    have hargs : args.length ≤ (args.flatMap fun a => [','] :: a.words).length :=
      length_le_flatMap (by simp)
    simp only [enclosed, List.length_cons, List.length_append] at hd hl
    refine accepts_thresh he hn (by omega) hk (fun a ha => ?_) hx
    obtain ⟨na, as, hc, iha⟩ := ih a ha
    have hw := length_le_of_mem (fun a : Argument => [','] :: a.words) ha
    rw [List.length_cons, Argument.words, hc] at hw
    rw [Argument.words, hc]
    exact iha.expression he (by omega) (by omega)
  | @wrap c row core x y _ hy ih =>
    obtain ⟨name, args, rfl, ih⟩ := ih
    obtain ⟨z, hz, hcall⟩ := ih.call
    refine ⟨name, args, rfl, ih.word, ?_, ih.noColon, z, ?_, hcall⟩
    · intro d hd
      rcases List.mem_cons.mp hd with rfl | hd
      · exact isWrapperLetter_of_applyLetter hy
      · exact ih.letters d hd
    · intro t s
      rw [applyLetters, yields_bind]
      exact ⟨x, s, hz, yields_typedAt.mpr ⟨hy, rfl⟩⟩

/-! ## Trees and descriptors -/

theorem accepts_tree {ws : Words} {t : ScriptTree} (he : src.IsClosed)
    (h : SpellsTree src.store ws t) {depth limit : Nat} (hd : ws.length ≤ depth)
    (hl : ws.length ≤ limit) : Accepts src (Parser.tree src limit depth) ws t := by
  induction h generalizing depth with
  | @leaf row core x hx hb =>
    obtain ⟨name, args, rfl, hread⟩ := exists_isRead he hx
    intro used rest hu hr
    cases depth with
    | zero => cases row <;> simp [written] at hd
    | succ n =>
      have hn : ((used ++ rest).headD src.ending).chars ≠ ['\x7b'] := hread.head_ne hu
      rw [Parser.tree, yields_choice he]
      refine Or.inr ⟨hn, ?_⟩
      simp only [leaf, yields_bind, yields_peek, yields_pure,
        yields_unless fun _ _ => not_yields_bind fun _ _ => not_yields_failAt]
      exact ⟨_, _, ⟨rfl, rfl⟩, x, rest, hread.expression he hl hl hu hr, not_not_intro hb, rfl, rfl⟩
  | @branch ls rs l r _ _ ihl ihr =>
    intro used rest ht hr
    cases depth with
    | zero => simp at hd
    | succ n =>
      simp only [List.length_cons, List.length_append] at hd hl
      obtain ⟨t₁, inner, rfl, h₁, hi⟩ := List.map_eq_cons_iff.mp ht
      obtain ⟨u, t₂, others, rfl, hu, h₂, ho⟩ := exists_around hi
      obtain ⟨v, t₃, w, rfl, hv, h₃, hw⟩ := exists_around ho
      obtain rfl := List.map_eq_nil_iff.mp hw
      have hlt : Yields (Parser.tree src limit n) (u ++ t₂ :: (v ++ t₃ :: rest)) l
          (t₂ :: (v ++ t₃ :: rest)) := ihl (by omega) (by omega) hu (by simp [h₂])
      have hrt : Yields (Parser.tree src limit n) (v ++ t₃ :: rest) r (t₃ :: rest) :=
        ihr (by omega) (by omega) hv (by simp [h₃])
      rw [Parser.tree, yields_choice he]
      refine Or.inl ⟨t₁, _, rfl, h₁, ?_⟩
      simp only [yields_bind, yields_expect he, yields_pure]
      exact ⟨l, _, by simpa using hlt, ⟨⟩, _, ⟨t₂, rfl, h₂⟩, r, _, hrt, ⟨⟩, rest, ⟨t₃, rfl, h₃⟩,
        rfl, rfl⟩

theorem accepts_descriptor {ws : Words} {d : Descriptor} (he : src.IsClosed)
    (h : SpellsDescriptor src.store ws d) {limit : Nat} (hl : ws.length ≤ limit)
    {s : List Token} (hs : s.map Token.chars = ws) : Yields (descriptor src limit) s d [] := by
  rw [yields_descriptor he]
  refine ⟨rfl, ?_⟩
  cases h with
  | keyOnly hk =>
    obtain ⟨t₁, u, rfl, h₁, hu⟩ := List.map_eq_cons_iff.mp hs
    obtain ⟨t₂, u, rfl, h₂, hu⟩ := List.map_eq_cons_iff.mp hu
    obtain ⟨t₃, u, rfl, h₃, hu⟩ := List.map_eq_cons_iff.mp hu
    obtain ⟨t₄, u, rfl, h₄, hu⟩ := List.map_eq_cons_iff.mp hu
    obtain rfl := List.map_eq_nil_iff.mp hu
    exact ⟨t₁, t₂, t₃, [t₄], rfl, h₁, h₂, h₃ ▸ hk, Or.inl ⟨rfl, t₄, rfl, h₄⟩⟩
  | @withTree cs key ts t hk ht =>
    obtain ⟨t₁, u, rfl, h₁, hu⟩ := List.map_eq_cons_iff.mp hs
    obtain ⟨t₂, u, rfl, h₂, hu⟩ := List.map_eq_cons_iff.mp hu
    obtain ⟨t₃, u, rfl, h₃, hu⟩ := List.map_eq_cons_iff.mp hu
    obtain ⟨t₄, inner, rfl, h₄, hi⟩ := List.map_eq_cons_iff.mp hu
    obtain ⟨v, t₅, w, rfl, hv, h₅, hw⟩ := exists_around hi
    obtain rfl := List.map_eq_nil_iff.mp hw
    simp only [call, List.length_cons, List.length_append] at hl
    have hx : Yields (Parser.tree src limit limit) (v ++ [t₅]) t [t₅] :=
      accepts_tree he ht (by omega) (by omega) hv (by simp [h₅])
    exact ⟨t₁, t₂, t₃, _, rfl, h₁, h₂, h₃ ▸ hk, Or.inr ⟨t₄, t₅, _, t, rfl, h₄, rfl, hx, h₅⟩⟩

end Taproot.Descriptor
