import Mathlib.Data.List.Forall2
import Mathlib.Data.Option.Defs
import Taproot.Proofs.Descriptor.RoundTrip
import Taproot.Proofs.Miniscript.TypeRules

/-! # What a descriptor says

The grammar derives from words an expression in which nothing is typed and no wrapper is understood.
Its elaboration puts a wrapper where a `B` expression stands in the position of a `V` or a `W` one.
A text is read as a descriptor exactly where it says that descriptor: its words derive a policy
whose elaboration is well typed, with terms that the store allows.
-/
namespace Taproot.Descriptor

open Miniscript

/-- A letter before the colon of an expression. -/
inductive Letter
  | wrapper (w : Wrapper)
  | andTrue
  | falseOr
  | orFalse

def Letter.char : Letter → Char
  | wrapper w => w.letter
  | andTrue => 't'
  | falseOr => 'l'
  | orFalse => 'u'

/-- An expression as it is written. -/
inductive Expression
  | just (value : Bool)
  | pk (key : Bytes)
  | pkK (key : Bytes)
  | sha256 (digest : Bytes)
  | after (height : Nat)
  | older (height : Nat)
  | multi (k : Nat) (keys : List Bytes)
  | pair (p : Pair) (x y : Expression)
  | andOr (x y z : Expression)
  | thresh (k : Nat) (branches : List Expression)
  | lettered (letter : Letter) (x : Expression)

/-! ## The grammar -/

structure SpellsHex (cs : List Char) (b : Bytes) : Prop where
  digits : Parser.isHex32 cs = true
  value : Text.readHex cs = some b

/-- A fragment, or an expression with or without letters. -/
inductive Symbol
  | fragment
  | expression

inductive Derives : Symbol → Words → Expression → Prop
  | zero : Derives .fragment [['0']] (.just false)
  | one : Derives .fragment [['1']] (.just true)
  | pk {cs : List Char} {k : Bytes} : SpellsHex cs k →
    Derives .fragment (call "pk" [cs]) (.pk k)
  | pkK {cs : List Char} {k : Bytes} : SpellsHex cs k →
    Derives .fragment (call "pk_k" [cs]) (.pkK k)
  | multi {cs : List Char} {k : Nat} {keys : List (List Char × Bytes)} : SpellsNumber cs k →
    keys ≠ [] → (∀ p ∈ keys, SpellsHex p.1 p.2) →
    Derives .fragment (call "multi_a" (cs :: keys.flatMap fun p => [[','], p.1]))
      (.multi k (keys.map Prod.snd))
  | sha256 {cs : List Char} {h : Bytes} : SpellsHex cs h →
    Derives .fragment (call "sha256" [cs]) (.sha256 h)
  | sha256Preimage {cs : List Char} {h : Bytes} : SpellsHex cs h →
    Derives .fragment (call "sha256_preimage" [cs]) (.sha256 h)
  | after {cs : List Char} {n : Nat} : SpellsNumber cs n →
    Derives .fragment (call "after" [cs]) (.after n)
  | older {cs : List Char} {n : Nat} : SpellsNumber cs n →
    Derives .fragment (call "older" [cs]) (.older n)
  | pair (p : Pair) {xs ys : Words} {x y : Expression} : Derives .expression xs x →
    Derives .expression ys y → Derives .fragment (call p.name (xs ++ [','] :: ys)) (.pair p x y)
  | andOr {xs ys zs : Words} {x y z : Expression} : Derives .expression xs x →
    Derives .expression ys y → Derives .expression zs z →
    Derives .fragment (call "andor" (xs ++ [','] :: (ys ++ [','] :: zs))) (.andOr x y z)
  | thresh {cs : List Char} {k : Nat} {args : List (Words × Expression)} : SpellsNumber cs k →
    args ≠ [] → (∀ a ∈ args, Derives .expression a.1 a.2) →
    Derives .fragment (call "thresh" (cs :: args.flatMap fun a => [','] :: a.1))
      (.thresh k (args.map Prod.snd))
  | bare {ws : Words} {x : Expression} : Derives .fragment ws x → Derives .expression ws x
  | wrapped {row : List Letter} {ws : Words} {x : Expression} : row ≠ [] → Derives .fragment ws x →
    Derives .expression (row.map Letter.char :: [':'] :: ws) (row.foldr .lettered x)

inductive PolicyTree
  | leaf (x : Expression)
  | branch (left right : PolicyTree)

inductive DerivesTree : Words → PolicyTree → Prop
  | leaf {ws : Words} {x : Expression} : Derives .expression ws x → DerivesTree ws (.leaf x)
  | branch {ls rs : Words} {l r : PolicyTree} : DerivesTree ls l → DerivesTree rs r →
    DerivesTree (['\x7b'] :: (ls ++ [','] :: (rs ++ [['\x7d']]))) (.branch l r)

/-- A descriptor as it is written. -/
structure Policy where
  internalKey : Bytes
  tree : Option PolicyTree

inductive DerivesPolicy : Words → Policy → Prop
  | keyOnly {cs : List Char} {key : Bytes} : SpellsHex cs key →
    DerivesPolicy (call "tr" [cs]) ⟨key, none⟩
  | withTree {cs : List Char} {key : Bytes} {ts : Words} {t : PolicyTree} : SpellsHex cs key →
    DerivesTree ts t → DerivesPolicy (call "tr" (cs :: [','] :: ts)) ⟨key, some t⟩

/-! ## Terms -/

/-- What an expression names. -/
inductive Term
  | key (k : Bytes)
  | image (h : Bytes)
  | after (n : Nat)
  | older (n : Nat)

def Term.Allowed (store : Store) : Term → Prop
  | key k => (PublicKey.point? k).isSome = true ∧ (store.findKey? k).isSome = true
  | image h => (store.findImage? h).isSome = true
  | after n => 1 ≤ n ∧ n ≤ 499999999
  | older n => 1 ≤ n ∧ n ≤ 65535

mutual

def Expression.terms : Expression → List Term
  | just _ => []
  | pk k | pkK k => [.key k]
  | sha256 h => [.image h]
  | after n => [.after n]
  | older n => [.older n]
  | multi _ keys => keys.map .key
  | pair _ x y => terms x ++ terms y
  | andOr x y z => terms x ++ terms y ++ terms z
  | thresh _ branches => termsAll branches
  | lettered _ x => terms x

def Expression.termsAll : List Expression → List Term
  | [] => []
  | x :: xs => terms x ++ termsAll xs

end

def PolicyTree.terms : PolicyTree → List Term
  | leaf x => x.terms
  | branch l r => terms l ++ terms r

def Policy.terms (p : Policy) : List Term := .key p.internalKey :: (p.tree.elim [] PolicyTree.terms)

/-! ## Elaboration -/

/-- What a position asks of a `B` expression that stands in it. -/
inductive Position
  | free
  | verify
  | summand

/-- A `B` expression in the position of a `V` or a `W` one is wrapped. -/
def Position.fit (p : Position) (f : Fragment) : Fragment :=
  match p, f.type? with
  | verify, .ok t => if t.base = .B then .wrap .v f else f
  | summand, .ok t => if t.base = .B then if t.o then .wrap .s f else .wrap .a f else f
  | _, _ => f

def Pair.positions : Pair → Position × Position
  | andV => (.verify, .free)
  | andB | orB => (.free, .summand)
  | orC => (.free, .verify)
  | orD | orI => (.free, .free)

/-- Three letters stand for fragments with a constant. -/
def Letter.expand : Letter → Fragment → Fragment
  | wrapper w, f => .wrap w f
  | andTrue, f => .andV f (.just true)
  | falseOr, f => .orI (.just false) f
  | orFalse, f => .orI f (.just false)

def fitBranches : List Fragment → List Fragment
  | [] => []
  | f :: fs => f :: fs.map Position.summand.fit

mutual

def Expression.elaborate : Expression → Fragment
  | just value => .just value
  | pk k => .wrap .c (.key k)
  | pkK k => .key k
  | sha256 h => .image h
  | after n => .after n
  | older n => .older n
  | multi k keys => .multi k keys
  | pair p x y => p.fragment (p.positions.1.fit (elaborate x)) (p.positions.2.fit (elaborate y))
  | andOr x y z => .andOr (elaborate x) (elaborate y) (elaborate z)
  | thresh k branches => .thresh k (fitBranches (elaborateAll branches))
  | lettered letter x => letter.expand (elaborate x)

def Expression.elaborateAll : List Expression → List Fragment
  | [] => []
  | x :: xs => elaborate x :: elaborateAll xs

end

/-- The leaves of the script tree are the elaborations, well typed and of base type `B`. -/
inductive PolicyTree.Elaborates : PolicyTree → ScriptTree → Prop
  | leaf {x : Expression} {y : Typed} : y.fragment = x.elaborate →
    Fragment.WellTyped x.elaborate y.type → y.type.base = .B → Elaborates (leaf x) (.leaf y)
  | branch {l r : PolicyTree} {l' r' : ScriptTree} : Elaborates l l' → Elaborates r r' →
    Elaborates (branch l r) (.branch l' r')

/-- The words say the descriptor. -/
structure Says (store : Store) (ws : Words) (d : Descriptor) (p : Policy) : Prop where
  derives : DerivesPolicy ws p
  allowed : ∀ t ∈ p.terms, t.Allowed store
  internalKey : d.internalKey = p.internalKey
  tree : Option.Rel PolicyTree.Elaborates p.tree d.tree

/-- The words of a text, without the blanks around it. -/
def wordsOf (text : String) : Words :=
  (Token.scan (Text.trim Text.isBlank text.toList)).map Token.chars

theorem Expression.terms_lettered (row : List Letter) (x : Expression) :
    (row.foldr lettered x).terms = x.terms := by
  induction row with
  | nil => rfl
  | cons l row ih => rw [List.foldr_cons, terms, ih]

variable {store : Store} {cs : List Char}

theorem spellsKey_iff {k : Bytes} :
    SpellsKey store cs k ↔ SpellsHex cs k ∧ (Term.key k).Allowed store :=
  ⟨fun h => ⟨⟨h.digits, h.value⟩, h.point, h.known⟩, fun h => ⟨h.1.digits, h.1.value, h.2.1, h.2.2⟩⟩

theorem spellsImage_iff {h : Bytes} :
    SpellsImage store cs h ↔ SpellsHex cs h ∧ (Term.image h).Allowed store :=
  ⟨fun h => ⟨⟨h.digits, h.value⟩, h.known⟩, fun h => ⟨h.1.digits, h.1.value, h.2⟩⟩

/-! ## Elaboration of typed expressions -/

variable {x y : Typed}

theorem fit_verify (x : Typed) : Position.verify.fit x.fragment = x.asVerify.fragment := by
  unfold Position.fit Typed.asVerify
  rw [x.typed]
  by_cases h : x.type.base = .B
  · simp [h, Typed.wrapFitting]
  · simp [h]

theorem fit_summand (x : Typed) : Position.summand.fit x.fragment = x.asSummand.fragment := by
  unfold Position.fit Typed.asSummand
  rw [x.typed]
  by_cases h : x.type.base = .B
  · by_cases ho : x.type.o = true
    · simp [h, ho, Typed.wrapFitting]
    · simp [h, ho, Typed.wrapFitting]
  · simp [h]

theorem Pair.fit_first (p : Pair) (x : Typed) :
    p.positions.1.fit x.fragment = (p.first x).fragment := by
  cases p with
  | andV => exact fit_verify x
  | andB | orB | orC | orD | orI => rfl

theorem Pair.fit_second (p : Pair) (y : Typed) :
    p.positions.2.fit y.fragment = (p.second y).fragment := by
  cases p with
  | andB | orB => exact fit_summand y
  | orC => exact fit_verify y
  | andV | orD | orI => rfl

theorem map_fragment_asBranches (xs : List Typed) :
    (Parser.asBranches xs).map Typed.fragment = fitBranches (xs.map Typed.fragment) := by
  cases xs with
  | nil => rfl
  | cons x xs =>
    simp only [Parser.asBranches, fitBranches, List.map_cons, List.map_map]
    congr 1
    exact List.map_congr_left fun y _ => (fit_summand y).symm

theorem ofLetter?_eq_some {c : Char} {w : Wrapper} (h : Wrapper.ofLetter? c = some w) :
    w.letter = c := by
  simpa using List.find?_some h

theorem applyLetter_eq_ok {l : Letter} :
    Parser.applyLetter l.char x = .ok y ↔ y.fragment = l.expand x.fragment := by
  cases l with
  | wrapper w =>
    have hw : Parser.applyLetter w.letter x = Typed.wrap w x := by cases w <;> rfl
    rw [Letter.char, hw]
    exact Typed.ofResult_eq_ok
  | andTrue | falseOr | orFalse => exact Typed.ofResult_eq_ok

theorem exists_letter {c : Char} (h : Parser.applyLetter c x = .ok y) :
    ∃ l : Letter, l.char = c ∧ y.fragment = l.expand x.fragment := by
  have hc : ∃ l : Letter, l.char = c := by
    have hl := isWrapperLetter_of_applyLetter h
    simp only [Parser.isWrapperLetter, Bool.or_eq_true, beq_iff_eq, Option.isSome_iff_exists] at hl
    rcases hl with ((⟨w, hw⟩ | rfl) | rfl) | rfl
    · exact ⟨.wrapper w, ofLetter?_eq_some hw⟩
    · exact ⟨.andTrue, rfl⟩
    · exact ⟨.falseOr, rfl⟩
    · exact ⟨.orFalse, rfl⟩
  obtain ⟨l, rfl⟩ := hc
  exact ⟨l, rfl, applyLetter_eq_ok.mp h⟩

/-! ## From what is read to what is said -/

/-- The words before and behind the colon derive an expression that is elaborated to `x`. -/
def Expressed (store : Store) (row : List Char) (core : Words) (x : Typed) : Prop :=
  ∃ (ls : List Letter) (e : Expression), row = ls.map Letter.char ∧ Derives .fragment core e ∧
    (ls.foldr .lettered e).elaborate = x.fragment ∧ ∀ t ∈ e.terms, t.Allowed store

theorem Expressed.of_fragment {core : Words} {e : Expression} (hd : Derives .fragment core e)
    (he : e.elaborate = x.fragment) (ha : ∀ t ∈ e.terms, t.Allowed store) :
    Expressed store [] core x := ⟨[], e, rfl, hd, he, ha⟩

theorem Expressed.exists_derives {row : List Char} {core : Words} (h : Expressed store row core x) :
    ∃ e, Derives .expression (written row core) e ∧ e.elaborate = x.fragment ∧
      ∀ t ∈ e.terms, t.Allowed store := by
  obtain ⟨ls, e, rfl, hd, he, ha⟩ := h
  refine ⟨_, ?_, he, by rwa [Expression.terms_lettered]⟩
  cases ls with
  | nil => exact .bare hd
  | cons l ls => exact .wrapped (List.cons_ne_nil l ls) hd

/-- The expressions that the arguments of a threshold derive. -/
theorem exists_branches {args : List Argument}
    (h : ∀ a ∈ args, Expressed store a.row a.core a.value) :
    ∃ bs : List (Words × Expression), (args.flatMap fun a => [','] :: a.words) =
      (bs.flatMap fun b => [','] :: b.1) ∧ (∀ b ∈ bs, Derives .expression b.1 b.2) ∧
      Expression.elaborateAll (bs.map Prod.snd) = (args.map Argument.value).map Typed.fragment ∧
      ∀ t ∈ Expression.termsAll (bs.map Prod.snd), t.Allowed store := by
  induction args with
  | nil => exact ⟨[], rfl, by simp, rfl, by simp [Expression.termsAll]⟩
  | cons a args ih =>
    obtain ⟨e, hd, he, ha⟩ := (h a List.mem_cons_self).exists_derives
    obtain ⟨bs, hw, hbs, hes, hts⟩ := ih fun b hb => h b (List.mem_cons_of_mem a hb)
    refine ⟨(a.words, e) :: bs, ?_, List.forall_mem_cons.mpr ⟨hd, hbs⟩, ?_, ?_⟩
    · rw [List.flatMap_cons, List.flatMap_cons, hw]
    · simp only [List.map_cons, Expression.elaborateAll, he, hes]
    · simp only [List.map_cons, Expression.termsAll, List.forall_mem_append]
      exact ⟨ha, hts⟩

theorem Spells.expressed {row : List Char} {core : Words} (h : Spells store row core x) :
    Expressed store row core x := by
  induction h with
  | just value =>
    cases value with
    | false => exact .of_fragment .zero rfl nofun
    | true => exact .of_fragment .one rfl nofun
  | checkedKey hk =>
    obtain ⟨hx, ha⟩ := spellsKey_iff.mp hk
    exact .of_fragment (.pk hx) rfl (by simpa [Expression.terms] using ha)
  | key hk =>
    obtain ⟨hx, ha⟩ := spellsKey_iff.mp hk
    exact .of_fragment (.pkK hx) rfl (by simpa [Expression.terms] using ha)
  | image hn hh =>
    obtain ⟨hx, ha⟩ := spellsImage_iff.mp hh
    rcases hn with rfl | rfl
    · exact .of_fragment (.sha256 hx) rfl (by simpa [Expression.terms] using ha)
    · exact .of_fragment (.sha256Preimage hx) rfl (by simpa [Expression.terms] using ha)
  | after hn hr =>
    refine .of_fragment (.after hn) rfl ?_
    simp only [Expression.terms, List.mem_singleton, forall_eq, Term.Allowed]
    exact ⟨hr.1, Nat.le_of_lt_succ hr.2⟩
  | older hn hr =>
    refine .of_fragment (.older hn) rfl ?_
    simp only [Expression.terms, List.mem_singleton, forall_eq, Term.Allowed]
    exact ⟨hr.1, Nat.le_of_lt_succ hr.2⟩
  | @multi cs k keys x hk hks hm =>
    have hne : keys ≠ [] := by
      rintro rfl
      exact ExprType.multi_ne_nil (Typed.type_of_ofResult hm) rfl
    refine .of_fragment (.multi hk hne fun p hp => (spellsKey_iff.mp (hks p hp)).1)
      (Typed.ofResult_eq_ok.mp hm).symm fun t ht => ?_
    obtain ⟨_, hm, rfl⟩ := List.mem_map.mp ht
    obtain ⟨p, hp, rfl⟩ := List.mem_map.mp hm
    exact (spellsKey_iff.mp (hks p hp)).2
  | pair p _ _ h ihx ihy =>
    obtain ⟨e₁, hd₁, he₁, ha₁⟩ := ihx.exists_derives
    obtain ⟨e₂, hd₂, he₂, ha₂⟩ := ihy.exists_derives
    refine .of_fragment (.pair p hd₁ hd₂) ?_ (List.forall_mem_append.mpr ⟨ha₁, ha₂⟩)
    rw [Expression.elaborate, he₁, he₂, p.fit_first, p.fit_second]
    exact (Pair.join_eq_ok.mp h).symm
  | andOr _ _ _ h ih₁ ih₂ ih₃ =>
    obtain ⟨e₁, hd₁, he₁, ha₁⟩ := ih₁.exists_derives
    obtain ⟨e₂, hd₂, he₂, ha₂⟩ := ih₂.exists_derives
    obtain ⟨e₃, hd₃, he₃, ha₃⟩ := ih₃.exists_derives
    refine .of_fragment (.andOr hd₁ hd₂ hd₃) ?_ ?_
    · rw [Expression.elaborate, he₁, he₂, he₃]
      exact (Typed.ofResult_eq_ok.mp h).symm
    · simp only [Expression.terms, List.forall_mem_append]
      exact ⟨⟨ha₁, ha₂⟩, ha₃⟩
  | @thresh cs k args x hk _ h ih =>
    obtain ⟨bs, hw, hbs, hes, hts⟩ := exists_branches ih
    have hf := Typed.ofResult_eq_ok.mp h
    have hne : bs ≠ [] := by
      rintro rfl
      have hargs : args = [] := by
        cases args with
        | nil => rfl
        | cons a args => cases hes
      subst hargs
      exact ExprType.thresh_ne_nil (Typed.type_of_ofResult h) rfl
    rw [hw]
    refine .of_fragment (.thresh hk hne hbs) ?_ hts
    rw [Expression.elaborate, hes, hf, map_fragment_asBranches]
  | wrap _ h ih =>
    obtain ⟨ls, e, rfl, hd, he, ha⟩ := ih
    obtain ⟨l, rfl, hl⟩ := exists_letter h
    exact ⟨l :: ls, e, rfl, hd, by rw [List.foldr_cons, Expression.elaborate, he, hl], ha⟩

theorem SpellsTree.exists_derives {ws : Words} {t : ScriptTree} (h : SpellsTree store ws t) :
    ∃ p, DerivesTree ws p ∧ p.Elaborates t ∧ ∀ a ∈ p.terms, a.Allowed store := by
  induction h with
  | @leaf row core x hx hb =>
    obtain ⟨e, hd, he, ha⟩ := hx.expressed.exists_derives
    have ht : Fragment.WellTyped e.elaborate x.type := by
      rw [he, Fragment.wellTyped_iff]
      exact x.typed
    exact ⟨.leaf e, .leaf hd, .leaf he.symm ht hb, ha⟩
  | branch _ _ ihl ihr =>
    obtain ⟨l, hl, hle, hla⟩ := ihl
    obtain ⟨r, hr, hre, hra⟩ := ihr
    exact ⟨.branch l r, .branch hl hr, .branch hle hre, List.forall_mem_append.mpr ⟨hla, hra⟩⟩

theorem SpellsDescriptor.exists_policy {ws : Words} {d : Descriptor}
    (h : SpellsDescriptor store ws d) : ∃ p, Says store ws d p := by
  cases h with
  | keyOnly hk =>
    obtain ⟨hx, ha⟩ := spellsKey_iff.mp hk
    exact ⟨⟨_, none⟩, .keyOnly hx, by simpa [Policy.terms] using ha, rfl, .none⟩
  | withTree hk ht =>
    obtain ⟨hx, ha⟩ := spellsKey_iff.mp hk
    obtain ⟨p, hp, he, hts⟩ := ht.exists_derives
    exact ⟨⟨_, some p⟩, .withTree hx hp, List.forall_mem_cons.mpr ⟨ha, hts⟩, rfl, .some he⟩

/-! ## From what is said to what is read -/

theorem exists_typed {f : Fragment} {t : ExprType} (h : f.type? = .ok t) :
    ∃ x : Typed, x.fragment = f := ⟨⟨f, t, h⟩, rfl⟩

theorem Position.exists_typed_of_fit {p : Position} {f : Fragment} (h : x.fragment = p.fit f) :
    ∃ y : Typed, y.fragment = f := by
  cases hf : f.type? with
  | ok t => exact exists_typed hf
  | error e =>
    have hp : p.fit f = f := by
      cases p <;> simp [fit, hf]
    exact ⟨x, h.trans hp⟩

/-- The parts of a typed fragment are typed. -/
theorem Pair.exists_typed {p : Pair} {f g : Fragment} (h : x.fragment = p.fragment f g) :
    ∃ y z : Typed, y.fragment = f ∧ z.fragment = g := by
  have ht := x.typed
  rw [h] at ht
  cases p <;>
  · simp only [Pair.fragment, Fragment.type?, bind_eq_ok] at ht
    obtain ⟨s, hs, t, ht, -⟩ := ht
    exact ⟨⟨f, s, hs⟩, ⟨g, t, ht⟩, rfl, rfl⟩

theorem exists_typed_of_andOr {f g h : Fragment} (hx : x.fragment = .andOr f g h) :
    ∃ a b c : Typed, a.fragment = f ∧ b.fragment = g ∧ c.fragment = h := by
  have ht := x.typed
  simp only [hx, Fragment.type?, bind_eq_ok] at ht
  obtain ⟨s, hs, t, ht, r, hr, -⟩ := ht
  exact ⟨⟨f, s, hs⟩, ⟨g, t, ht⟩, ⟨h, r, hr⟩, rfl, rfl, rfl⟩

theorem exists_typed_of_types? {fs : List Fragment} {ts : List ExprType}
    (h : Fragment.types? fs = .ok ts) : ∀ f ∈ fs, ∃ x : Typed, x.fragment = f := by
  induction fs generalizing ts with
  | nil => simp
  | cons f fs ih =>
    simp only [Fragment.types?, bind_eq_ok, pure_eq_ok] at h
    obtain ⟨t, ht, ts, hts, -⟩ := h
    exact List.forall_mem_cons.mpr ⟨exists_typed ht, ih hts⟩

theorem exists_typed_of_thresh {k : Int} {fs : List Fragment}
    (hx : x.fragment = .thresh k (fitBranches fs)) :
    ∀ f ∈ fs, ∃ y : Typed, y.fragment = f := by
  have ht := x.typed
  simp only [hx, Fragment.type?, bind_eq_ok] at ht
  obtain ⟨ts, hts, -⟩ := ht
  have hall := exists_typed_of_types? hts
  cases fs with
  | nil => simp
  | cons f fs =>
    obtain ⟨hf, hfs⟩ := List.forall_mem_cons.mp hall
    refine List.forall_mem_cons.mpr ⟨hf, fun g hg => ?_⟩
    obtain ⟨y, hy⟩ := hfs _ (List.mem_map_of_mem hg)
    exact Position.exists_typed_of_fit hy

theorem Letter.exists_typed_of_expand {l : Letter} {f : Fragment} (h : x.fragment = l.expand f) :
    ∃ y : Typed, y.fragment = f := by
  cases l with
  | wrapper w =>
    have ht := x.typed
    simp only [h, Letter.expand, Fragment.type?, bind_eq_ok] at ht
    obtain ⟨s, hs, -⟩ := ht
    exact exists_typed hs
  | andTrue =>
    obtain ⟨y, _, hy, -⟩ := Pair.exists_typed (p := .andV) h
    exact ⟨y, hy⟩
  | falseOr =>
    obtain ⟨_, y, -, hy⟩ := Pair.exists_typed (p := .orI) h
    exact ⟨y, hy⟩
  | orFalse =>
    obtain ⟨y, _, hy, -⟩ := Pair.exists_typed (p := .orI) h
    exact ⟨y, hy⟩

/-- Letters and call that spell `x`; a fragment has no letters. -/
def Spelled (store : Store) (sym : Symbol) (ws : Words) (x : Typed) : Prop :=
  match sym with
  | .fragment => Spells store [] ws x
  | .expression => ∃ row core, ws = written row core ∧ Spells store row core x

theorem spells_row_of_elaborate {core : Words} {e : Expression} (row : List Letter)
    (h : ∀ y : Typed, y.fragment = e.elaborate → Spells store [] core y) :
    ∀ x : Typed, x.fragment = (row.foldr .lettered e).elaborate →
      Spells store (row.map Letter.char) core x := by
  induction row with
  | nil => exact h
  | cons l row ih =>
    intro x hx
    obtain ⟨y, hy⟩ := Letter.exists_typed_of_expand hx
    refine .wrap (ih y hy) (applyLetter_eq_ok.mpr ?_)
    rw [hx, hy]
    rfl

/-- The arguments that spell the branches of a threshold. -/
theorem exists_arguments_of_branches {bs : List (Words × Expression)}
    (h : ∀ b ∈ bs, (∀ t ∈ b.2.terms, t.Allowed store) → ∀ x : Typed, x.fragment = b.2.elaborate →
      Spelled store .expression b.1 x)
    (ha : ∀ t ∈ Expression.termsAll (bs.map Prod.snd), t.Allowed store)
    (ht : ∀ f ∈ Expression.elaborateAll (bs.map Prod.snd), ∃ y : Typed, y.fragment = f) :
    ∃ args : List Argument, (bs.flatMap fun b => [','] :: b.1) =
        (args.flatMap fun a => [','] :: a.words) ∧
      (∀ a ∈ args, Spells store a.row a.core a.value) ∧
      (args.map Argument.value).map Typed.fragment =
        Expression.elaborateAll (bs.map Prod.snd) := by
  induction bs with
  | nil => exact ⟨[], rfl, by simp, rfl⟩
  | cons b bs ih =>
    simp only [List.map_cons, Expression.termsAll, Expression.elaborateAll, List.forall_mem_append,
      List.forall_mem_cons] at h ha ht
    obtain ⟨x, hx⟩ := ht.1
    obtain ⟨row, core, hw, hs⟩ := h.1 ha.1 x hx
    obtain ⟨args, hargs, hsp, hm⟩ := ih h.2 ha.2 ht.2
    refine ⟨⟨row, core, x⟩ :: args, ?_, List.forall_mem_cons.mpr ⟨hs, hsp⟩, ?_⟩
    · rw [List.flatMap_cons, List.flatMap_cons, hargs, hw]
      rfl
    · rw [List.map_cons, List.map_cons, hm, hx]
      rfl

theorem Derives.spelled {sym : Symbol} {ws : Words} {e : Expression} (h : Derives sym ws e)
    (ha : ∀ t ∈ e.terms, t.Allowed store) (x : Typed) (hx : x.fragment = e.elaborate) :
    Spelled store sym ws x := by
  induction h generalizing x with
  | zero =>
    obtain rfl : x = .just false := Typed.eq_of_fragment hx
    exact .just false
  | one =>
    obtain rfl : x = .just true := Typed.eq_of_fragment hx
    exact .just true
  | @pk cs k hk =>
    obtain rfl : x = .checkedKey k := Typed.eq_of_fragment hx
    exact .checkedKey (spellsKey_iff.mpr ⟨hk, ha _ List.mem_cons_self⟩)
  | @pkK cs k hk =>
    obtain rfl : x = .key k := Typed.eq_of_fragment hx
    exact .key (spellsKey_iff.mpr ⟨hk, ha _ List.mem_cons_self⟩)
  | multi hk hne hks =>
    refine .multi hk (fun p hp => spellsKey_iff.mpr ⟨hks p hp, ha _ ?_⟩)
      (Typed.ofResult_eq_ok.mpr hx)
    exact List.mem_map_of_mem (List.mem_map_of_mem hp)
  | @sha256 cs h hh =>
    obtain rfl : x = .image h := Typed.eq_of_fragment hx
    exact .image (.inl rfl) (spellsImage_iff.mpr ⟨hh, ha _ List.mem_cons_self⟩)
  | @sha256Preimage cs h hh =>
    obtain rfl : x = .image h := Typed.eq_of_fragment hx
    exact .image (.inr rfl) (spellsImage_iff.mpr ⟨hh, ha _ List.mem_cons_self⟩)
  | @after cs n hn =>
    obtain rfl : x = .after n := Typed.eq_of_fragment hx
    obtain ⟨h₁, h₂⟩ := ha _ List.mem_cons_self
    exact .after hn ⟨h₁, Nat.lt_succ_of_le h₂⟩
  | @older cs n hn =>
    obtain rfl : x = .older n := Typed.eq_of_fragment hx
    obtain ⟨h₁, h₂⟩ := ha _ List.mem_cons_self
    exact .older hn ⟨h₁, Nat.lt_succ_of_le h₂⟩
  | pair p _ _ ih₁ ih₂ =>
    obtain ⟨h₁, h₂⟩ := List.forall_mem_append.mp ha
    obtain ⟨f, g, hf, hg⟩ := Pair.exists_typed hx
    obtain ⟨y, hy⟩ := Position.exists_typed_of_fit hf
    obtain ⟨z, hz⟩ := Position.exists_typed_of_fit hg
    obtain ⟨ry, cy, rfl, hsy⟩ := ih₁ h₁ y hy
    obtain ⟨rz, cz, rfl, hsz⟩ := ih₂ h₂ z hz
    refine .pair p hsy hsz (Pair.join_eq_ok.mpr ?_)
    rw [hx, Expression.elaborate, ← hy, ← hz, p.fit_first, p.fit_second]
  | andOr _ _ _ ih₁ ih₂ ih₃ =>
    simp only [Expression.terms, List.forall_mem_append] at ha
    obtain ⟨⟨h₁, h₂⟩, h₃⟩ := ha
    obtain ⟨a, b, c, hf, hg, hh⟩ := exists_typed_of_andOr hx
    obtain ⟨ra, ca, rfl, hsa⟩ := ih₁ h₁ a hf
    obtain ⟨rb, cb, rfl, hsb⟩ := ih₂ h₂ b hg
    obtain ⟨rc, cc, rfl, hsc⟩ := ih₃ h₃ c hh
    refine .andOr hsa hsb hsc (Typed.ofResult_eq_ok.mpr ?_)
    rw [hx, Expression.elaborate, hf, hg, hh]
  | thresh hk hne _ ih =>
    have ht := exists_typed_of_thresh hx
    obtain ⟨args, hw, hsp, hm⟩ := exists_arguments_of_branches ih ha ht
    rw [hw]
    refine .thresh hk hsp (Typed.ofResult_eq_ok.mpr ?_)
    rw [hx, Expression.elaborate, map_fragment_asBranches, hm]
  | bare _ ih => exact ⟨[], _, rfl, ih ha x hx⟩
  | @wrapped row ws e hne _ ih =>
    rw [Expression.terms_lettered] at ha
    refine ⟨row.map Letter.char, ws, ?_, spells_row_of_elaborate row (ih ha) x hx⟩
    cases row with
    | nil => exact absurd rfl hne
    | cons l row => rfl

theorem DerivesTree.spellsTree {ws : Words} {p : PolicyTree} {t : ScriptTree}
    (h : DerivesTree ws p) (ha : ∀ a ∈ p.terms, a.Allowed store) (he : p.Elaborates t) :
    SpellsTree store ws t := by
  induction h generalizing t with
  | leaf hd =>
    cases he with
    | leaf hx _ hb =>
      obtain ⟨row, core, rfl, hs⟩ := hd.spelled ha _ hx
      exact .leaf hs hb
  | branch _ _ ihl ihr =>
    obtain ⟨hl, hr⟩ := List.forall_mem_append.mp ha
    cases he with
    | branch hel her => exact .branch (ihl hl hel) (ihr hr her)

theorem Says.spellsDescriptor {ws : Words} {d : Descriptor} {p : Policy} (h : Says store ws d p) :
    SpellsDescriptor store ws d := by
  obtain ⟨hd, ha, hk, ht⟩ := h
  obtain ⟨key, tree⟩ := d
  cases hk
  cases hd with
  | keyOnly hx =>
    cases ht
    exact .keyOnly (spellsKey_iff.mpr ⟨hx, ha _ List.mem_cons_self⟩)
  | withTree hx hp =>
    obtain ⟨hkey, hts⟩ := List.forall_mem_cons.mp ha
    cases ht with
    | some he => exact .withTree (spellsKey_iff.mpr ⟨hx, hkey⟩) (hp.spellsTree hts he)

theorem spellsDescriptor_iff {ws : Words} {d : Descriptor} :
    SpellsDescriptor store ws d ↔ ∃ p, Says store ws d p :=
  ⟨SpellsDescriptor.exists_policy, fun ⟨_, h⟩ => h.spellsDescriptor⟩

/-! ## Reading -/

/-- A text without a checksum is read as the descriptor that its words say, of which there is at
most one. -/
theorem read_eq_ok_iff {text : String} (h : '#' ∉ text.toList) :
    (∀ d, read store text = .ok d ↔ ∃ p, Says store (wordsOf text) d p) ∧
      ∀ d d' p p', Says store (wordsOf text) d p → Says store (wordsOf text) d' p' → d = d' := by
  have hread : ∀ d, read store text = .ok d ↔ ∃ p, Says store (wordsOf text) d p := by
    intro d
    rw [read_of_notMem h, readBody_eq_ok]
    exact spellsDescriptor_iff
  refine ⟨hread, fun d d' p p' hd hd' => ?_⟩
  have h₁ := (hread d).mpr ⟨p, hd⟩
  have h₂ := (hread d').mpr ⟨p', hd'⟩
  exact Except.ok.inj (h₁.symm.trans h₂)

/-- What the words of a text with a missing wrapper and a letter for `and_v` say. -/
theorem SpacedText.is_said : ∃ d p, Says earlierStore (wordsOf text) d p ∧ d.text = canonicalText := by
  obtain ⟨d, hd, ht⟩ := exists_of_map_toOption is_read
  obtain ⟨p, hp⟩ := ((read_eq_ok_iff hash_notMem).1 d).mp hd
  exact ⟨d, p, hp, ht⟩

end Taproot.Descriptor
