import Taproot.Descriptor.Parser

/-! # The grammar of descriptors

How the tokens of a descriptor spell it. An expression is a row of wrapper letters, which may be
empty, and the call of a fragment; the arguments of a call are wrapped as the fragment wants them.
-/
namespace Taproot.Descriptor

open Miniscript

/-- The characters of tokens that follow each other. -/
abbrev Words := List (List Char)

structure SpellsNumber (cs : List Char) (n : Nat) : Prop where
  digits : Text.isNumeral cs = true
  short : cs.length ≤ Text.digitLimit
  value : Text.ofDigits cs = n

structure SpellsKey (store : Store) (cs : List Char) (key : Bytes) : Prop where
  digits : Parser.isHex32 cs = true
  value : Text.readHex cs = some key
  point : (PublicKey.point? key).isSome = true
  known : (store.findKey? key).isSome = true

structure SpellsImage (store : Store) (cs : List Char) (digest : Bytes) : Prop where
  digits : Parser.isHex32 cs = true
  value : Text.readHex cs = some digest
  known : (store.findImage? digest).isSome = true

/-- The fragments of two arguments. -/
inductive Pair
  | andV
  | andB
  | orB
  | orC
  | orD
  | orI

namespace Pair

def name : Pair → String
  | andV => "and_v"
  | andB => "and_b"
  | orB => "or_b"
  | orC => "or_c"
  | orD => "or_d"
  | orI => "or_i"

/-- The first argument as it is wanted. -/
def first : Pair → Typed → Typed
  | andV, x => x.asVerify
  | andB, x | orB, x | orC, x | orD, x | orI, x => x

def second : Pair → Typed → Typed
  | andB, y | orB, y => y.asSummand
  | orC, y => y.asVerify
  | andV, y | orD, y | orI, y => y

def join : Pair → Typed → Typed → Except TypeError Typed
  | andV => Typed.andV
  | andB => Typed.andB
  | orB => Typed.orB
  | orC => Typed.orC
  | orD => Typed.orD
  | orI => Typed.orI

def fragment : Pair → Fragment → Fragment → Fragment
  | andV => .andV
  | andB => .andB
  | orB => .orB
  | orC => .orC
  | orD => .orD
  | orI => .orI

theorem join_eq_ok {p : Pair} {x y z : Typed} :
    p.join x y = .ok z ↔ z.fragment = p.fragment x.fragment y.fragment := by
  cases p <;> exact Typed.ofResult_eq_ok

theorem text_fragment (p : Pair) (x y : Fragment) :
    (p.fragment x y).text = p.name ++ "(" ++ x.text ++ "," ++ y.text ++ ")" := by
  cases p <;> rfl

end Pair

/-! ## Wrapper letters -/

def letters : List Char := ['a', 's', 'c', 'd', 'v', 'j', 'n', 't', 'l', 'u']

theorem mem_letters {c : Char} (h : Parser.isWrapperLetter c = true) : c ∈ letters := by
  simp only [Parser.isWrapperLetter, Bool.or_eq_true, beq_iff_eq, Option.isSome_iff_exists] at h
  rcases h with ((⟨w, hw⟩ | rfl) | rfl) | rfl
  · have hl := List.find?_some hw
    rw [← beq_iff_eq.mp hl]
    cases w <;> simp [letters, Wrapper.letter]
  · simp [letters]
  · simp [letters]
  · simp [letters]

theorem isWrapperLetter_of_applyLetter {c : Char} {x y : Typed}
    (h : Parser.applyLetter c x = .ok y) : Parser.isWrapperLetter c = true := by
  unfold Parser.applyLetter at h
  unfold Parser.isWrapperLetter
  split at h
  · rfl
  · rfl
  · rfl
  · split at h
    · rename_i w hw
      simp [hw]
    · cases h

/-! ## Calls -/

/-- A name and, in parentheses, what stands between them. -/
def call (name : String) (inner : Words) : Words := name.toList :: ['('] :: (inner ++ [[')']])

/-- A row of letters with its colon before a call. -/
def written (row : List Char) (core : Words) : Words :=
  match row with
  | [] => core
  | _ :: _ => row :: [':'] :: core

/-- An expression with its letters and its call. -/
structure Argument where
  row : List Char
  core : Words
  value : Typed

def Argument.words (a : Argument) : Words := written a.row a.core

inductive Spells (store : Store) : List Char → Words → Typed → Prop
  | just (value : Bool) : Spells store [] [if value then ['1'] else ['0']] (.just value)
  | checkedKey {cs : List Char} {k : Bytes} :
    SpellsKey store cs k → Spells store [] (call "pk" [cs]) (.checkedKey k)
  | key {cs : List Char} {k : Bytes} :
    SpellsKey store cs k → Spells store [] (call "pk_k" [cs]) (.key k)
  | image {name : String} {cs : List Char} {h : Bytes} :
    name = "sha256" ∨ name = "sha256_preimage" → SpellsImage store cs h →
    Spells store [] (call name [cs]) (.image h)
  | after {cs : List Char} {n : Nat} : SpellsNumber cs n → 1 ≤ n ∧ n < heightLimit →
    Spells store [] (call "after" [cs]) (.after n)
  | older {cs : List Char} {n : Nat} : SpellsNumber cs n → 1 ≤ n ∧ n < maxRelativeHeight + 1 →
    Spells store [] (call "older" [cs]) (.older n)
  | multi {cs : List Char} {k : Nat} {keys : List (List Char × Bytes)} {x : Typed} :
    SpellsNumber cs k → (∀ p ∈ keys, SpellsKey store p.1 p.2) →
    Typed.multi k (keys.map Prod.snd) = .ok x →
    Spells store [] (call "multi_a" (cs :: keys.flatMap fun p => [[','], p.1])) x
  | pair (p : Pair) {rx ry : List Char} {cx cy : Words} {x y z : Typed} : Spells store rx cx x →
    Spells store ry cy y → p.join (p.first x) (p.second y) = .ok z →
    Spells store [] (call p.name (written rx cx ++ [','] :: written ry cy)) z
  | andOr {ra rb rc : List Char} {ca cb cc : Words} {a b c x : Typed} : Spells store ra ca a →
    Spells store rb cb b → Spells store rc cc c → Typed.andOr a b c = .ok x →
    Spells store []
      (call "andor" (written ra ca ++ [','] :: (written rb cb ++ [','] :: written rc cc))) x
  | thresh {cs : List Char} {k : Nat} {args : List Argument} {x : Typed} : SpellsNumber cs k →
    (∀ a ∈ args, Spells store a.row a.core a.value) →
    Typed.thresh k (Parser.asBranches (args.map Argument.value)) = .ok x →
    Spells store [] (call "thresh" (cs :: args.flatMap fun a => [','] :: a.words)) x
  | wrap {c : Char} {row : List Char} {core : Words} {x y : Typed} : Spells store row core x →
    Parser.applyLetter c x = .ok y → Spells store (c :: row) core y

inductive SpellsTree (store : Store) : Words → ScriptTree → Prop
  | leaf {row : List Char} {core : Words} {x : Typed} : Spells store row core x →
    x.type.base = .B → SpellsTree store (written row core) (.leaf x)
  | branch {ls rs : Words} {l r : ScriptTree} : SpellsTree store ls l → SpellsTree store rs r →
    SpellsTree store (['\x7b'] :: (ls ++ [','] :: (rs ++ [['\x7d']]))) (.branch l r)

inductive SpellsDescriptor (store : Store) : Words → Descriptor → Prop
  | keyOnly {cs : List Char} {key : Bytes} : SpellsKey store cs key →
    SpellsDescriptor store (call "tr" [cs]) ⟨key, none⟩
  | withTree {cs : List Char} {key : Bytes} {ts : Words} {t : ScriptTree} :
    SpellsKey store cs key → SpellsTree store ts t →
    SpellsDescriptor store (call "tr" (cs :: [','] :: ts)) ⟨key, some t⟩

end Taproot.Descriptor
