import Mathlib.Algebra.Order.Ring.Nat
import Taproot.Proofs.Descriptor.Steps
import Taproot.Proofs.Miniscript.Typing
import Taproot.Proofs.Miniscript.Wrapping
import Taproot.Proofs.Text.Numerals

/-! # The text of an expression spells it

An expression that some words spell is spelled by the words of its own text as well, also where
another store is read that knows the same keys and images.
-/
namespace Taproot

/-- The second store has every public key and every image of the first. -/
structure Store.Covered (s s' : Store) : Prop where
  keys : ∀ p ∈ s.keys, ∃ p' ∈ s'.keys, p'.publicKey = p.publicKey
  images : ∀ p ∈ s.images, ∃ p' ∈ s'.images, p'.image = p.image

namespace Store.Covered

variable {s s' : Store}

theorem isSome_findKey? (hs : s.Covered s') {k : Bytes} (h : (s.findKey? k).isSome = true) :
    (s'.findKey? k).isSome = true := by
  simp only [Store.findKey?, List.find?_isSome] at h ⊢
  obtain ⟨p, hp, hk⟩ := h
  obtain ⟨p', hp', he⟩ := hs.keys p hp
  refine ⟨p', hp', ?_⟩
  rw [Store.isKey, he]
  exact hk

theorem isSome_findImage? (hs : s.Covered s') {h : Bytes} (hi : (s.findImage? h).isSome = true) :
    (s'.findImage? h).isSome = true := by
  simp only [Store.findImage?, List.find?_isSome] at hi ⊢
  obtain ⟨p, hp, hk⟩ := hi
  obtain ⟨p', hp', he⟩ := hs.images p hp
  refine ⟨p', hp', ?_⟩
  rw [Store.isImage, he]
  exact hk

end Store.Covered

namespace Descriptor

open Miniscript

variable {store store' : Store}

/-! ## Numbers, keys and images -/

theorem toList_repr_natCast (n : Nat) : (n : Int).repr.toList = Nat.toDigits 10 n :=
  Nat.toList_repr

theorem SpellsNumber.decimal {cs : List Char} {n : Nat} (h : SpellsNumber cs n) :
    SpellsNumber (Nat.toDigits 10 n) n := by
  obtain ⟨hd, hl, rfl⟩ := h
  simp only [Text.isNumeral, Bool.and_eq_true, List.all_eq_true] at hd
  have hlt := Nat.lt_of_lt_of_le (Text.ofDigits_lt hd.2) (Nat.pow_le_pow_right (by decide) hl)
  refine ⟨?_, ?_, Nat.ofDigitChars_ten_toDigits⟩
  · simp only [Text.isNumeral, Bool.and_eq_true, List.all_eq_true]
    refine ⟨by simp, fun c hc => ?_⟩
    exact Nat.isDigit_of_mem_toDigits (by decide) (by decide) hc
  · exact (Nat.length_toDigits_le_iff (by decide) (by decide)).mpr hlt

theorem isHex32_hexChars {b : Bytes} (h : b.length = 32) : Parser.isHex32 b.hexChars = true := by
  simp only [Parser.isHex32, Bool.and_eq_true, decide_eq_true_eq, List.all_eq_true]
  constructor
  · simp [Bytes.hexChars, Bytes.hexPair, List.length_flatMap, h]
  · intro c hc
    obtain ⟨x, -, hx⟩ := List.mem_flatMap.mp hc
    have hlt := x.toNat_lt
    rcases List.mem_cons.mp hx with rfl | hx
    · rw [Text.hexValue?_hexDigit (by omega)]
      rfl
    · rw [List.mem_singleton.mp hx, Text.hexValue?_hexDigit (by omega)]
      rfl

theorem length_of_readHex {cs : List Char} {b : Bytes} (h : Parser.isHex32 cs = true)
    (hb : Text.readHex cs = some b) : b.length = 32 := by
  obtain ⟨b', hb', hl⟩ := Parser.exists_of_isHex32 h
  rw [hb] at hb'
  cases hb'
  exact hl

theorem SpellsKey.lowercase {cs : List Char} {k : Bytes} (h : SpellsKey store cs k)
    (hs : store.Covered store') : SpellsKey store' k.hexChars k :=
  ⟨isHex32_hexChars (length_of_readHex h.digits h.value), Text.readHex_hexChars k, h.point,
    hs.isSome_findKey? h.known⟩

theorem SpellsImage.lowercase {cs : List Char} {d : Bytes} (h : SpellsImage store cs d)
    (hs : store.Covered store') : SpellsImage store' d.hexChars d :=
  ⟨isHex32_hexChars (length_of_readHex h.digits h.value), Text.readHex_hexChars d,
    hs.isSome_findImage? h.known⟩

/-! ## Letters in the text -/

/-- The text begins with a row of letters, in front of which another letter may be put. -/
def hasRow : Fragment → Bool
  | .wrap .c (.key _) => false
  | .wrap _ _ => true
  | _ => false

theorem hasRow_wrap {w : Wrapper} {x : Fragment} (h : w = .c → ∀ k, x ≠ .key k) :
    hasRow (.wrap w x) = true := by
  unfold hasRow
  split
  · rename_i k hw
    cases hw
    exact absurd rfl (h rfl k)
  · rfl
  · rename_i hn
    exact absurd rfl (hn w x)

theorem toList_text_wrap {w : Wrapper} {x : Fragment} (h : w = .c → ∀ k, x ≠ .key k) :
    (Fragment.wrap w x).text.toList =
      w.letter :: ((if hasRow x then [] else [':']) ++ x.text.toList) := by
  rw [Fragment.text]
  unfold Fragment.wrapText hasRow
  split
  · exact absurd rfl (h rfl _)
  · simp
  · rename_i hn
    split
    · rename_i he
      cases he
      exact (hn _ rfl rfl).elim
    · simp
    · rename_i hw
      exact (hw _ _ rfl).elim
  · rename_i hk hw _
    split
    · exact (hk _ rfl).elim
    · exact (hw _ _ rfl).elim
    · simp

theorem flatten_call (name : String) (inner : Words) :
    (call name inner).flatten = name.toList ++ '(' :: (inner.flatten ++ [')']) := by
  simp [call]

theorem flatten_written (row : List Char) (core : Words) :
    (written row core).flatten = row ++ ((if row.isEmpty then [] else [':']) ++ core.flatten) := by
  cases row <;> simp [written]

theorem texts_map (xs : List Typed) :
    Fragment.texts (xs.map Typed.fragment) = xs.map fun x => x.fragment.text := by
  induction xs with
  | nil => rfl
  | cons x xs ih => rw [List.map_cons, Fragment.texts, ih, List.map_cons]

theorem flatten_commas {ι : Type} {is : List ι} {view : ι → Words} {text : ι → String}
    (hn : is ≠ []) (ht : ∀ i ∈ is, (text i).toList = (view i).flatten) :
    (is.flatMap fun i => [','] :: view i).flatten =
      ',' :: (",".intercalate (is.map text)).toList := by
  induction is with
  | nil => exact absurd rfl hn
  | cons i is ih =>
    have hi := ht i List.mem_cons_self
    cases is with
    | nil => simp [hi]
    | cons j is =>
      have hr := ih (List.cons_ne_nil j is) fun k hk => ht k (List.mem_cons_of_mem i hk)
      rw [List.flatMap_cons, List.flatten_append, hr]
      simp [hi]

/-! ## Expressions -/

/-- Words that stand in the text of an expression and spell it. -/
structure Prints (store : Store) (row : List Char) (core : Words) (x : Typed) : Prop where
  spelled : Spells store row core x
  text : x.fragment.text.toList = (written row core).flatten
  row : hasRow x.fragment = !row.isEmpty
  key : ∀ k, x.fragment = .key k → SpellsKey store k.hexChars k

def Printable (store : Store) (x : Typed) : Prop := ∃ row core, Prints store row core x

namespace Printable

variable {x y z : Typed}

theorem of_call {name : String} {inner : Words} (f : Fragment)
    (h : Spells store [] (call name inner) x) (hf : x.fragment = f)
    (ht : f.text.toList = (call name inner).flatten) (hr : hasRow f = false)
    (hk : ∀ k, f ≠ .key k) : Printable store x := by
  subst hf
  exact ⟨[], call name inner, h, ht, hr, fun k he => absurd he (hk k)⟩

theorem just (store : Store) (value : Bool) : Printable store (.just value) := by
  refine ⟨[], _, .just value, ?_, rfl, nofun⟩
  cases value <;> decide

theorem checkedKey {k : Bytes} (h : SpellsKey store k.hexChars k) :
    Printable store (.checkedKey k) := by
  refine of_call (.wrap .c (.key k)) (.checkedKey h) rfl ?_ rfl nofun
  simp [Fragment.text, Fragment.wrapText, flatten_call, Bytes.hex]

theorem wrap {w : Wrapper} (hx : Printable store x) (h : Typed.wrap w x = .ok y) :
    Printable store y := by
  obtain ⟨row, core, hx⟩ := hx
  have hy := Typed.ofResult_eq_ok.mp h
  by_cases hk : w = .c ∧ ∃ k, x.fragment = .key k
  · obtain ⟨rfl, k, hk⟩ := hk
    have he : y = .checkedKey k := Typed.eq_of_fragment (by rw [hy, hk]; rfl)
    rw [he]
    exact checkedKey (hx.key k hk)
  · have hn : w = .c → ∀ k, x.fragment ≠ .key k := fun hw k hf => hk ⟨hw, k, hf⟩
    refine ⟨w.letter :: row, core, .wrap hx.spelled (?_ : _ = Except.ok y), ?_, ?_, ?_⟩
    · cases w <;> exact h
    · rw [hy, toList_text_wrap hn, hx.text, hx.row, flatten_written, flatten_written]
      cases row <;> simp
    · rw [hy, hasRow_wrap hn]
      rfl
    · intro k he
      rw [hy] at he
      cases he

theorem asVerify (hx : Printable store x) : Printable store x.asVerify := by
  rcases x.asVerify_cases with h | h
  · rw [h]
    exact hx
  · exact hx.wrap h

theorem asSummand (hx : Printable store x) : Printable store x.asSummand := by
  rcases x.asSummand_cases with h | ⟨w, h⟩
  · rw [h]
    exact hx
  · exact hx.wrap h

/-- Two arguments that are already as they are wanted. -/
theorem pair (p : Pair) (hx : Printable store x) (hy : Printable store y) (h₁ : p.first x = x)
    (h₂ : p.second y = y) (hz : p.join x y = .ok z) : Printable store z := by
  obtain ⟨rx, cx, hx⟩ := hx
  obtain ⟨ry, cy, hy⟩ := hy
  have hs : Spells store [] (call p.name (written rx cx ++ [','] :: written ry cy)) z :=
    .pair p hx.spelled hy.spelled (by rw [h₁, h₂, hz])
  refine of_call _ hs (Pair.join_eq_ok.mp hz) ?_ ?_ ?_
  · rw [Pair.text_fragment, flatten_call]
    simp [hx.text, hy.text]
  · cases p <;> rfl
  · cases p <;> exact nofun

theorem andOr {u : Typed} (hx : Printable store x) (hy : Printable store y) (hz : Printable store z)
    (h : Typed.andOr x y z = .ok u) : Printable store u := by
  obtain ⟨rx, cx, hx⟩ := hx
  obtain ⟨ry, cy, hy⟩ := hy
  obtain ⟨rz, cz, hz⟩ := hz
  have hs := Spells.andOr hx.spelled hy.spelled hz.spelled h
  refine of_call _ hs (Typed.ofResult_eq_ok.mp h) ?_ rfl nofun
  rw [flatten_call]
  simp [Fragment.text, hx.text, hy.text, hz.text]

theorem multi {cs : List Char} {k : Nat} {keys : List Bytes} (hk : SpellsNumber cs k)
    (hs : ∀ key ∈ keys, SpellsKey store key.hexChars key) (h : Typed.multi k keys = .ok x) :
    Printable store x := by
  let spelled : List (List Char × Bytes) := keys.map fun key => (key.hexChars, key)
  have hm : spelled.map Prod.snd = keys := by simp [spelled, Function.comp_def]
  have hsp : ∀ p ∈ spelled, SpellsKey store p.1 p.2 := by
    intro p hp
    obtain ⟨key, hkey, rfl⟩ := List.mem_map.mp hp
    exact hs key hkey
  have hne : keys ≠ [] := ExprType.multi_ne_nil (Typed.type_of_ofResult h)
  have hc := @flatten_commas _ keys (fun key => [key.hexChars]) Bytes.hex hne fun key _ => by
    simp [Bytes.hex]
  have hs := Spells.multi hk.decimal hsp (by rw [hm, h])
  refine of_call _ hs (Typed.ofResult_eq_ok.mp h) ?_ rfl fun _ he => ?_
  · rw [flatten_call, List.flatMap_map, List.flatten_cons, hc, Fragment.text]
    simp [toList_repr_natCast]
  · cases he

theorem exists_arguments {xs : List Typed} (h : ∀ x ∈ xs, Printable store x) :
    ∃ args : List Argument, args.map Argument.value = xs ∧
      ∀ a ∈ args, Prints store a.row a.core a.value := by
  induction xs with
  | nil => exact ⟨[], rfl, by simp⟩
  | cons x xs ih =>
    obtain ⟨row, core, hx⟩ := h x List.mem_cons_self
    obtain ⟨args, rfl, ha⟩ := ih fun y hy => h y (List.mem_cons_of_mem x hy)
    exact ⟨⟨row, core, x⟩ :: args, rfl, List.forall_mem_cons.mpr ⟨hx, ha⟩⟩

/-- Branches that are already as they are wanted. -/
theorem thresh {cs : List Char} {k : Nat} {xs : List Typed} (hk : SpellsNumber cs k)
    (hx : ∀ x ∈ xs, Printable store x) (hb : Parser.asBranches xs = xs)
    (h : Typed.thresh k xs = .ok y) : Printable store y := by
  obtain ⟨args, rfl, ha⟩ := exists_arguments hx
  have hne : args ≠ [] := by
    rintro rfl
    exact ExprType.thresh_ne_nil (Typed.type_of_ofResult h) rfl
  have hc := @flatten_commas _ args Argument.words (fun a => a.value.fragment.text) hne
    fun a ha' => (ha a ha').text
  have hs := Spells.thresh hk.decimal (fun a ha' => (ha a ha').spelled) (by rw [hb, h])
  refine of_call _ hs (Typed.ofResult_eq_ok.mp h) ?_ rfl nofun
  rw [flatten_call, List.flatten_cons, hc, Fragment.text, texts_map, List.map_map]
  simp [toList_repr_natCast, Function.comp_def]

theorem letter {c : Char} (hx : Printable store x) (h : Parser.applyLetter c x = .ok y) :
    Printable store y := by
  unfold Parser.applyLetter at h
  split at h
  · obtain ⟨hb, -⟩ := ExprType.andV_eq_ok (Typed.type_of_ofResult h)
    exact pair .andV hx (just store true) (Typed.asVerify_of_ne (by simp [hb])) rfl h
  · exact pair .orI (just store false) hx rfl rfl h
  · exact pair .orI hx (just store false) rfl rfl h
  · split at h
    · exact hx.wrap h
    · cases h

end Printable

theorem Pair.first_first (p : Pair) (x : Typed) : p.first (p.first x) = p.first x := by
  cases p <;> simp [Pair.first, Typed.asVerify_asVerify]

theorem Pair.second_second (p : Pair) (x : Typed) : p.second (p.second x) = p.second x := by
  cases p <;> simp [Pair.second, Typed.asVerify_asVerify, Typed.asSummand_asSummand]

theorem Printable.first (p : Pair) {x : Typed} (h : Printable store x) :
    Printable store (p.first x) := by
  cases p with
  | andV => exact h.asVerify
  | andB | orB | orC | orD | orI => exact h

theorem Printable.second (p : Pair) {x : Typed} (h : Printable store x) :
    Printable store (p.second x) := by
  cases p with
  | andB | orB => exact h.asSummand
  | orC => exact h.asVerify
  | andV | orD | orI => exact h

theorem asBranches_asBranches (xs : List Typed) :
    Parser.asBranches (Parser.asBranches xs) = Parser.asBranches xs := by
  cases xs with
  | nil => rfl
  | cons x xs => simp [Parser.asBranches, Typed.asSummand_asSummand]

theorem printable_asBranches {xs : List Typed} (h : ∀ x ∈ xs, Printable store x) :
    ∀ y ∈ Parser.asBranches xs, Printable store y := by
  cases xs with
  | nil => exact nofun
  | cons x xs =>
    refine List.forall_mem_cons.mpr ⟨h x List.mem_cons_self, fun y hy => ?_⟩
    obtain ⟨z, hz, rfl⟩ := List.mem_map.mp hy
    exact (h z (List.mem_cons_of_mem x hz)).asSummand

theorem Spells.printable {row : List Char} {core : Words} {x : Typed}
    (h : Spells store row core x) (hs : store.Covered store') : Printable store' x := by
  induction h with
  | just value => exact .just store' value
  | checkedKey hk => exact .checkedKey (hk.lowercase hs)
  | key hk =>
    have hk := hk.lowercase hs
    refine ⟨[], _, .key hk, ?_, rfl, fun k he => ?_⟩
    · simp [written, flatten_call, Typed.key, Fragment.text, Bytes.hex]
    · cases he
      exact hk
  | image _ hh =>
    refine .of_call (.image _) (.image (Or.inl rfl) (hh.lowercase hs)) rfl ?_ rfl fun _ he => ?_
    · simp [flatten_call, Fragment.text, Bytes.hex]
    · cases he
  | after hn hr =>
    refine .of_call (.after _) (.after hn.decimal hr) rfl ?_ rfl fun _ he => ?_
    · simp [flatten_call, Fragment.text, toList_repr_natCast]
    · cases he
  | older hn hr =>
    refine .of_call (.older _) (.older hn.decimal hr) rfl ?_ rfl fun _ he => ?_
    · simp [flatten_call, Fragment.text, toList_repr_natCast]
    · cases he
  | multi hk hkeys hx =>
    refine .multi hk (fun key hkey => ?_) hx
    obtain ⟨p, hp, rfl⟩ := List.mem_map.mp hkey
    exact (hkeys p hp).lowercase hs
  | pair p _ _ hz ihx ihy =>
    exact .pair p (ihx.first p) (ihy.second p) (p.first_first _) (p.second_second _) hz
  | andOr _ _ _ hx iha ihb ihc => exact .andOr iha ihb ihc hx
  | thresh hk _ hx ih =>
    -- the branches in the text have their wrappers already, and get no others
    refine .thresh hk (printable_asBranches fun x hx => ?_) (asBranches_asBranches _) hx
    obtain ⟨a, ha, rfl⟩ := List.mem_map.mp hx
    exact ih a ha
  | wrap _ hy ih => exact ih.letter hy

/-! ## Trees and descriptors -/

theorem SpellsTree.printable {ws : Words} {t : ScriptTree} (h : SpellsTree store ws t)
    (hs : store.Covered store') :
    ∃ ws', SpellsTree store' ws' t ∧ t.text.toList = ws'.flatten := by
  induction h with
  | leaf hx hb =>
    obtain ⟨row, core, hp⟩ := hx.printable hs
    exact ⟨written row core, .leaf hp.spelled hb, hp.text⟩
  | branch _ _ ihl ihr =>
    obtain ⟨ls, hl, htl⟩ := ihl
    obtain ⟨rs, hr, htr⟩ := ihr
    exact ⟨_, .branch hl hr, by simp [ScriptTree.text, htl, htr]⟩

theorem SpellsDescriptor.printable {ws : Words} {d : Descriptor}
    (h : SpellsDescriptor store ws d) (hs : store.Covered store') :
    ∃ ws', SpellsDescriptor store' ws' d ∧ d.text.toList = ws'.flatten := by
  cases h with
  | keyOnly hk =>
    exact ⟨_, .keyOnly (hk.lowercase hs), by simp [Descriptor.text, flatten_call, Bytes.hex]⟩
  | withTree hk ht =>
    obtain ⟨ts, ht, htt⟩ := ht.printable hs
    exact ⟨_, .withTree (hk.lowercase hs) ht,
      by simp [Descriptor.text, flatten_call, Bytes.hex, htt]⟩

end Descriptor
end Taproot
