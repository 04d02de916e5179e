import Taproot.Proofs.Commitment.PathLengths
import Taproot.Proofs.Descriptor.RoundTrip
import Taproot.Proofs.Hash.Windows

/-! # Nested braces

The braces of a text that is read are those of its script tree, so that the longest path of a leaf is
as long as braces are nested in the text. Any nesting is read.
-/
namespace Taproot

def isBrace (c : Char) : Bool := c == '\x7b' || c == '\x7d'

/-- The braces around the branches of a tree. -/
def ScriptTree.braces : ScriptTree → List Char
  | leaf _ => []
  | branch l r => '\x7b' :: (braces l ++ (braces r ++ ['\x7d']))

namespace Descriptor

open Miniscript

def braces (d : Descriptor) : List Char := (d.tree.map ScriptTree.braces).getD []

/-- The most braces that are open at once, where some are open before. -/
def nestingFrom (opened : Nat) : List Char → Nat
  | [] => opened
  | c :: cs =>
    if c = '\x7b' then nestingFrom (opened + 1) cs
    else if c = '\x7d' then max opened (nestingFrom (opened - 1) cs)
    else nestingFrom opened cs

def nesting (text : String) : Nat := nestingFrom 0 text.toList

/-! ## Nesting -/

section Nesting

variable {opened : Nat}

theorem le_nestingFrom (opened : Nat) (cs : List Char) : opened ≤ nestingFrom opened cs := by
  induction cs generalizing opened with
  | nil => exact Nat.le_refl opened
  | cons c cs ih =>
    rw [nestingFrom]
    split
    · exact Nat.le_trans (Nat.le_succ opened) (ih (opened + 1))
    · split
      · exact Nat.le_max_left _ _
      · exact ih opened

theorem nestingFrom_filter (opened : Nat) (cs : List Char) :
    nestingFrom opened (cs.filter isBrace) = nestingFrom opened cs := by
  induction cs generalizing opened with
  | nil => rfl
  | cons c cs ih =>
    by_cases ho : c = '\x7b'
    · subst ho
      rw [List.filter_cons_of_pos rfl, nestingFrom, nestingFrom, if_pos rfl, if_pos rfl, ih]
    · by_cases hc : c = '\x7d'
      · subst hc
        rw [List.filter_cons_of_pos rfl, nestingFrom, nestingFrom, if_neg ho, if_neg ho, if_pos rfl,
          if_pos rfl, ih]
      · rw [List.filter_cons_of_neg (by simp [isBrace, ho, hc]), ih, nestingFrom, if_neg ho,
          if_neg hc]

theorem nestingFrom_braces (t : ScriptTree) (opened : Nat) (rest : List Char) :
    nestingFrom opened (t.braces ++ rest) =
      max (opened + t.depth) (nestingFrom opened rest) := by
  induction t generalizing opened rest with
  | leaf x => exact (Nat.max_eq_right (le_nestingFrom opened rest)).symm
  | branch l r ihl ihr =>
    have hb : (ScriptTree.branch l r).braces ++ rest =
        '\x7b' :: (l.braces ++ (r.braces ++ '\x7d' :: rest)) := by
      simp [ScriptTree.braces]
    have hc : nestingFrom (opened + 1) ('\x7d' :: rest) = max (opened + 1) (nestingFrom opened rest) :=
      rfl
    rw [hb, nestingFrom, if_pos rfl, ihl, ihr, hc, ScriptTree.depth]
    omega

theorem nestingFrom_braces_zero (d : Descriptor) : nestingFrom 0 d.braces = d.depth := by
  obtain ⟨key, _ | t⟩ := d
  · rfl
  · have h := nestingFrom_braces t 0 []
    rw [List.append_nil] at h
    exact h.trans (by simp [nestingFrom, depth])

end Nesting

/-! ## The braces of words -/

/-- The braces among the characters of words. -/
def bracesOf (ws : Words) : List Char := ws.flatten.filter isBrace

section Words

variable {store : Store} {us vs : Words} {w : List Char}

@[simp] theorem bracesOf_nil : bracesOf [] = [] := rfl

@[simp] theorem bracesOf_cons (w : List Char) (ws : Words) :
    bracesOf (w :: ws) = w.filter isBrace ++ bracesOf ws := by
  simp [bracesOf]

@[simp] theorem bracesOf_append (us vs : Words) :
    bracesOf (us ++ vs) = bracesOf us ++ bracesOf vs := by
  simp [bracesOf]

/-- A class that leaves out both braces. -/
theorem isBrace_eq_false {p : Char → Bool} {c : Char} (ho : p '\x7b' = false)
    (hc : p '\x7d' = false) (h : p c = true) : isBrace c = false := by
  rw [isBrace, Bool.or_eq_false_iff, beq_eq_false_iff_ne, beq_eq_false_iff_ne]
  constructor
  · rintro rfl
    exact Bool.false_ne_true (ho.symm.trans h)
  · rintro rfl
    exact Bool.false_ne_true (hc.symm.trans h)

theorem isBrace_of_isNameChar {c : Char} (h : Token.isNameChar c = true) : isBrace c = false :=
  isBrace_eq_false (by decide) (by decide) h

theorem isBrace_of_isBlank {c : Char} (h : Text.isBlank c = true) : isBrace c = false :=
  isBrace_eq_false (by decide) (by decide) h

theorem filter_isBrace_of_name {w : List Char} (h : w.all Token.isNameChar = true) :
    w.filter isBrace = [] := by
  rw [List.filter_eq_nil_iff]
  intro c hc
  simp [isBrace_of_isNameChar (List.all_eq_true.mp h c hc)]

theorem IsName.filter_isBrace (h : IsName w) : w.filter isBrace = [] :=
  filter_isBrace_of_name h.chars

theorem bracesOf_call {name : String} (hn : IsName name.toList) (us : Words) :
    bracesOf (call name us) = bracesOf us := by
  simp [call, hn.filter_isBrace, isBrace]

theorem bracesOf_comma (us vs : Words) :
    bracesOf (us ++ [','] :: vs) = bracesOf us ++ bracesOf vs := by
  simp [isBrace]

theorem bracesOf_written {row : List Char} (hr : ∀ c ∈ row, c ∈ letters) (us : Words) :
    bracesOf (written row us) = bracesOf us := by
  have hl : letters.all Token.isNameChar = true := by decide
  have hn : row.filter isBrace = [] := filter_isBrace_of_name <|
    List.all_eq_true.mpr fun c hc => List.all_eq_true.mp hl c (hr c hc)
  cases row with
  | nil => rfl
  | cons c row => simp [written, hn, isBrace]

theorem bracesOf_commas {ι : Type} {is : List ι} {view : ι → Words}
    (hi : ∀ i ∈ is, bracesOf (view i) = []) :
    bracesOf (is.flatMap fun i => [','] :: view i) = [] := by
  induction is with
  | nil => rfl
  | cons i is ih =>
    simp [hi i List.mem_cons_self, ih fun j hj => hi j (List.mem_cons_of_mem i hj), isBrace]

/-- Expressions have no braces. -/
theorem Spells.bracesOf_eq {row : List Char} {core : Words} {x : Typed}
    (h : Spells store row core x) : bracesOf core = [] := by
  induction h with
  | just value => cases value <;> rfl
  | checkedKey hk | key hk =>
    rw [bracesOf_call ⟨by simp, by decide⟩]
    simp [(isName_of_isHex32 hk.digits).filter_isBrace]
  | image hn hh =>
    rw [bracesOf_call (by rcases hn with rfl | rfl <;> exact ⟨by simp, by decide⟩)]
    simp [(isName_of_isHex32 hh.digits).filter_isBrace]
  | after hn | older hn =>
    rw [bracesOf_call ⟨by simp, by decide⟩]
    simp [hn.isName.filter_isBrace]
  | @multi cs k keys x hk hs =>
    have hkeys : ∀ p ∈ keys, bracesOf [p.1] = [] := fun p hp => by
      simp [(isName_of_isHex32 (hs p hp).digits).filter_isBrace]
    rw [bracesOf_call ⟨by simp, by decide⟩, bracesOf_cons, hk.isName.filter_isBrace,
      bracesOf_commas hkeys]
    rfl
  | pair p hx hy _ ihx ihy =>
    rw [bracesOf_call (by cases p <;> exact ⟨by simp [Pair.name], by decide⟩), bracesOf_comma,
      bracesOf_written hx.apart.2, bracesOf_written hy.apart.2, ihx, ihy]
    rfl
  | andOr ha hb hc _ iha ihb ihc =>
    rw [bracesOf_call ⟨by simp, by decide⟩, bracesOf_comma, bracesOf_comma,
      bracesOf_written ha.apart.2, bracesOf_written hb.apart.2, bracesOf_written hc.apart.2,
      iha, ihb, ihc]
    rfl
  | @thresh cs k args x hk ha _ ih =>
    have hargs : ∀ a ∈ args, bracesOf a.words = [] := fun a hm =>
      (bracesOf_written (ha a hm).apart.2 a.core).trans (ih a hm)
    rw [bracesOf_call ⟨by simp, by decide⟩, bracesOf_cons, hk.isName.filter_isBrace,
      bracesOf_commas hargs]
    rfl
  | wrap _ _ ih => exact ih

theorem SpellsTree.bracesOf_eq {t : ScriptTree} (h : SpellsTree store us t) :
    bracesOf us = t.braces := by
  induction h with
  | leaf hx => exact (bracesOf_written hx.apart.2 _).trans hx.bracesOf_eq
  | branch _ _ ihl ihr => simp [ScriptTree.braces, ihl, ihr, isBrace]

theorem SpellsDescriptor.bracesOf_eq {d : Descriptor} (h : SpellsDescriptor store us d) :
    bracesOf us = d.braces := by
  have htr : IsName "tr".toList := ⟨by simp, by decide⟩
  cases h with
  | keyOnly hk =>
    rw [bracesOf_call htr]
    simp [(isName_of_isHex32 hk.digits).filter_isBrace, braces]
  | withTree hk ht =>
    rw [bracesOf_call htr]
    simp [(isName_of_isHex32 hk.digits).filter_isBrace, ht.bracesOf_eq, braces, isBrace]

end Words

/-! ## The braces of texts -/

section Texts

variable {store : Store} {d : Descriptor} {cs : List Char}

/-- The tokens of a text have its braces: only blanks are left out. -/
theorem bracesOf_scan (cs : List Char) :
    bracesOf ((Token.scan cs).map Token.chars) = cs.filter isBrace := by
  rw [bracesOf, ← List.flatMap_def, Token.scan, flatMap_scanFrom, List.filter_filter]
  refine List.filter_congr fun c _ => ?_
  cases hb : Text.isBlank c with
  | false => simp
  | true => simp [isBrace_of_isBlank hb]

theorem filter_isBrace_of_readBody (h : readBody store cs = .ok d) :
    cs.filter isBrace = d.braces := by
  rw [← (readBody_eq_ok.mp h).bracesOf_eq, bracesOf_scan]

theorem filter_isBrace_trim (cs : List Char) :
    (Text.trim Text.isBlank cs).filter isBrace = cs.filter isBrace := by
  have hgap {gap : List Char} (h : IsGap gap) : gap.filter isBrace = [] := by
    rw [List.filter_eq_nil_iff]
    intro c hc
    simp [isBrace_of_isBlank (h c hc)]
  obtain ⟨front, behind, hcs, hf, hb⟩ := exists_gaps cs
  calc (Text.trim Text.isBlank cs).filter isBrace
      = (front ++ (Text.trim Text.isBlank cs ++ behind)).filter isBrace := by
        simp [hgap hf, hgap hb]
    _ = cs.filter isBrace := by rw [← hcs]

theorem isNameChar_of_descriptorChecksum {sum : List Char} (h : descriptorChecksum cs = .ok sum) :
    sum.all Token.isNameChar = true := by
  unfold descriptorChecksum at h
  split at h
  · rename_i sum' hs
    cases h
    obtain ⟨ps, -, rfl⟩ := map_eq_ok.mp hs
    refine List.all_eq_true.mpr fun c hc => ?_
    obtain ⟨j, -, rfl⟩ := List.mem_map.mp hc
    exact isNameChar_fiveBitChar _
  · cases h

/-- A text that is read has the braces of its script tree. -/
theorem filter_isBrace_of_read {text : String} (h : read store text = .ok d) :
    text.toList.filter isBrace = d.braces := by
  rw [← filter_isBrace_trim]
  rw [read] at h
  dsimp only at h
  split at h
  · exact filter_isBrace_of_readBody h
  · rename_i body given hs
    obtain ⟨expected, hsum, h⟩ := bind_eq_ok.mp h
    split at h
    · cases h
    · rename_i hg
      have hg : given.filter isBrace = [] := by
        rw [← filter_isBrace_trim, Decidable.not_not.mp hg]
        exact filter_isBrace_of_name (isNameChar_of_descriptorChecksum hsum)
      rw [(splitChecksum?_eq_some.mp hs).1, List.filter_append,
        List.filter_cons_of_neg (by decide), hg, List.append_nil]
      exact filter_isBrace_of_readBody h

theorem nesting_of_read {text : String} (h : read store text = .ok d) : nesting text = d.depth := by
  rw [nesting, ← nestingFrom_filter, filter_isBrace_of_read h, nestingFrom_braces_zero]

theorem SpellsDescriptor.read_ofList {ws : Words} (h : SpellsDescriptor store ws d) :
    read store (String.ofList ws.flatten) = .ok d := by
  rw [read_plain String.toList_ofList fun c hc => h.apart.isPlain hc]
  exact h.readBody

/-- The control block of a leaf has 32 bytes for each hash of its path, and no path is longer than a
control block may hold exactly where braces are not nested deeper. -/
theorem within_path_limit_iff {text : String} {c : Commitment} (hr : read store text = .ok d)
    (hc : d.commit = .ok c) :
    (∀ l ∈ c.leaves, (c.controlBlock l).length = 33 + 32 * l.path.length) ∧
      ((∀ l ∈ c.leaves, l.path.length ≤ maxPathLength) ↔ nesting text ≤ maxPathLength) := by
  rw [nesting_of_read hr]
  exact ⟨fun l hl => length_controlBlock hc hl, length_path_le_iff hc maxPathLength⟩

end Texts

end Descriptor

open Miniscript Descriptor

namespace HeightOrKey

def store : Store :=
  { keys := [SpacedText.keyPair SpacedText.internalKey, SpacedText.keyPair SpacedText.leafKey] }

/-- A branch of `after(800000)` and a key. -/
def words : Words :=
  call "tr" (SpacedText.internalKey.hexChars :: [','] :: ['\x7b'] ::
    (call "after" ["800000".toList] ++ [','] ::
      (call "pk" [SpacedText.leafKey.hexChars] ++ [['\x7d']])))

def text : String := String.ofList words.flatten

theorem spells : SpellsDescriptor store words descriptor :=
  .withTree ⟨by decide +kernel, by decide +kernel, by decide +kernel, by decide +kernel⟩
    (.branch (.leaf (.after (n := 800000) ⟨by decide, by decide, by decide⟩ (by decide)) rfl)
      (.leaf (.checkedKey ⟨by decide +kernel, by decide +kernel, by decide +kernel,
        by decide +kernel⟩) rfl))

theorem reads : read store text = .ok descriptor := spells.read_ofList

theorem within_limit :
    (∀ l ∈ (descriptor.commit.toOption.get commits).leaves,
      ((descriptor.commit.toOption.get commits).controlBlock l).length = 33 + 32 * l.path.length) ∧
    ∀ l ∈ (descriptor.commit.toOption.get commits).leaves, l.path.length ≤ maxPathLength := by
  obtain ⟨hl, hp⟩ := within_path_limit_iff reads (eq_ok_get commits)
  have hn : nesting text = 1 := nesting_of_read reads
  exact ⟨hl, hp.mpr (by rw [hn]; decide)⟩

end HeightOrKey

namespace DeepTree

/-- Each branch has the next one on its left, and a leaf on its right. -/
def tree : Nat → ScriptTree
  | 0 => .leaf (.just true)
  | n + 1 => .branch (tree n) (.leaf (.just false))

def words : Nat → Words
  | 0 => [['1']]
  | n + 1 => ['\x7b'] :: (words n ++ [','] :: ([['0']] ++ [['\x7d']]))

def store : Store := { keys := [SpacedText.keyPair SpacedText.internalKey] }

def descriptor (n : Nat) : Descriptor := ⟨SpacedText.internalKey, some (tree n)⟩

def text (n : Nat) : String :=
  String.ofList (call "tr" (SpacedText.internalKey.hexChars :: [','] :: words n)).flatten

theorem spells_tree (n : Nat) : SpellsTree store (words n) (tree n) := by
  induction n with
  | zero => exact .leaf (.just true) rfl
  | succ n ih => exact .branch ih (.leaf (.just false) rfl)

theorem depth_tree (n : Nat) : (tree n).depth = n := by
  induction n with
  | zero => rfl
  | succ n ih => simp [tree, ScriptTree.depth, ih]

theorem spells_key : SpellsKey store SpacedText.internalKey.hexChars SpacedText.internalKey where
  digits := by decide +kernel
  value := by decide +kernel
  point := by decide +kernel
  known := by decide +kernel

/-- Any number of nested braces is read. -/
theorem reads (n : Nat) : read store (text n) = .ok (descriptor n) :=
  (SpellsDescriptor.withTree spells_key (spells_tree n)).read_ofList

/-- The hash of two children, on windows of words. -/
def join (a b : Bytes) : Bytes :=
  ((HashTag.tapBranch.start.compressBy (if b < a then b ++ a else a ++ b)).compressBy
    Sha256.lastBlock).bytes

theorem branchHash_eq {a b : Bytes} (ha : a.length = 32) (hb : b.length = 32) :
    branchHash a b = join a b := by
  rw [branchHash, HashTag.hash_eq_start, join]
  split <;> simp [ha, hb]

/-- The root above a leaf, with one sibling on each level. -/
def climb (sibling leaf : Bytes) : Nat → Bytes
  | 0 => leaf
  | n + 1 => join (climb sibling leaf n) sibling

theorem commit_tree (n : Nat) : (tree n).commit.1 =
    climb (ScriptTree.leaf (.just false)).commit.1 (ScriptTree.leaf (.just true)).commit.1 n := by
  induction n with
  | zero => rfl
  | succ n ih =>
    rw [climb, ← ih, ← branchHash_eq (tree n).length_commit (ScriptTree.length_commit _)]
    rfl

theorem tweaks : (PublicKey.tweak SpacedText.internalKey
    (some (tree 129).commit.1)).toOption.isSome = true := by
  rw [commit_tree]
  simp only [PublicKey.tweak, tapTweak, ScriptTree.commit, leafHash, HashTag.hash_eq_by]
  decide +kernel

/-- A leaf whose path fits into no control block is read and committed to. -/
theorem commits_too_deep : ∃ c, read store (text 129) = .ok (descriptor 129) ∧
    (descriptor 129).commit = .ok c ∧
    ∃ l ∈ c.leaves, maxPathLength < l.path.length ∧ (c.controlBlock l).length = 4161 := by
  have hc : (descriptor 129).commit = .ok ⟨SpacedText.internalKey, (tree 129).commit.2,
      some (tree 129).commit.1, (PublicKey.tweak SpacedText.internalKey
        (some (tree 129).commit.1)).toOption.get tweaks⟩ :=
    bind_eq_ok.mpr ⟨_, eq_ok_get tweaks, rfl⟩
  obtain ⟨l, hl, hd⟩ := (tree 129).exists_length_path
  rw [depth_tree] at hd
  refine ⟨_, reads 129, hc, l, hl, ?_, ?_⟩
  · rw [hd]
    decide
  · rw [length_controlBlock hc hl, hd]

end DeepTree

end Taproot
