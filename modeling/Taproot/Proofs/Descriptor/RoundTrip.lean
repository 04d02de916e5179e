import Taproot.Proofs.Descriptor.ParserCompleteness
import Taproot.Proofs.Descriptor.ParserSoundness
import Taproot.Proofs.Descriptor.Printing
import Taproot.Proofs.Descriptor.Scanning

/-! # Reading back what is written

Soundness takes a text that is read to the grammar, printing from there to the canonical text, and
completeness back. The checksum is computed over characters that it covers and is found behind the
only `#`.
-/
namespace Taproot.Descriptor

open Miniscript Descriptor.Parser

variable {store store' : Store} {d : Descriptor}

/-! ## Bodies -/

theorem run'_eq_ok {α : Type} {p : Parser α} {s : List Token} {x : α} :
    p.run' s = .ok x ↔ ∃ s', Yields p s x s' := by
  rw [StateT.run', map_eq_ok]
  constructor
  · rintro ⟨r, hr, rfl⟩
    exact ⟨r.2, hr⟩
  · rintro ⟨s', h⟩
    exact ⟨(x, s'), h, rfl⟩

theorem readBody_eq_ok {cs : List Char} : readBody store cs = .ok d ↔
    SpellsDescriptor store ((Token.scan cs).map Token.chars) d := by
  have he : (Source.mk store (.ending cs.length)).IsClosed := rfl
  rw [readBody, run'_eq_ok]
  constructor
  · rintro ⟨s', h⟩
    exact spells_descriptor he h
  · intro h
    exact ⟨[], accepts_descriptor he h (by simp) rfl⟩

theorem SpellsDescriptor.readBody {ws : Words} (h : SpellsDescriptor store ws d) :
    readBody store ws.flatten = .ok d := by
  rw [readBody_eq_ok, scan_flatten h.apart]
  exact h

theorem exists_readBody {text : String} (h : read store text = .ok d) :
    ∃ cs, Descriptor.readBody store cs = .ok d := by
  rw [read] at h
  dsimp only at h
  split at h
  · exact ⟨_, h⟩
  · rename_i body given hs
    obtain ⟨expected, hsum, h⟩ := bind_eq_ok.mp h
    split at h
    · cases h
    · exact ⟨body, h⟩

/-! ## Checksums -/

theorem dropWhile_eq_self {p : Char → Bool} {cs : List Char} (h : ∀ c ∈ cs.head?, p c = false) :
    cs.dropWhile p = cs := by
  cases cs with
  | nil => rfl
  | cons c cs => exact List.dropWhile_cons_of_neg (by simp [h c rfl])

theorem trim_eq_self_of_ends {p : Char → Bool} {cs : List Char}
    (hfirst : ∀ c ∈ cs.head?, p c = false) (hlast : ∀ c ∈ cs.getLast?, p c = false) :
    Text.trim p cs = cs := by
  rw [Text.trim, dropWhile_eq_self hfirst, dropWhile_eq_self, List.reverse_reverse]
  rwa [List.head?_reverse]

theorem trim_eq_self {p : Char → Bool} {cs : List Char} (h : ∀ c ∈ cs, p c = false) :
    Text.trim p cs = cs :=
  trim_eq_self_of_ends (fun c hc => h c (List.mem_of_mem_head? hc))
    fun c hc => h c (List.mem_of_getLast? hc)

theorem mem_of_mem_trim {p : Char → Bool} {cs : List Char} {c : Char} (h : c ∈ Text.trim p cs) :
    c ∈ cs := by
  have h₁ := (List.dropWhile_sublist p).subset (List.mem_reverse.mp h)
  exact (List.dropWhile_sublist p).subset (List.mem_reverse.mp h₁)

theorem takeWhile_ne_append {cs : List Char} {c : Char} (h : c ∉ cs) (rest : List Char) :
    (cs ++ rest).takeWhile (· ≠ c) = cs ++ rest.takeWhile (· ≠ c) := by
  refine List.takeWhile_append_of_pos fun d hd => ?_
  simp only [ne_eq, decide_not, Bool.not_eq_true', decide_eq_false_iff_not]
  rintro rfl
  exact h hd

theorem takeWhile_ne {cs : List Char} {c : Char} (h : c ∉ cs) : cs.takeWhile (· ≠ c) = cs := by
  simpa using takeWhile_ne_append h []

theorem splitChecksum?_of_notMem {cs : List Char} (h : '#' ∉ cs) : splitChecksum? cs = none := by
  have ht := takeWhile_ne fun hc => h (List.mem_reverse.mp hc)
  rw [splitChecksum?, ht]
  simp

theorem splitChecksum?_append {body sum : List Char} (h : '#' ∉ sum) :
    splitChecksum? (body ++ '#' :: sum) = some (body, sum) := by
  have ht : (body ++ '#' :: sum).reverse.takeWhile (· ≠ '#') = sum.reverse := by
    rw [List.reverse_append, List.reverse_cons, List.append_assoc,
      takeWhile_ne_append fun hs => h (List.mem_reverse.mp hs)]
    simp
  have hl : (body ++ '#' :: sum).length = body.length + 1 + sum.length := by
    rw [List.length_append, List.length_cons]
    omega
  rw [splitChecksum?, ht, List.length_reverse, hl, if_pos (by omega), List.reverse_reverse,
    Nat.add_sub_cancel, Nat.add_sub_cancel, List.take_left' rfl]

/-- A text is divided at the last of its occurrences of a character. -/
theorem exists_last_of_mem {c : Char} {cs : List Char} (h : c ∈ cs) :
    ∃ before behind, cs = before ++ c :: behind ∧ c ∉ behind := by
  obtain ⟨behind, before, hr, hn⟩ := List.eq_append_cons_of_mem (List.mem_reverse.mpr h)
  refine ⟨before.reverse, behind.reverse, ?_, fun hb => hn (List.mem_reverse.mp hb)⟩
  rw [← List.reverse_reverse cs, hr]
  simp

theorem splitChecksum?_eq_none {cs : List Char} : splitChecksum? cs = none ↔ '#' ∉ cs := by
  constructor
  · intro h hm
    obtain ⟨body, given, rfl, hn⟩ := exists_last_of_mem hm
    rw [splitChecksum?_append hn] at h
    cases h
  · exact splitChecksum?_of_notMem

theorem splitChecksum?_eq_some {cs body given : List Char} :
    splitChecksum? cs = some (body, given) ↔ cs = body ++ '#' :: given ∧ '#' ∉ given := by
  constructor
  · intro h
    have hm : '#' ∈ cs := by
      by_contra hm
      rw [splitChecksum?_of_notMem hm] at h
      cases h
    obtain ⟨body', given', rfl, hn⟩ := exists_last_of_mem hm
    rw [splitChecksum?_append hn] at h
    cases h
    exact ⟨rfl, hn⟩
  · rintro ⟨rfl, hn⟩
    exact splitChecksum?_append hn

theorem read_of_notMem {text : String} (h : '#' ∉ text.toList) :
    read store text = readBody store (Text.trim Text.isBlank text.toList) := by
  rw [read]
  dsimp only
  rw [splitChecksum?_of_notMem fun hc => h (mem_of_mem_trim hc)]

theorem isNameChar_fiveBitChar (v : Nat) : Token.isNameChar (fiveBitChar v) = true := by
  have hall : ('q' :: fiveBitAlphabet).all Token.isNameChar = true := by decide
  refine List.all_eq_true.mp hall _ ?_
  rw [fiveBitChar, List.getD_eq_getElem?_getD]
  cases hv : fiveBitAlphabet[v]? with
  | none => exact List.mem_cons_self
  | some c => exact List.mem_cons_of_mem _ (List.mem_of_getElem? hv)

theorem idxOf?_of_mem {c : Char} {cs : List Char} (h : c ∈ cs) :
    cs.idxOf? c = some (cs.idxOf c) := by
  rw [List.idxOf?_eq_some_iff]
  refine ⟨List.idxOf_lt_length_iff.mpr h, List.getElem_idxOf _, fun j hj hc => ?_⟩
  have hne := List.not_of_lt_findIdx hj
  simp [hc] at hne

theorem places_eq {cs : List Char} (h : ∀ c ∈ cs, c ∈ Checksum.alphabet) (offset : Nat) :
    Checksum.places offset cs = .ok (cs.map (Checksum.alphabet.idxOf ·)) := by
  induction cs generalizing offset with
  | nil => rfl
  | cons c cs ih =>
    rw [Checksum.places_cons (idxOf?_of_mem (h c List.mem_cons_self)),
      ih fun d hd => h d (List.mem_cons_of_mem c hd)]
    rfl

theorem compute_eq {cs : List Char} (h : ∀ c ∈ cs, c ∈ Checksum.alphabet) :
    Checksum.compute cs = .ok (Checksum.ofPlaces (cs.map (Checksum.alphabet.idxOf ·))) := by
  rw [Checksum.compute, places_eq h]
  rfl

theorem isNameChar_of_mem_ofPlaces {c : Char} {ps : List Nat} (h : c ∈ Checksum.ofPlaces ps) :
    Token.isNameChar c = true := by
  obtain ⟨j, -, rfl⟩ := List.mem_map.mp h
  exact isNameChar_fiveBitChar _

/-- A text of permitted characters has a checksum, which is a name. -/
theorem exists_descriptorChecksum {cs : List Char} (h : ∀ c ∈ cs, c ∈ Checksum.alphabet) :
    ∃ sum, descriptorChecksum cs = .ok sum ∧ ∀ c ∈ sum, Token.isNameChar c = true :=
  ⟨_, by rw [descriptorChecksum, compute_eq h], fun _ => isNameChar_of_mem_ofPlaces⟩

theorem read_plain {text : String} {cs : List Char} (ht : text.toList = cs)
    (h : ∀ c ∈ cs, IsPlain c) : read store text = Descriptor.readBody store cs := by
  rw [read, ht, trim_eq_self fun c hc => (h c hc).notBlank]
  rw [splitChecksum?_of_notMem fun hm => (h _ hm).notHash rfl]

theorem exists_appendChecksum {text : String} {cs : List Char} (ht : text.toList = cs)
    (h : ∀ c ∈ cs, IsPlain c) : ∃ s, appendChecksum text = .ok s ∧
      ∀ store, read store s = Descriptor.readBody store cs := by
  obtain ⟨sum, hsum, hn⟩ := exists_descriptorChecksum fun c hc => (h c hc).covered
  have hplain : ∀ c ∈ sum, IsPlain c := fun c hc => isPlain_of_isNameChar (hn c hc)
  have hb : cs.takeWhile (· ≠ '#') = cs := takeWhile_ne fun hm => (h _ hm).notHash rfl
  refine ⟨String.ofList (cs ++ '#' :: sum), by simp only [appendChecksum, ht, hb, hsum]; rfl, ?_⟩
  intro store
  have hblank : ∀ c ∈ cs ++ '#' :: sum, Text.isBlank c = false := by
    intro c hc
    rcases List.mem_append.mp hc with hc | hc
    · exact (h c hc).notBlank
    · rcases List.mem_cons.mp hc with rfl | hc
      · decide
      · exact (hplain c hc).notBlank
  rw [read, String.toList_ofList, trim_eq_self hblank,
    splitChecksum?_append fun hm => (hplain _ hm).notHash rfl]
  simp only [hsum]
  rw [trim_eq_self fun c hc => (hplain c hc).notBlank]
  simp [bind, Except.bind]

/-! ## The round trip -/

/-- The text of a descriptor that was read is canonical: it is read as that descriptor, wherever the
same keys and images are known. -/
theorem read_canonical {text : String} (h : read store text = .ok d) (hs : store.Covered store') :
    read store' d.text = .ok d := by
  obtain ⟨cs, hcs⟩ := exists_readBody h
  obtain ⟨ws, hws, ht⟩ := (readBody_eq_ok.mp hcs).printable hs
  rw [read_plain ht fun c hc => hws.apart.isPlain hc]
  exact hws.readBody

/-- The text of a descriptor that was read is read as that descriptor, with its checksum and without,
wherever the same keys and images are known. -/
theorem read_text {text : String} (h : read store text = .ok d) (hs : store.Covered store') :
    read store' d.text = .ok d ∧ ∃ s, d.withChecksum = .ok s ∧ read store' s = .ok d := by
  obtain ⟨cs, hcs⟩ := exists_readBody h
  obtain ⟨ws, hws, ht⟩ := (readBody_eq_ok.mp hcs).printable hs
  have hplain : ∀ c ∈ ws.flatten, IsPlain c := fun c hc => hws.apart.isPlain hc
  obtain ⟨s, hsum, hr⟩ := exists_appendChecksum ht hplain
  refine ⟨read_canonical h hs, s, hsum, ?_⟩
  rw [hr]
  exact hws.readBody

namespace SpacedText

def internalKey : Bytes :=
  Bytes.ofNatBE 32 0xc6047f9441ed7d6d3045406e95c07cd85c778e4b8cef3ca7abac09b95c709ee5

def leafKey : Bytes :=
  Bytes.ofNatBE 32 0xf9308a019258c31049344f85f89d5229b531c845836f99b08601f113bce036f9

def keyPair (k : Bytes) : KeyPair := { publicKey := .ofBytes k }

def earlierStore : Store := { keys := [keyPair internalKey, keyPair leafKey] }

/-- Has the keys in another order and an image as well. -/
def laterStore : Store :=
  { keys := [keyPair leafKey, keyPair internalKey], images := [{ image := .ofBytes leafKey }] }

/-- Blanks, capitals, a letter that stands for `and_v`, zeros in front, and no wrapper where one is
wanted. -/
def text : String :=
  " tr( C6047F9441ED7D6D3045406E95C07CD85C778E4B8CEF3CA7ABAC09B95C709EE5, and_v(
    pk(f9308a019258c31049344f85f89d5229b531c845836f99b08601f113bce036f9), tv:older(007) ) )"

def canonicalText : String :=
  "tr(c6047f9441ed7d6d3045406e95c07cd85c778e4b8cef3ca7abac09b95c709ee5,and_v(v:pk(" ++
    "f9308a019258c31049344f85f89d5229b531c845836f99b08601f113bce036f9),and_v(v:older(7),1)))"

set_option maxRecDepth 4000 in
theorem is_read : (read earlierStore text).toOption.map Descriptor.text = some canonicalText := by
  -- the kernel is slow at decoding a literal, so its characters are put in first
  have hchars : text.toList = _ := String.toList_ofList
  rw [read, hchars]
  decide +kernel

set_option maxRecDepth 4000 in
theorem hash_notMem : '#' ∉ text.toList := by
  have hchars : text.toList = _ := String.toList_ofList
  rw [hchars]
  decide

theorem covered : earlierStore.Covered laterStore := by
  constructor <;> simp [earlierStore, laterStore]

theorem reads_back : ∃ d, read earlierStore text = .ok d ∧ d.text = canonicalText ∧
    read laterStore d.text = .ok d ∧ ∃ s, d.withChecksum = .ok s ∧ read laterStore s = .ok d := by
  obtain ⟨d, hd, ht⟩ := exists_of_map_toOption is_read
  exact ⟨d, hd, ht, read_text hd covered⟩

end SpacedText

end Taproot.Descriptor
