import Taproot.Json.Printer
import Taproot.Json.Reader
import Taproot.Proofs.Text.Numerals

/-! # Values that are written are read back

The indented text of a value is read as that value, where it has no real numbers, its integers are
not too long and it is not nested too deeply.
-/
namespace Taproot.Json

/-! ## Strings -/

theorem hexValue?_hexDigit : ∀ n < 16, hexValue? (hexDigit n) = some n := by
  decide

theorem readCode_control {c : Char} (h : c.toNat < 0x20) (rest : List Char) :
    readCode ('0' :: '0' :: hexDigit (c.toNat / 16) :: hexDigit (c.toNat % 16) :: rest) =
      some (c, rest) := by
  have hzero : hexValue? '0' = some 0 := by decide
  have hhigh := hexValue?_hexDigit (c.toNat / 16) (by omega)
  have hlow := hexValue?_hexDigit (c.toNat % 16) (by omega)
  have hunit : readUnit ('0' :: '0' :: hexDigit (c.toNat / 16) :: hexDigit (c.toNat % 16) :: rest) =
      some (c.toNat, rest) := by
    simp only [readUnit, hzero, hhigh, hlow, Option.bind_eq_bind, Option.bind_some]
    have he : 4096 * 0 + 256 * 0 + 16 * (c.toNat / 16) + c.toNat % 16 = c.toNat := by omega
    rw [he]
    rfl
  simp only [readCode, hunit, Option.bind_eq_bind, Option.bind_some]
  rw [if_neg (by omega), if_neg (by omega), Char.ofNat_toNat]

/-- An escaped character is read as one step of a string. -/
theorem readStringStep_escape (c : Char) (rest : List Char) :
    readStringStep (escape c ++ rest) = some (some c, rest) := by
  unfold escape
  split
  · subst c
    rfl
  split
  · subst c
    rfl
  split
  · subst c
    rfl
  split
  · subst c
    rfl
  split
  · subst c
    rfl
  split
  · subst c
    rfl
  split
  · subst c
    rfl
  split
  · rename_i hc
    change (readCode ('0' :: '0' :: _ :: _ :: rest)).map _ = _
    rw [readCode_control hc]
    rfl
  · rename_i hquote hslash _ _ _ _ _ hc
    change readStringStep (c :: rest) = _
    unfold readStringStep
    split
    · rename_i he
      exact absurd (List.cons.inj he).1 hquote
    · rename_i he
      exact absurd (List.cons.inj he).1 hslash
    · rename_i he
      exact absurd (List.cons.inj he).1 hslash
    · rename_i he
      obtain ⟨rfl, rfl⟩ := List.cons.inj he
      rw [if_neg (by simp [hc, hslash])]
    · rename_i he
      cases he

theorem escape_ne_nil (c : Char) : escape c ≠ [] := by
  unfold escape
  repeat' split
  all_goals simp

theorem readStringTail_flatMap {n : Nat} {before cs rest : List Char} (hn : cs.length < n) :
    readStringTail n before (cs.flatMap escape ++ '"' :: rest) =
      some (String.ofList (before.reverse ++ cs), rest) := by
  induction cs generalizing n before with
  | nil =>
    obtain ⟨m, rfl⟩ : ∃ m, n = m + 1 := ⟨n - 1, by simp at hn; omega⟩
    rw [List.append_nil]
    rfl
  | cons c cs ih =>
    obtain ⟨m, rfl⟩ : ∃ m, n = m + 1 := ⟨n - 1, by omega⟩
    rw [List.flatMap_cons, List.append_assoc, readStringTail, readStringStep_escape]
    dsimp only
    rw [ih (by simpa using hn), List.reverse_cons, List.append_assoc]
    rfl

/-- What is written behind the first quote is read as the string. -/
theorem readString_flatMap (s : String) (rest : List Char) :
    readString (s.toList.flatMap escape ++ '"' :: rest) = some (s, rest) := by
  have hlength : s.toList.length ≤ (s.toList.flatMap escape).length := by
    induction s.toList with
    | nil => exact Nat.le_refl 0
    | cons c cs ih =>
      have hc := List.length_pos_iff.mpr (escape_ne_nil c)
      rw [List.flatMap_cons, List.length_append, List.length_cons]
      omega
  rw [readString, readStringTail_flatMap, List.reverse_nil, List.nil_append, String.ofList_toList]
  rw [List.length_append]
  omega

theorem toList_writeString (s : String) :
    (writeString s).toList = '"' :: (s.toList.flatMap escape ++ ['"']) := by
  rw [writeString, String.toList_ofList]

/-! ## Numbers -/

/-- A number does not go on in what follows. -/
def Stops (rest : List Char) : Prop :=
  ∀ c ∈ rest.head?, c.isDigit = false ∧ c ≠ '.' ∧ c ≠ 'e' ∧ c ≠ 'E'

theorem Stops.ended {rest : List Char} (h : Stops rest) : Text.Ended rest := fun c hc => (h c hc).1

theorem readFraction_of_stops {rest : List Char} (h : Stops rest) :
    readFraction rest = some ([], rest) := by
  unfold readFraction
  split
  · exact absurd rfl (h '.' rfl).2.1
  · rfl

theorem readExponent_of_stops {rest : List Char} (h : Stops rest) :
    readExponent rest = some (none, rest) := by
  cases rest with
  | nil => rfl
  | cons c rest =>
    obtain ⟨-, -, he, hE⟩ := h c rfl
    rw [readExponent, if_neg (by simp [he, hE])]

theorem readNumber_eq (lim : Limits) (cs : List Char) : readNumber lim cs =
    if infinityName.isPrefixOf (Text.splitMinus cs).2 then
      some (real (.infinite (Text.splitMinus cs).1),
        (Text.splitMinus cs).2.drop infinityName.length)
    else readMagnitude lim (Text.splitMinus cs).1 (Text.splitMinus cs).2 := rfl

theorem infinityName_eq : infinityName = 'I' :: "nfinity".toList := by
  decide

theorem readNumber_toString {lim : Limits} {n : Int} {rest : List Char}
    (hn : (toString n).length ≤ lim.digits) (hr : Stops rest) :
    readNumber lim ((toString n).toList ++ rest) = some (int n, rest) := by
  obtain ⟨negative, m, rfl, ht⟩ := Text.exists_magnitude n
  have hl : (Nat.toDigits 10 m).length + negative.toNat ≤ lim.digits :=
    Text.length_toString_signed ht ▸ hn
  obtain ⟨d, ds, hd⟩ := List.exists_cons_of_ne_nil (Nat.toDigits_ne_nil (n := m) (b := 10))
  have hdigit : d.isDigit = true :=
    Text.isDigit_of_mem_toDigits (n := m) (hd ▸ List.mem_cons_self)
  have hsplit : Text.splitMinus (Text.signChars negative ++ (Nat.toDigits 10 m ++ rest)) =
      (negative, Nat.toDigits 10 m ++ rest) := by
    refine Text.splitMinus_signChars fun c hc => ?_
    rw [hd] at hc
    obtain rfl := Option.some.inj hc
    exact hdigit
  have hfinite : infinityName.isPrefixOf (Nat.toDigits 10 m ++ rest) = false := by
    have hne : ('I' == d) = false := by
      rw [beq_eq_false_iff_ne]
      rintro rfl
      cases hdigit
    rw [hd, infinityName_eq, List.cons_append, List.isPrefixOf_cons_cons, hne, Bool.false_and]
  rw [ht, List.append_assoc, readNumber_eq, hsplit]
  dsimp only
  rw [hfinite, readMagnitude, Text.takeNumeral_toDigits hl hr.ended]
  simp only [Except.toOption, Option.bind_eq_bind, Option.bind_some, readFraction_of_stops hr,
    readExponent_of_stops hr, Text.ofDigits_toDigits, Bool.false_eq_true, if_false]

/-! ## Blanks -/

theorem skipSpace_append {blank : List Char} (h : ∀ c ∈ blank, isSpace c = true) (cs : List Char) :
    skipSpace (blank ++ cs) = skipSpace cs := List.dropWhile_append_of_pos h

theorem skipSpace_cons {c : Char} (h : isSpace c = false) (cs : List Char) :
    skipSpace (c :: cs) = c :: cs := by
  rw [skipSpace, List.dropWhile_cons_of_neg (by simp [h])]

theorem readValue_skip {blank : List Char} (h : ∀ c ∈ blank, isSpace c = true) (lim : Limits)
    (n depth : Nat) (cs : List Char) :
    readValue lim n depth (blank ++ cs) = readValue lim n depth cs := by
  cases n with
  | zero => rfl
  | succ n => rw [readValue, readValue, skipSpace_append h]

theorem readItems_skip {blank : List Char} (h : ∀ c ∈ blank, isSpace c = true) (lim : Limits)
    (n depth : Nat) (cs : List Char) :
    readItems lim n depth (blank ++ cs) = readItems lim n depth cs := by
  cases n with
  | zero => rfl
  | succ n => rw [readItems, readItems, readValue_skip h]

theorem readEntries_skip {blank : List Char} (h : ∀ c ∈ blank, isSpace c = true) (lim : Limits)
    (n depth : Nat) (cs : List Char) :
    readEntries lim n depth (blank ++ cs) = readEntries lim n depth cs := by
  cases n with
  | zero => rfl
  | succ n => rw [readEntries, readEntries, skipSpace_append h]

/-! ## Containers -/

section

variable {lim : Limits} {n depth : Nat} {blank : List Char} {c : Char} {cs : List Char}

theorem readValue_bracket : readValue lim (n + 1) depth ('[' :: cs) =
    match skipSpace cs with
    | ']' :: rest => some (arr [], rest)
    | rest =>
      if depth < lim.depth then
        (readItems lim n (depth + 1) rest).map fun (xs, r) => (arr xs, r)
      else none := by
  rfl

theorem readValue_brace : readValue lim (n + 1) depth ('\x7b' :: cs) =
    match skipSpace cs with
    | '\x7d' :: rest => some (obj [], rest)
    | rest =>
      if depth < lim.depth then
        (readEntries lim n (depth + 1) rest).map fun (xs, r) => (obj xs, r)
      else none := by
  rfl

theorem readValue_array (hb : ∀ b ∈ blank, isSpace b = true) (hs : isSpace c = false) (hc : c ≠ ']')
    (hd : depth < lim.depth) : readValue lim (n + 1) depth ('[' :: (blank ++ c :: cs)) =
      (readItems lim n (depth + 1) (c :: cs)).map fun (xs, r) => (arr xs, r) := by
  rw [readValue_bracket, skipSpace_append hb, skipSpace_cons hs]
  split
  · rename_i he
    exact absurd (List.cons.inj he).1 hc
  · rw [if_pos hd]

theorem readValue_object (hb : ∀ b ∈ blank, isSpace b = true) (hs : isSpace c = false)
    (hc : c ≠ '\x7d') (hd : depth < lim.depth) :
    readValue lim (n + 1) depth ('\x7b' :: (blank ++ c :: cs)) =
      (readEntries lim n (depth + 1) (c :: cs)).map fun (xs, r) => (obj xs, r) := by
  rw [readValue_brace, skipSpace_append hb, skipSpace_cons hs]
  split
  · rename_i he
    exact absurd (List.cons.inj he).1 hc
  · rw [if_pos hd]

end

/-- The text is read as the value, whatever stops it. -/
structure IsRead (lim : Limits) (depth : Nat) (text : List Char) (j : Json) : Prop where
  head : ∃ c cs, text = c :: cs ∧ isSpace c = false ∧ c ≠ ']'
  reads : ∀ n rest, 2 * text.length ≤ n → Stops rest →
    readValue lim n depth (text ++ rest) = some (j, rest)

theorem stops_comma (rest : List Char) : Stops (',' :: rest) := by
  rintro d ⟨⟩
  decide

/-- Blanks and what closes a container stop a number. -/
theorem stops_close {blank : List Char} (h : ∀ c ∈ blank, isSpace c = true) {c : Char}
    (hc : c = ']' ∨ c = '\x7d') (rest : List Char) : Stops (blank ++ c :: rest) := by
  cases blank with
  | nil =>
    rintro d ⟨⟩
    rcases hc with rfl | rfl <;> decide
  | cons b blank =>
    rintro d ⟨⟩
    have hb := h b List.mem_cons_self
    simp only [isSpace, Bool.or_eq_true, decide_eq_true_eq] at hb
    rcases hb with ((rfl | rfl) | rfl) | rfl <;> decide

theorem IsRead.length_pos {lim : Limits} {depth : Nat} {text : List Char} {j : Json}
    (h : IsRead lim depth text j) : 0 < text.length := by
  obtain ⟨c, cs, rfl, -⟩ := h.head
  exact Nat.succ_pos _

section

variable {lim : Limits} {depth : Nat} {text : Json → List Char} {gap close : List Char}

/-- Items between their commas are read up to the closing bracket. -/
theorem readItems_intercalate (hg : ∀ c ∈ gap, isSpace c = true)
    (hclose : ∀ c ∈ close, isSpace c = true) {x : Json} {xs : List Json}
    (h : ∀ y ∈ x :: xs, IsRead lim depth (text y) y) {n : Nat} {rest : List Char}
    (hn : 2 * ((',' :: gap).intercalate ((x :: xs).map text)).length + 1 ≤ n) :
    readItems lim n depth
        ((',' :: gap).intercalate ((x :: xs).map text) ++ (close ++ ']' :: rest)) =
      some (x :: xs, rest) := by
  obtain ⟨k, rfl⟩ : ∃ k, n = k + 1 := ⟨n - 1, by omega⟩
  have hx := h x List.mem_cons_self
  induction xs generalizing x k with
  | nil =>
    rw [List.map_cons, List.map_nil, List.intercalate_singleton] at hn ⊢
    have hv := hx.reads k (close ++ ']' :: rest) (by omega) (stops_close hclose (by simp) rest)
    rw [readItems, hv]
    dsimp only
    rw [skipSpace_append hclose, skipSpace_cons (by decide)]
    rfl
  | cons y ys ih =>
    rw [List.map_cons, List.map_cons, List.intercalate_cons_cons, ← List.map_cons] at hn ⊢
    generalize htail : (',' :: gap).intercalate ((y :: ys).map text) = tail at hn ⊢
    have hlength := hx.length_pos
    simp only [List.length_append, List.length_cons] at hn
    have hv := hx.reads k (',' :: (gap ++ (tail ++ (close ++ ']' :: rest)))) (by omega)
      (stops_comma _)
    have hy := h y (List.mem_cons_of_mem x List.mem_cons_self)
    have hrest : readItems lim k depth (tail ++ (close ++ ']' :: rest)) = some (y :: ys, rest) := by
      obtain ⟨m, rfl⟩ : ∃ m, k = m + 1 := ⟨k - 1, by omega⟩
      rw [← htail]
      refine ih (fun z hz => h z (List.mem_cons_of_mem x hz)) m ?_ hy
      rw [htail]
      omega
    rw [List.append_assoc, List.append_assoc, List.cons_append, readItems, hv]
    dsimp only
    rw [skipSpace_cons (by decide)]
    change (readItems lim k depth (gap ++ (tail ++ (close ++ ']' :: rest)))).map _ = _
    rw [readItems_skip hg, hrest]
    rfl

/-- What is written for an entry. -/
def entryText (text : Json → List Char) (e : String × Json) : List Char :=
  (writeString e.1).toList ++ (':' :: ' ' :: text e.2)

theorem readEntries_quote {n : Nat} {cs : List Char} :
    readEntries lim (n + 1) depth ('"' :: cs) =
      match readString cs with
      | none => none
      | some (key, rest) =>
        match skipSpace rest with
        | ':' :: rest =>
          match readValue lim n depth rest with
          | none => none
          | some (x, rest) =>
            match skipSpace rest with
            | '\x7d' :: rest => some ([(key, x)], rest)
            | ',' :: rest =>
              (readEntries lim n depth rest).map fun (xs, r) => ((key, x) :: xs, r)
            | _ => none
        | _ => none := by
  rw [readEntries]
  rfl

/-- The value of an entry is read behind its key and the colon. -/
theorem readEntries_colon {n : Nat} {cs rest : List Char} {key : String}
    (h : readString cs = some (key, ':' :: rest)) :
    readEntries lim (n + 1) depth ('"' :: cs) =
      match readValue lim n depth rest with
      | none => none
      | some (x, rest) =>
        match skipSpace rest with
        | '\x7d' :: rest => some ([(key, x)], rest)
        | ',' :: rest => (readEntries lim n depth rest).map fun (xs, r) => ((key, x) :: xs, r)
        | _ => none := by
  rw [readEntries_quote, h]
  rfl

/-- An entry is read up to what stops its value. -/
theorem readEntries_entry {e : String × Json} (he : IsRead lim depth (text e.2) e.2) {n : Nat}
    {rest : List Char} (hn : 2 * (entryText text e).length ≤ n) (hr : Stops rest) :
    readEntries lim (n + 1) depth (entryText text e ++ rest) =
      match skipSpace rest with
      | '\x7d' :: rest => some ([e], rest)
      | ',' :: rest => (readEntries lim n depth rest).map fun (xs, r) => (e :: xs, r)
      | _ => none := by
  obtain ⟨key, x⟩ := e
  have hkey : entryText text (key, x) ++ rest =
      '"' :: (key.toList.flatMap escape ++ '"' :: ':' :: ' ' :: (text x ++ rest)) := by
    rw [entryText, toList_writeString]
    simp
  have hvalue : readValue lim n depth (' ' :: (text x ++ rest)) = some (x, rest) := by
    have hspace : ∀ c ∈ [' '], isSpace c = true := by
      intro c hc
      obtain rfl := List.mem_singleton.mp hc
      rfl
    have hskip := readValue_skip hspace lim n depth (text x ++ rest)
    rw [List.singleton_append] at hskip
    rw [hskip]
    have hlength : 2 * (text x).length ≤ n := by
      rw [entryText, List.length_append, List.length_cons, List.length_cons] at hn
      dsimp only at hn
      omega
    exact he.reads n rest hlength hr
  rw [hkey, readEntries_colon (readString_flatMap ..), hvalue]

/-- Entries between their commas are read up to the closing brace. -/
theorem readEntries_intercalate (hg : ∀ c ∈ gap, isSpace c = true)
    (hclose : ∀ c ∈ close, isSpace c = true) {e : String × Json} {es : List (String × Json)}
    (h : ∀ f ∈ e :: es, IsRead lim depth (text f.2) f.2) {n : Nat} {rest : List Char}
    (hn : 2 * ((',' :: gap).intercalate ((e :: es).map (entryText text))).length + 1 ≤ n) :
    readEntries lim n depth
        ((',' :: gap).intercalate ((e :: es).map (entryText text)) ++ (close ++ '\x7d' :: rest)) =
      some (e :: es, rest) := by
  obtain ⟨k, rfl⟩ : ∃ k, n = k + 1 := ⟨n - 1, by omega⟩
  have he := h e List.mem_cons_self
  induction es generalizing e k with
  | nil =>
    rw [List.map_cons, List.map_nil, List.intercalate_singleton] at hn ⊢
    rw [readEntries_entry he (by omega) (stops_close hclose (by simp) rest),
      skipSpace_append hclose, skipSpace_cons (by decide)]
    rfl
  | cons f fs ih =>
    rw [List.map_cons, List.map_cons, List.intercalate_cons_cons, ← List.map_cons] at hn ⊢
    generalize htail : (',' :: gap).intercalate ((f :: fs).map (entryText text)) = tail at hn ⊢
    have hlength := he.length_pos
    simp only [List.length_append, List.length_cons] at hn
    have hf := h f (List.mem_cons_of_mem e List.mem_cons_self)
    have hrest : readEntries lim k depth (tail ++ (close ++ '\x7d' :: rest)) =
        some (f :: fs, rest) := by
      obtain ⟨m, rfl⟩ : ∃ m, k = m + 1 := ⟨k - 1, by omega⟩
      rw [← htail]
      refine ih (fun z hz => h z (List.mem_cons_of_mem e hz)) m ?_ hf
      rw [htail]
      omega
    rw [List.append_assoc, List.append_assoc, List.cons_append,
      readEntries_entry he (by omega) (stops_comma _), skipSpace_cons (by decide)]
    change (readEntries lim k depth (gap ++ (tail ++ (close ++ '\x7d' :: rest)))).map _ = _
    rw [readEntries_skip hg, hrest]
    rfl

end

/-! ## Indented text -/

/-- Ends a line and indents the next one. -/
def margin (level : Nat) : List Char := '\n' :: List.replicate (2 * level) ' '

theorem isSpace_margin (level : Nat) : ∀ c ∈ margin level, isSpace c = true := by
  intro c hc
  rcases List.mem_cons.mp hc with rfl | hc
  · decide
  · obtain rfl := List.eq_of_mem_replicate hc
    decide

theorem margin_succ (level : Nat) : margin level ++ [' ', ' '] = margin (level + 1) := by
  rw [margin, margin, List.cons_append, Nat.mul_add, ← List.replicate_append_replicate]
  rfl

theorem toList_margin (level : Nat) :
    ("\n" ++ String.ofList (List.replicate (2 * level) ' ')).toList = margin level := by
  rw [String.toList_append]
  exact congrArg (List.cons '\n') String.toList_ofList

/-- The lines of a container that is not empty stand between their commas. -/
theorem toList_block {opening closing : String} {level : Nat} {lines : List String}
    (hl : lines ≠ []) : (block opening closing level lines).toList =
      opening.toList ++ (margin (level + 1) ++
        ((',' :: margin (level + 1)).intercalate (lines.map String.toList) ++
          (margin level ++ closing.toList))) := by
  have hempty : lines.isEmpty = false := List.isEmpty_eq_false_iff.mpr hl
  have htwo : "  ".toList = [' ', ' '] := rfl
  have hcomma : ",".toList = [','] := rfl
  rw [block, hempty]
  simp only [Bool.false_eq_true, if_false]
  generalize hm : "\n" ++ String.ofList (List.replicate (2 * level) ' ') = m
  have hmargin : m.toList = margin level := by rw [← hm, toList_margin]
  simp only [String.toList_append, String.toList_intercalate, htwo, hcomma, hmargin,
    List.append_assoc, List.singleton_append, margin_succ]
  rw [List.cons_append, margin_succ]

theorem toList_block_nil (opening closing : String) (level : Nat) :
    (block opening closing level []).toList = opening.toList ++ closing.toList := by
  rw [block, if_pos List.isEmpty_nil, String.toList_append]

theorem indentedItems_eq (level : Nat) (items : List Json) :
    indentedItems level items = items.map (indented level) := by
  induction items with
  | nil => rfl
  | cons x xs ih => rw [indentedItems, ih, List.map_cons]

theorem indentedEntries_eq (level : Nat) (entries : List (String × Json)) :
    indentedEntries level entries =
      entries.map fun e => writeString e.1 ++ ": " ++ indented level e.2 := by
  induction entries with
  | nil => rfl
  | cons e es ih =>
    obtain ⟨k, v⟩ := e
    rw [indentedEntries, ih, List.map_cons]

/-- A value without real numbers whose integers are not too long, at a depth from which it is not
nested too deeply. -/
inductive Fits (lim : Limits) : Nat → Json → Prop
  | null {depth : Nat} : Fits lim depth null
  | bool {depth : Nat} (b : Bool) : Fits lim depth (bool b)
  | int {depth : Nat} {n : Int} (h : (toString n).length ≤ lim.digits) : Fits lim depth (int n)
  | str {depth : Nat} (s : String) : Fits lim depth (str s)
  | arr {depth : Nat} {items : List Json} (hd : depth < lim.depth)
      (h : ∀ x ∈ items, Fits lim (depth + 1) x) : Fits lim depth (arr items)
  | obj {depth : Nat} {entries : List (String × Json)} (hd : depth < lim.depth)
      (h : ∀ e ∈ entries, Fits lim (depth + 1) e.2) : Fits lim depth (obj entries)

theorem isRead_int {lim : Limits} {n : Int} (h : (toString n).length ≤ lim.digits) (depth : Nat) :
    IsRead lim depth (toString n).toList (int n) := by
  have hhead : ∃ c cs, (toString n).toList = c :: cs ∧ (c = '-' ∨ c.isDigit = true) := by
    obtain ⟨negative, m, -, ht⟩ := Text.exists_magnitude n
    rw [ht]
    cases negative with
    | true => exact ⟨'-', _, rfl, .inl rfl⟩
    | false =>
      obtain ⟨d, ds, hd⟩ := List.exists_cons_of_ne_nil (Nat.toDigits_ne_nil (n := m) (b := 10))
      exact ⟨d, ds, hd, .inr (Text.isDigit_of_mem_toDigits (n := m) (hd ▸ List.mem_cons_self))⟩
  obtain ⟨c, cs, ht, hc⟩ := hhead
  have hne : ∀ d : Char, d ≠ '-' → d.isDigit = false → c ≠ d := by
    rintro d hd hdigit rfl
    rcases hc with hc | hc
    · exact hd hc
    · rw [hdigit] at hc
      cases hc
  have hspace : isSpace c = false := by
    simp only [isSpace, Bool.or_eq_false_iff, decide_eq_false_iff_not]
    exact ⟨⟨⟨hne _ (by decide) rfl, hne _ (by decide) rfl⟩, hne _ (by decide) rfl⟩,
      hne _ (by decide) rfl⟩
  refine ⟨⟨c, cs, ht, hspace, hne _ (by decide) rfl⟩, fun k rest hk hr => ?_⟩
  obtain ⟨k, rfl⟩ : ∃ m, k = m + 1 := ⟨k - 1, by rw [ht, List.length_cons] at hk; omega⟩
  have hnumber := readNumber_toString h hr
  rw [ht, List.cons_append] at hnumber ⊢
  rw [readValue, skipSpace_cons hspace]
  split
  case h_8 => exact hnumber
  all_goals
    rename_i he
    exact absurd (List.cons.inj he).1 (hne _ (by decide) rfl)

/-- A text that is read as it begins. -/
theorem isRead_of_forall {lim : Limits} {depth : Nat} {c : Char} {cs : List Char} {j : Json}
    (hs : isSpace c = false) (hc : c ≠ ']')
    (h : ∀ k rest, readValue lim (k + 1) depth (c :: (cs ++ rest)) = some (j, rest)) :
    IsRead lim depth (c :: cs) j := by
  refine ⟨⟨c, cs, rfl, hs, hc⟩, fun n rest hn hr => ?_⟩
  obtain ⟨k, rfl⟩ : ∃ k, n = k + 1 := ⟨n - 1, by rw [List.length_cons] at hn; omega⟩
  exact h k rest

theorem isRead_str {lim : Limits} (s : String) (depth : Nat) :
    IsRead lim depth (writeString s).toList (str s) := by
  rw [toList_writeString]
  refine isRead_of_forall (by decide) (by decide) fun k rest => ?_
  change (readString _).map _ = _
  rw [List.append_assoc, List.singleton_append, readString_flatMap]
  rfl

theorem toList_indented_arr {x : Json} {xs : List Json} (level : Nat) :
    ((arr (x :: xs)).indented level).toList = '[' :: (margin (level + 1) ++
      ((',' :: margin (level + 1)).intercalate
        ((x :: xs).map fun y => (y.indented (level + 1)).toList) ++ (margin level ++ [']']))) := by
  rw [indented, indentedItems_eq, toList_block (by simp), List.map_map]
  rfl

theorem toList_indented_obj {e : String × Json} {es : List (String × Json)} (level : Nat) :
    ((obj (e :: es)).indented level).toList = '\x7b' :: (margin (level + 1) ++
      ((',' :: margin (level + 1)).intercalate
        ((e :: es).map (entryText fun y => (y.indented (level + 1)).toList)) ++
          (margin level ++ ['\x7d']))) := by
  have hentry : ∀ f : String × Json,
      (writeString f.1 ++ ": " ++ f.2.indented (level + 1)).toList =
        entryText (fun y => (y.indented (level + 1)).toList) f := by
    intro f
    rw [String.toList_append, String.toList_append, List.append_assoc]
    rfl
  rw [indented, indentedEntries_eq, toList_block (by simp), List.map_map]
  simp only [Function.comp_def, hentry]
  rfl

/-- Joined texts begin as the first of them. -/
theorem exists_intercalate_eq (sep : List Char) (c : Char) (cs : List Char)
    (texts : List (List Char)) : ∃ rest, sep.intercalate ((c :: cs) :: texts) = c :: rest := by
  cases texts with
  | nil => exact ⟨cs, List.intercalate_singleton⟩
  | cons t texts =>
    rw [List.intercalate_cons_cons]
    exact ⟨_, rfl⟩

theorem isRead_arr {lim : Limits} {depth level : Nat} {items : List Json} (hd : depth < lim.depth)
    (h : ∀ x ∈ items, IsRead lim (depth + 1) (x.indented (level + 1)).toList x) :
    IsRead lim depth ((arr items).indented level).toList (arr items) := by
  cases items with
  | nil =>
    rw [indented, indentedItems_eq, List.map_nil, toList_block_nil]
    refine isRead_of_forall (by decide) (by decide) fun k rest => ?_
    rfl
  | cons x xs =>
    obtain ⟨c, cs, hx, hs, hc⟩ := (h x List.mem_cons_self).head
    rw [toList_indented_arr]
    generalize hbody : (',' :: margin (level + 1)).intercalate
      ((x :: xs).map fun y => (y.indented (level + 1)).toList) = body
    obtain ⟨tail, htail⟩ : ∃ tail, body = c :: tail := by
      rw [← hbody, List.map_cons, hx]
      exact exists_intercalate_eq _ c cs _
    refine ⟨⟨'[', _, rfl, by decide, by decide⟩, fun n rest hn hr => ?_⟩
    simp only [List.length_cons, List.length_append] at hn
    obtain ⟨k, rfl⟩ : ∃ k, n = k + 1 := ⟨n - 1, by omega⟩
    have hitems : readItems lim k (depth + 1) (body ++ (margin level ++ ']' :: rest)) =
        some (x :: xs, rest) := by
      rw [← hbody]
      refine readItems_intercalate (isSpace_margin _) (isSpace_margin _) h ?_
      rw [hbody]
      omega
    subst htail
    rw [List.cons_append] at hitems
    simp only [List.cons_append, List.append_assoc, List.nil_append]
    rw [readValue_array (isSpace_margin (level + 1)) hs hc hd, hitems]
    rfl

theorem isRead_obj {lim : Limits} {depth level : Nat} {entries : List (String × Json)}
    (hd : depth < lim.depth)
    (h : ∀ e ∈ entries, IsRead lim (depth + 1) (e.2.indented (level + 1)).toList e.2) :
    IsRead lim depth ((obj entries).indented level).toList (obj entries) := by
  cases entries with
  | nil =>
    rw [indented, indentedEntries_eq, List.map_nil, toList_block_nil]
    refine isRead_of_forall (by decide) (by decide) fun k rest => ?_
    rfl
  | cons e es =>
    rw [toList_indented_obj]
    generalize hbody : (',' :: margin (level + 1)).intercalate
      ((e :: es).map (entryText fun y => (y.indented (level + 1)).toList)) = body
    obtain ⟨tail, htail⟩ : ∃ tail, body = '"' :: tail := by
      rw [← hbody, List.map_cons, entryText, toList_writeString]
      exact exists_intercalate_eq _ _ _ _
    refine ⟨⟨'\x7b', _, rfl, by decide, by decide⟩, fun n rest hn hr => ?_⟩
    simp only [List.length_cons, List.length_append] at hn
    obtain ⟨k, rfl⟩ : ∃ k, n = k + 1 := ⟨n - 1, by omega⟩
    have hentries : readEntries lim k (depth + 1) (body ++ (margin level ++ '\x7d' :: rest)) =
        some (e :: es, rest) := by
      rw [← hbody]
      refine readEntries_intercalate (isSpace_margin _) (isSpace_margin _) h ?_
      rw [hbody]
      omega
    subst htail
    rw [List.cons_append] at hentries
    simp only [List.cons_append, List.append_assoc, List.nil_append]
    rw [readValue_object (isSpace_margin (level + 1)) (by decide) (by decide) hd, hentries]
    rfl

/-- The indented text of a value is read as the value. -/
theorem Fits.isRead {lim : Limits} {depth : Nat} {j : Json} (h : Fits lim depth j) (level : Nat) :
    IsRead lim depth (j.indented level).toList j := by
  induction h generalizing level with
  | null =>
    have ht : (Json.null.indented level).toList = ['n', 'u', 'l', 'l'] := by
      rw [indented]
      rfl
    rw [ht]
    refine isRead_of_forall (by decide) (by decide) fun k rest => ?_
    rfl
  | bool b =>
    cases b with
    | true =>
      have ht : ((Json.bool true).indented level).toList = ['t', 'r', 'u', 'e'] := by
        rw [indented]
        rfl
      rw [ht]
      refine isRead_of_forall (by decide) (by decide) fun k rest => ?_
      rfl
    | false =>
      have ht : ((Json.bool false).indented level).toList = ['f', 'a', 'l', 's', 'e'] := by
        rw [indented]
        rfl
      rw [ht]
      refine isRead_of_forall (by decide) (by decide) fun k rest => ?_
      rfl
  | int h => exact isRead_int h _
  | str s => exact isRead_str s _
  | arr hd _ ih => exact isRead_arr hd fun x hx => ih x hx (level + 1)
  | obj hd _ ih => exact isRead_obj hd fun e he => ih e he (level + 1)

/-- What is written to a file is read from it. -/
theorem read?_indented {lim : Limits} {j : Json} (h : Fits lim 0 j) :
    read? lim (j.indented 0 ++ "\n") = some j := by
  have hline : "\n".toList = ['\n'] := rfl
  have hstops : Stops ['\n'] := by
    rintro c ⟨⟩
    decide
  have hv := (h.isRead 0).reads (2 * ((j.indented 0).toList ++ ['\n']).length + 2) ['\n']
    (by rw [List.length_append]; omega) hstops
  rw [read?, String.toList_append, hline, hv]
  rfl

end Taproot.Json
