import Taproot.Descriptor.Token
import Taproot.Proofs.Text.HexDigits

/-! # Lexemes of a text

The scan of a text is described in a second way, as the matches of a pattern: blanks, and behind them
a run of name characters or one other character. Each match begins where the one before it ended. A
text is thereby a row of gaps and lexemes, along which the tokens are found to be what stands between
the blanks, each at its position, and to leave out only blanks.
-/
namespace Taproot

/-- The first token ends before the second one begins. -/
def Token.Precedes (t u : Token) : Prop := t.position + t.chars.length ≤ u.position

namespace Descriptor

/-! ## Names, gaps and lexemes -/

structure IsName (w : List Char) : Prop where
  nonempty : w ≠ []
  chars : w.all Token.isNameChar = true

/-- No name goes on at the front. -/
def EndsName (cs : List Char) : Prop := ∀ c ∈ cs.head?, Token.isNameChar c = false

def IsGap (cs : List Char) : Prop := ∀ c ∈ cs, Text.isBlank c = true

/-- A lexeme in front of a rest, into which it does not go on. -/
inductive IsLexeme : List Char → List Char → Prop
  | name {w rest : List Char} : IsName w → EndsName rest → IsLexeme w rest
  | single {c : Char} {rest : List Char} : Token.isNameChar c = false → Text.isBlank c = false →
    IsLexeme [c] rest

variable {cs gap w rest front behind : List Char} {c : Char} {position n : Nat} {t : Token}

theorem toNat_lt_of_isNameChar (h : Token.isNameChar c = true) : c.toNat < 128 := by
  delta Token.isNameChar Char.isAlphanum Char.isAlpha Char.isUpper Char.isLower Char.isDigit at h
  simp only [Bool.or_eq_true, Bool.and_eq_true, decide_eq_true_eq, beq_iff_eq] at h
  rcases h with ((h | h) | h) | rfl
  · exact Text.toNat_lt_of_le h.2 (by decide)
  · exact Text.toNat_lt_of_le h.2 (by decide)
  · exact Text.toNat_lt_of_le h.2 (by decide)
  · decide

theorem isBlank_of_isNameChar (h : Token.isNameChar c = true) : Text.isBlank c = false :=
  Text.of_ascii (P := fun c => Token.isNameChar c = true → Text.isBlank c = false)
    (by decide +kernel) (toNat_lt_of_isNameChar h) h

theorem isNameChar_of_isBlank (h : Text.isBlank c = true) : Token.isNameChar c = false := by
  refine Bool.eq_false_iff.mpr fun hn => ?_
  exact Bool.false_ne_true ((isBlank_of_isNameChar hn).symm.trans h)

theorem endsName_dropWhile (cs : List Char) : EndsName (cs.dropWhile Token.isNameChar) := by
  intro c hc
  have h := List.head?_dropWhile_not Token.isNameChar cs
  rw [Option.mem_def.mp hc] at h
  exact h

theorem IsGap.endsName (h : IsGap cs) : EndsName cs :=
  fun c hc => isNameChar_of_isBlank (h c (List.mem_of_mem_head? hc))

theorem IsGap.reverse (h : IsGap cs) : IsGap cs.reverse :=
  fun c hc => h c (List.mem_reverse.mp hc)

theorem IsLexeme.ne_nil (h : IsLexeme w rest) : w ≠ [] := by
  cases h with
  | name hw => exact hw.nonempty
  | single => exact List.cons_ne_nil _ _

/-! ## The pattern -/

/-- How many blanks can be skipped at the front, the largest number first. -/
def skips (cs : List Char) : List Nat := (List.range ((cs.takeWhile Text.isBlank).length + 1)).reverse

/-- A run of name characters, as long as it goes, or else one character that is not blank. -/
def lexemeAt? (cs : List Char) : Option (List Char) :=
  match cs.takeWhile Token.isNameChar with
  | c :: run => some (c :: run)
  | [] => (cs.head?.filter fun c => !Text.isBlank c).map ([·])

/-- The number of skipped blanks and the lexeme behind them. Where no lexeme follows, fewer blanks
are tried. -/
def matchAt? (cs : List Char) : Option (Nat × List Char) :=
  (skips cs).findSome? fun n => (lexemeAt? (cs.drop n)).map (n, ·)

theorem lexemeAt?_eq_some (h : lexemeAt? cs = some w) :
    ∃ rest, cs = w ++ rest ∧ IsLexeme w rest := by
  unfold lexemeAt? at h
  split at h
  · rename_i c run hrun
    obtain rfl := Option.some.inj h
    have hcs : (c :: run) ++ cs.dropWhile Token.isNameChar = cs := by
      rw [← hrun]
      exact List.takeWhile_append_dropWhile
    have hall : (c :: run).all Token.isNameChar = true := by
      rw [← hrun]
      exact List.all_takeWhile
    exact ⟨_, hcs.symm, .name ⟨List.cons_ne_nil c run, hall⟩ (endsName_dropWhile cs)⟩
  · rename_i hrun
    cases cs with
    | nil => cases h
    | cons c rest =>
      obtain ⟨d, hd, rfl⟩ := Option.map_eq_some_iff.mp h
      obtain ⟨hd, hb⟩ := Option.filter_eq_some_iff.mp hd
      obtain rfl := Option.some.inj hd
      have hn : Token.isNameChar c = false := by
        refine Bool.eq_false_iff.mpr fun hn => ?_
        rw [List.takeWhile_cons_of_pos hn] at hrun
        cases hrun
      exact ⟨rest, rfl, .single hn (by simpa using hb)⟩

theorem isBlank_of_lexemeAt?_eq_none (h : lexemeAt? (c :: rest) = none) : Text.isBlank c = true := by
  unfold lexemeAt? at h
  split at h
  · cases h
  · simpa using h

theorem isGap_takeWhile (cs : List Char) : IsGap (cs.takeWhile Text.isBlank) :=
  List.all_eq_true.mp List.all_takeWhile

/-- The pattern matches blanks and the lexeme behind them. -/
theorem matchAt?_eq_some (h : matchAt? cs = some (n, w)) :
    ∃ gap rest, cs = gap ++ (w ++ rest) ∧ gap.length = n ∧ IsGap gap ∧ IsLexeme w rest := by
  obtain ⟨m, hm, h⟩ := List.exists_of_findSome?_eq_some h
  obtain ⟨w', hw, h⟩ := Option.map_eq_some_iff.mp h
  cases h
  obtain ⟨rest, hrest, hlex⟩ := lexemeAt?_eq_some hw
  have hle : n ≤ (cs.takeWhile Text.isBlank).length :=
    Nat.le_of_lt_succ (List.mem_range.mp (List.mem_reverse.mp hm))
  have hcs : cs.takeWhile Text.isBlank ++ cs.dropWhile Text.isBlank = cs :=
    List.takeWhile_append_dropWhile
  have htake : cs.take n = (cs.takeWhile Text.isBlank).take n := by
    rw [← List.take_append_of_le_length hle, hcs]
  refine ⟨cs.take n, rest, ?_, ?_, fun c hc => ?_, hlex⟩
  · rw [← hrest, List.take_append_drop]
  · rw [htake, List.length_take_of_le hle]
  · rw [htake] at hc
    exact isGap_takeWhile cs c (List.mem_of_mem_take hc)

/-- Where the pattern does not match, only blanks are left. -/
theorem isGap_of_matchAt?_eq_none (h : matchAt? cs = none) : IsGap cs := by
  have hcs : cs.takeWhile Text.isBlank ++ cs.dropWhile Text.isBlank = cs :=
    List.takeWhile_append_dropWhile
  have hmem : (cs.takeWhile Text.isBlank).length ∈ skips cs := by simp [skips]
  have hnone := List.findSome?_eq_none_iff.mp h _ hmem
  rw [Option.map_eq_none_iff] at hnone
  cases hd : cs.dropWhile Text.isBlank with
  | nil =>
    rw [hd, List.append_nil] at hcs
    rw [← hcs]
    exact isGap_takeWhile cs
  | cons c rest =>
    have hdrop : cs.drop (cs.takeWhile Text.isBlank).length = c :: rest := by
      calc cs.drop (cs.takeWhile Text.isBlank).length
          = (cs.takeWhile Text.isBlank ++ c :: rest).drop (cs.takeWhile Text.isBlank).length := by
            rw [← hd, hcs]
        _ = c :: rest := List.drop_left
    rw [hdrop] at hnone
    have hb := List.head?_dropWhile_not Text.isBlank cs
    rw [hd] at hb
    exact absurd (isBlank_of_lexemeAt?_eq_none hnone) (Bool.eq_false_iff.mp hb)

/-- A match takes at least one character. -/
theorem length_drop_of_matchAt? (h : matchAt? cs = some (n, w)) :
    (cs.drop (n + w.length)).length < cs.length := by
  obtain ⟨gap, rest, rfl, rfl, -, hw⟩ := matchAt?_eq_some h
  have hpos := List.length_pos_iff.mpr hw.ne_nil
  simp only [List.length_drop, List.length_append]
  omega

/-- The tokens of a text that starts at an offset, one for each match of the pattern, until it does
not match. -/
def matchesFrom (position : Nat) (cs : List Char) : List Token :=
  match _h : matchAt? cs with
  | none => []
  | some (n, w) =>
    ⟨w, position + n⟩ :: matchesFrom (position + n + w.length) (cs.drop (n + w.length))
termination_by cs.length
decreasing_by exact length_drop_of_matchAt? _h

/-- A text is a gap, or a gap and a lexeme in front of a text. -/
theorem lexeme_induction {P : List Char → Prop} (gap : ∀ {cs}, IsGap cs → P cs)
    (lexeme : ∀ {gap w rest}, IsGap gap → IsLexeme w rest → P rest → P (gap ++ (w ++ rest)))
    (cs : List Char) : P cs := by
  fun_induction matchesFrom 0 cs with
  | case1 position cs h => exact gap (isGap_of_matchAt?_eq_none h)
  | case2 position cs n w h ih =>
    obtain ⟨g, rest, rfl, rfl, hg, hw⟩ := matchAt?_eq_some h
    rw [← List.length_append, ← List.append_assoc, List.drop_left] at ih
    exact lexeme hg hw ih

/-! ## The scan along gaps and lexemes -/

theorem scanFrom_name {w : List Char} (h : w.all Token.isNameChar = true) (position : Nat)
    (word rest : List Char) : Token.scanFrom position word (w ++ rest) =
      Token.scanFrom (position + w.length) (w.reverse ++ word) rest := by
  induction w generalizing position word with
  | nil => rfl
  | cons c w ih =>
    obtain ⟨hc, hw⟩ := Bool.and_eq_true_iff.mp h
    rw [List.cons_append, Token.scanFrom, if_pos hc, ih hw]
    simp [Nat.add_comm, Nat.add_left_comm]

theorem scanFrom_single {c : Char} (hn : Token.isNameChar c = false)
    (hb : Text.isBlank c = false) (position : Nat) (rest : List Char) :
    Token.scanFrom position [] (c :: rest) =
      ⟨[c], position⟩ :: Token.scanFrom (position + 1) [] rest := by
  rw [Token.scanFrom, hn, hb]
  rfl

theorem scanFrom_ended {rest : List Char} (h : EndsName rest) (position : Nat) (word : List Char) :
    Token.scanFrom position word rest =
      Token.scanFrom.close position word ++ Token.scanFrom position [] rest := by
  cases rest with
  | nil => simp [Token.scanFrom, Token.scanFrom.close]
  | cons c rest =>
    have hc : Token.isNameChar c = false := h c rfl
    rw [Token.scanFrom, Token.scanFrom, hc]
    by_cases hb : Text.isBlank c <;> simp [hb, Token.scanFrom.close]

theorem scanFrom_gap (h : IsGap gap) (position : Nat) (rest : List Char) :
    Token.scanFrom position [] (gap ++ rest) =
      Token.scanFrom (position + gap.length) [] rest := by
  induction gap generalizing position with
  | nil => rfl
  | cons c gap ih =>
    obtain ⟨hc, hg⟩ := List.forall_mem_cons.mp h
    rw [List.cons_append, Token.scanFrom, isNameChar_of_isBlank hc, hc, if_neg (by simp), if_pos rfl,
      ih hg, List.length_cons, Nat.add_assoc, Nat.add_comm 1]
    rfl

theorem scanFrom_of_isGap (h : IsGap gap) (position : Nat) : Token.scanFrom position [] gap = [] := by
  have hg := scanFrom_gap h position []
  rwa [List.append_nil] at hg

theorem scanFrom_lexeme (h : IsLexeme w rest) (position : Nat) :
    Token.scanFrom position [] (w ++ rest) =
      ⟨w, position⟩ :: Token.scanFrom (position + w.length) [] rest := by
  cases h with
  | name hw hr =>
    rw [scanFrom_name hw.chars, List.append_nil, scanFrom_ended hr]
    simp [Token.scanFrom.close, hw.nonempty]
  | single hn hb => exact scanFrom_single hn hb position rest

/-- The scan finds the matches of the pattern. -/
theorem scanFrom_eq_matchesFrom (position : Nat) (cs : List Char) :
    Token.scanFrom position [] cs = matchesFrom position cs := by
  fun_induction matchesFrom position cs with
  | case1 position cs h => exact scanFrom_of_isGap (isGap_of_matchAt?_eq_none h) position
  | case2 position cs n w h ih =>
    obtain ⟨gap, rest, rfl, rfl, hg, hw⟩ := matchAt?_eq_some h
    rw [← List.length_append, ← List.append_assoc, List.drop_left] at ih
    rw [scanFrom_gap hg, scanFrom_lexeme hw, ih, ← List.length_append, ← List.append_assoc,
      List.drop_left]

/-! ## Cuts -/

/-- No name goes on from the one text into the other. -/
def IsCut (front behind : List Char) : Prop := EndsName front.reverse ∨ EndsName behind

theorem isCut_nil (cs : List Char) : IsCut [] cs := Or.inl nofun

theorem EndsName.of_append (h : EndsName (front ++ behind)) : EndsName front := by
  intro c hc
  refine h c ?_
  rw [List.head?_append, Option.mem_def.mp hc]
  rfl

theorem IsGap.endsName_append (hg : IsGap gap) (h : gap = [] → EndsName cs) :
    EndsName (gap ++ cs) := by
  cases gap with
  | nil => exact h rfl
  | cons c gap =>
    intro d hd
    obtain rfl := Option.some.inj hd
    exact isNameChar_of_isBlank (hg c List.mem_cons_self)

theorem IsName.not_endsName_append (h : IsName w) : ¬ EndsName (w ++ rest) := by
  intro he
  obtain ⟨c, w, rfl⟩ := List.exists_cons_of_ne_nil h.nonempty
  have hc := List.all_eq_true.mp h.chars c List.mem_cons_self
  exact Bool.false_ne_true ((he c rfl).symm.trans hc)

theorem IsName.reverse (h : IsName w) : IsName w.reverse :=
  ⟨by simpa using h.nonempty, by simpa using h.chars⟩

theorem IsCut.before_gap (h : IsCut front behind) (hg : IsGap gap) : IsCut front (gap ++ behind) := by
  rcases h with h | h
  · exact Or.inl h
  · exact Or.inr (hg.endsName_append fun _ => h)

theorem IsCut.behind_gap (h : IsCut front (gap ++ behind)) (hg : IsGap gap) :
    IsCut (front ++ gap) behind := by
  by_cases he : gap = []
  · subst he
    simpa using h
  · refine Or.inl ?_
    rw [List.reverse_append]
    exact hg.reverse.endsName_append fun hr => absurd (List.reverse_eq_nil_iff.mp hr) he

theorem IsCut.of_append (h : IsCut (front ++ rest) behind) : IsCut rest behind := by
  rcases h with h | h
  · rw [List.reverse_append] at h
    exact Or.inl h.of_append
  · exact Or.inr h

theorem isCut_single (h : Token.isNameChar c = false) : IsCut front ([c] ++ behind) :=
  Or.inr fun _ hd => Option.some.inj hd ▸ h

/-- In front of a name, the cut is where no name ends. -/
theorem IsCut.endsName (h : IsCut front (w ++ rest)) (hw : IsName w) : EndsName front.reverse :=
  h.resolve_right hw.not_endsName_append

theorem IsLexeme.isCut (h : IsLexeme w rest) (front : List Char) : IsCut (front ++ w) rest := by
  cases h with
  | name _ hr => exact Or.inr hr
  | @single c _ hn _ =>
    refine Or.inl fun d hd => ?_
    rw [List.reverse_append] at hd
    obtain rfl := Option.some.inj hd
    exact hn

/-- What stands behind a cut does not change the lexeme in front of it. -/
theorem IsLexeme.append (h : IsLexeme w rest) (hc : IsCut (w ++ rest) behind) :
    IsLexeme w (rest ++ behind) := by
  cases h with
  | single hn hb => exact .single hn hb
  | name hw hr =>
    refine .name hw ?_
    cases rest with
    | cons c rest => exact fun d hd => hr d hd
    | nil =>
      rw [List.append_nil] at hc
      refine hc.resolve_left fun he => ?_
      rw [← List.append_nil w.reverse] at he
      exact hw.reverse.not_endsName_append he

/-- The scan of a text is that of its parts, wherever it is cut. -/
theorem scanFrom_append (h : IsCut front behind) (position : Nat) :
    Token.scanFrom position [] (front ++ behind) =
      Token.scanFrom position [] front ++ Token.scanFrom (position + front.length) [] behind := by
  induction front using lexeme_induction generalizing position with
  | @gap gap hg =>
    rw [scanFrom_gap hg, scanFrom_of_isGap hg]
    rfl
  | @lexeme gap w rest hg hw ih =>
    have hw' : IsLexeme w (rest ++ behind) := hw.append h.of_append
    have hrest : IsCut rest behind := h.of_append.of_append
    rw [List.append_assoc, List.append_assoc, scanFrom_gap hg, scanFrom_gap hg, scanFrom_lexeme hw',
      scanFrom_lexeme hw, ih hrest]
    simp [Nat.add_assoc]

theorem map_chars_scanFrom (position : Nat) (cs : List Char) :
    (Token.scanFrom position [] cs).map Token.chars = (Token.scan cs).map Token.chars := by
  rw [Token.scan]
  generalize 0 = start
  induction cs using lexeme_induction generalizing position start with
  | gap hg => rw [scanFrom_of_isGap hg, scanFrom_of_isGap hg]
  | lexeme hg hw ih =>
    rw [scanFrom_gap hg, scanFrom_gap hg, scanFrom_lexeme hw, scanFrom_lexeme hw, List.map_cons,
      List.map_cons, ih]

theorem map_chars_scan_lexeme (h : IsLexeme w []) : (Token.scan w).map Token.chars = [w] := by
  have hs := scanFrom_lexeme h 0
  rw [List.append_nil] at hs
  rw [Token.scan, hs]
  rfl

/-- The words of a text are those of its parts, wherever it is cut. -/
theorem map_chars_scan_append (h : IsCut front behind) :
    (Token.scan (front ++ behind)).map Token.chars =
      (Token.scan front).map Token.chars ++ (Token.scan behind).map Token.chars := by
  rw [Token.scan, scanFrom_append h, List.map_append, map_chars_scanFrom (0 + front.length)]
  rfl

/-- A gap adds no words where no name goes on. -/
theorem map_chars_scan_insert (h : IsCut front behind) (hg : IsGap gap) :
    (Token.scan (front ++ (gap ++ behind))).map Token.chars =
      (Token.scan (front ++ behind)).map Token.chars := by
  rw [Token.scan, Token.scan, scanFrom_append (h.before_gap hg), scanFrom_append h, scanFrom_gap hg,
    List.map_append, List.map_append, map_chars_scanFrom (0 + front.length + gap.length),
    map_chars_scanFrom (0 + front.length)]

theorem exists_gaps (cs : List Char) : ∃ front behind,
    cs = front ++ (Text.trim Text.isBlank cs ++ behind) ∧ IsGap front ∧ IsGap behind := by
  refine ⟨cs.takeWhile Text.isBlank,
    ((cs.dropWhile Text.isBlank).reverse.takeWhile Text.isBlank).reverse, ?_, isGap_takeWhile cs,
    (isGap_takeWhile _).reverse⟩
  rw [Text.trim, ← List.reverse_append, List.takeWhile_append_dropWhile, List.reverse_reverse,
    List.takeWhile_append_dropWhile]

theorem map_chars_scan_trim (cs : List Char) :
    (Token.scan (Text.trim Text.isBlank cs)).map Token.chars = (Token.scan cs).map Token.chars := by
  obtain ⟨front, behind, hcs, hf, hb⟩ := exists_gaps cs
  have hfront := map_chars_scan_insert (isCut_nil (Text.trim Text.isBlank cs ++ behind)) hf
  have hbehind : Token.scan behind = [] := scanFrom_of_isGap hb 0
  rw [List.nil_append, List.nil_append, ← hcs, map_chars_scan_append (Or.inr hb.endsName), hbehind,
    List.map_nil, List.append_nil] at hfront
  exact hfront.symm

/-! ## The tokens of a text -/

/-- The token is a run of name characters of the text that goes on at neither end, or another
character of it that is not blank, and it knows its place. -/
inductive IsTokenOf (cs : List Char) : Token → Prop
  | name {front w behind : List Char} : cs = front ++ (w ++ behind) → IsName w →
    EndsName front.reverse → EndsName behind → IsTokenOf cs ⟨w, front.length⟩
  | single {front behind : List Char} {c : Char} : cs = front ++ ([c] ++ behind) →
    Token.isNameChar c = false → Text.isBlank c = false → IsTokenOf cs ⟨[c], front.length⟩

theorem isTokenOf_of_mem_scanFrom (hc : IsCut front cs)
    (ht : t ∈ Token.scanFrom front.length [] cs) : IsTokenOf (front ++ cs) t := by
  induction cs using lexeme_induction generalizing front with
  | gap hg =>
    rw [scanFrom_of_isGap hg] at ht
    cases ht
  | @lexeme gap w rest hg hw ih =>
    rw [scanFrom_gap hg, scanFrom_lexeme hw, ← List.length_append] at ht
    have hcut : IsCut (front ++ gap) (w ++ rest) := hc.behind_gap hg
    have hcs : front ++ (gap ++ (w ++ rest)) = (front ++ gap) ++ (w ++ rest) := by simp
    rcases List.mem_cons.mp ht with rfl | ht
    · cases hw with
      | name hw hr => exact .name hcs hw (hcut.endsName hw) hr
      | single hn hb => exact .single hcs hn hb
    · rw [← List.length_append] at ht
      rw [hcs, ← List.append_assoc]
      exact ih (hw.isCut _) ht

/-- The tokens are found where they stand, and nowhere else. -/
theorem mem_scan_iff : t ∈ Token.scan cs ↔ IsTokenOf cs t := by
  constructor
  · exact isTokenOf_of_mem_scanFrom (isCut_nil cs)
  · intro h
    rw [Token.scan]
    cases h with
    | name hcs hw hfront hbehind =>
      rw [hcs, scanFrom_append (Or.inl hfront), scanFrom_lexeme (.name hw hbehind)]
      simp
    | @single front behind c hcs hn hb =>
      rw [hcs, scanFrom_append (isCut_single hn), scanFrom_lexeme (.single hn hb)]
      simp

theorem le_position_of_mem_scanFrom (ht : t ∈ Token.scanFrom position [] cs) :
    position ≤ t.position := by
  induction cs using lexeme_induction generalizing position with
  | gap hg =>
    rw [scanFrom_of_isGap hg] at ht
    cases ht
  | lexeme hg hw ih =>
    rw [scanFrom_gap hg, scanFrom_lexeme hw] at ht
    rcases List.mem_cons.mp ht with rfl | ht
    · exact Nat.le_add_right _ _
    · have h := ih ht
      omega

theorem pairwise_scanFrom (position : Nat) (cs : List Char) :
    (Token.scanFrom position [] cs).Pairwise Token.Precedes := by
  induction cs using lexeme_induction generalizing position with
  | gap hg =>
    rw [scanFrom_of_isGap hg]
    exact .nil
  | lexeme hg hw ih =>
    rw [scanFrom_gap hg, scanFrom_lexeme hw]
    exact .cons (fun t ht => le_position_of_mem_scanFrom ht) (ih _)

theorem IsGap.filter (h : IsGap gap) : gap.filter (fun c => !Text.isBlank c) = [] := by
  rw [List.filter_eq_nil_iff]
  intro c hc
  simp [h c hc]

theorem IsLexeme.filter (h : IsLexeme w rest) : w.filter (fun c => !Text.isBlank c) = w := by
  rw [List.filter_eq_self]
  cases h with
  | name hw =>
    intro c hc
    simp [isBlank_of_isNameChar (List.all_eq_true.mp hw.chars c hc)]
  | single _ hb =>
    intro c hc
    rw [List.mem_singleton.mp hc, hb]
    rfl

/-- The tokens make up the text without its blanks. -/
theorem flatMap_scanFrom (position : Nat) (cs : List Char) :
    (Token.scanFrom position [] cs).flatMap Token.chars = cs.filter fun c => !Text.isBlank c := by
  induction cs using lexeme_induction generalizing position with
  | gap hg =>
    rw [scanFrom_of_isGap hg, hg.filter]
    rfl
  | lexeme hg hw ih =>
    rw [scanFrom_gap hg, scanFrom_lexeme hw, List.flatMap_cons, ih, List.filter_append, hg.filter,
      List.filter_append, hw.filter]
    rfl

/-- A letter outside ASCII is a token of its own, also beside a digit. -/
example : Token.scanAll " tr( a_1\u3000é9".toList =
    [⟨"tr".toList, 1⟩, ⟨"(".toList, 3⟩, ⟨"a_1".toList, 5⟩, ⟨"é".toList, 9⟩, ⟨"9".toList, 10⟩,
      ⟨"<end>".toList, 11⟩] := by
  decide

end Descriptor
end Taproot
