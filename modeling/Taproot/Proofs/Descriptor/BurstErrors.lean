import Mathlib.Data.List.Nodup
import Mathlib.Data.Nat.Bitwise
import Taproot.Proofs.Descriptor.RoundTrip

/-! # Bursts of errors

The step of the checksum is linear in exclusive or, and one with no symbol has a trivial kernel on
states of 40 bits. So eight symbols that differ move one state to two, whatever they are, and equal
symbols never bring two states together again. Four characters in a row lie in two groups of three,
which feed eight symbols at most.
-/
namespace Taproot.Checksum

/-! ### The step is linear -/

/-- What the fold of a step does with one bit of the state and its generator. -/
def select (top acc : Nat) (ig : Nat × Nat) : Nat := if top.testBit ig.1 then acc ^^^ ig.2 else acc

theorem step_eq_foldl (c v : Nat) : step c v =
    ((List.range 5).zip generators).foldl (select (c >>> 35)) (((c &&& 0x7ffffffff) <<< 5) ^^^ v) :=
  rfl

theorem select_xor (s t a b : Nat) (ig : Nat × Nat) :
    select (s ^^^ t) (a ^^^ b) ig = select s a ig ^^^ select t b ig := by
  simp only [select, Nat.testBit_xor]
  cases s.testBit ig.1 <;> cases t.testBit ig.1
  · rfl
  · exact Nat.xor_assoc a b ig.2
  · exact Nat.xor_right_comm a b ig.2
  · -- the generator is added on both sides and cancels
    simp only [Bool.bne_true, Bool.not_true, Bool.false_eq_true, if_false, if_true]
    rw [Nat.xor_assoc, Nat.xor_comm b ig.2, Nat.xor_xor_cancel_left]

theorem foldl_select_xor (l : List (Nat × Nat)) (s t a b : Nat) :
    l.foldl (select (s ^^^ t)) (a ^^^ b) = l.foldl (select s) a ^^^ l.foldl (select t) b := by
  induction l generalizing a b with
  | nil => rfl
  | cons ig l ih => simp only [List.foldl_cons, select_xor, ih]

theorem step_xor (a b v w : Nat) : step (a ^^^ b) (v ^^^ w) = step a v ^^^ step b w := by
  have hstart : (((a ^^^ b) &&& 0x7ffffffff) <<< 5) ^^^ (v ^^^ w) =
      (((a &&& 0x7ffffffff) <<< 5) ^^^ v) ^^^ (((b &&& 0x7ffffffff) <<< 5) ^^^ w) := by
    rw [Nat.and_xor_distrib_right, Nat.shiftLeft_xor_distrib]
    ac_rfl
  rw [step_eq_foldl, Nat.shiftRight_xor_distrib, hstart, foldl_select_xor]
  rfl

theorem foldl_select_zero (l : List (Nat × Nat)) (a : Nat) : l.foldl (select 0) a = a := by
  induction l generalizing a with
  | nil => rfl
  | cons ig l ih => rw [List.foldl_cons, select, Nat.zero_testBit, if_neg Bool.false_ne_true, ih]

/-- A state of 35 bits makes room for a symbol. -/
theorem step_of_lt {c : Nat} (hc : c < 2 ^ 35) (v : Nat) : step c v = (c <<< 5) ^^^ v := by
  have htop : c >>> 35 = 0 := by
    rw [Nat.shiftRight_eq_div_pow]
    exact Nat.div_eq_of_lt hc
  have hlow : c &&& 0x7ffffffff = c := by
    rw [show 0x7ffffffff = 2 ^ 35 - 1 from rfl, Nat.and_two_pow_sub_one_eq_mod]
    exact Nat.mod_eq_of_lt hc
  rw [step_eq_foldl, htop, hlow, foldl_select_zero]

/-! ### States have forty bits -/

theorem foldl_select_lt {l : List (Nat × Nat)} {n : Nat} (hl : ∀ ig ∈ l, ig.2 < 2 ^ n) (s : Nat)
    {a : Nat} (ha : a < 2 ^ n) : l.foldl (select s) a < 2 ^ n := by
  induction l generalizing a with
  | nil => exact ha
  | cons ig l ih =>
    refine ih (fun jg hj => hl jg (List.mem_cons_of_mem _ hj)) ?_
    rw [select]
    split
    · exact Nat.xor_lt_two_pow ha (hl ig List.mem_cons_self)
    · exact ha

theorem step_lt (c : Nat) {v : Nat} (hv : v < 32) : step c v < 2 ^ 40 := by
  have hstart : (c &&& 0x7ffffffff) <<< 5 < 2 ^ 40 := by
    rw [show 0x7ffffffff = 2 ^ 35 - 1 from rfl, Nat.and_two_pow_sub_one_eq_mod, Nat.shiftLeft_eq]
    have := Nat.mod_lt c (y := 2 ^ 35) (by decide)
    omega
  refine foldl_select_lt (by decide) (c >>> 35) (Nat.xor_lt_two_pow hstart ?_)
  exact hv.trans (by decide)

theorem foldl_step_lt {vs : List Nat} (hv : ∀ v ∈ vs, v < 32) {c : Nat} (hc : c < 2 ^ 40) :
    vs.foldl step c < 2 ^ 40 := by
  induction vs generalizing c with
  | nil => exact hc
  | cons v vs ih =>
    exact ih (fun w hw => hv w (List.mem_cons_of_mem _ hw)) (step_lt c (hv v List.mem_cons_self))

/-! ### No state is lost -/

/-- The low digits of the generators tell the 32 values of the top digit apart. -/
theorem eq_zero_of_step_top : ∀ top < 32, step (top <<< 35) 0 % 32 = 0 → top = 0 := by
  decide +kernel

theorem eq_shiftLeft_xor_mod (c n : Nat) : c = ((c / 2 ^ n) <<< n) ^^^ (c % 2 ^ n) := by
  apply Nat.eq_of_testBit_eq
  intro i
  rw [Nat.testBit_xor, Nat.testBit_shiftLeft, Nat.testBit_div_two_pow, Nat.testBit_mod_two_pow]
  by_cases hi : i < n
  · simp [hi, Nat.not_le.mpr hi]
  · have hn : n ≤ i := Nat.not_lt.mp hi
    simp [hi, hn, Nat.sub_add_cancel hn]

theorem eq_zero_of_step_eq_zero {c : Nat} (hc : c < 2 ^ 40) (h : step c 0 = 0) : c = 0 := by
  have hsplit := eq_shiftLeft_xor_mod c 35
  have hlow : c % 2 ^ 35 < 2 ^ 35 := Nat.mod_lt _ (by decide)
  have hsum : step ((c / 2 ^ 35) <<< 35) 0 = (c % 2 ^ 35) <<< 5 := by
    rw [← Nat.xor_eq_zero_iff, ← Nat.xor_zero ((c % 2 ^ 35) <<< 5), ← step_of_lt hlow, ← step_xor,
      ← hsplit]
    exact h
  have htop : c / 2 ^ 35 = 0 := by
    refine eq_zero_of_step_top _ (by omega) ?_
    rw [hsum, Nat.shiftLeft_eq]
    omega
  have hzero : step (0 <<< 35) 0 = 0 := by decide
  rw [htop, hzero, Nat.shiftLeft_eq] at hsum
  omega

theorem step_injOn {a b v : Nat} (ha : a < 2 ^ 40) (hb : b < 2 ^ 40) (h : step a v = step b v) :
    a = b := by
  rw [← Nat.xor_eq_zero_iff] at h ⊢
  refine eq_zero_of_step_eq_zero (Nat.xor_lt_two_pow ha hb) ?_
  have hv := step_xor a b v v
  rw [Nat.xor_self v] at hv
  exact hv.trans h

theorem foldl_step_injOn {vs : List Nat} (hv : ∀ v ∈ vs, v < 32) {a b : Nat} (ha : a < 2 ^ 40)
    (hb : b < 2 ^ 40) (h : vs.foldl step a = vs.foldl step b) : a = b := by
  induction vs generalizing a b with
  | nil => exact h
  | cons v vs ih =>
    have hv32 := hv v List.mem_cons_self
    exact step_injOn ha hb (ih (fun w hw => hv w (List.mem_cons_of_mem _ hw)) (step_lt a hv32)
      (step_lt b hv32) h)

/-- Eight symbols fill the state: two runs of as many, from states that differ in the room that is
left for them at most, end in one state only if nothing differs. -/
theorem eq_of_foldl_step_eq {vs ws : List Nat} (hl : vs.length = ws.length)
    (hv : ∀ v ∈ vs, v < 32) (hw : ∀ w ∈ ws, w < 32) (h8 : vs.length ≤ 8) {a b : Nat}
    (hab : a ^^^ b < 2 ^ (5 * (8 - vs.length))) (h : vs.foldl step a = ws.foldl step b) :
    a = b ∧ vs = ws := by
  induction vs generalizing ws a b with
  | nil =>
    obtain rfl := List.eq_nil_of_length_eq_zero hl.symm
    exact ⟨h, rfl⟩
  | cons v vs ih =>
    obtain ⟨w, ws, rfl⟩ := List.exists_cons_of_length_eq_add_one hl.symm
    rw [List.length_cons] at h8 hab
    have hvw : v ^^^ w < 32 :=
      Nat.xor_lt_two_pow (n := 5) (hv v List.mem_cons_self) (hw w List.mem_cons_self)
    have hroom : 5 * (8 - vs.length) = 5 * (8 - (vs.length + 1)) + 5 := by omega
    -- the difference moves up by one digit and takes in that of the two symbols
    have hdiff : step a v ^^^ step b w = ((a ^^^ b) <<< 5) ^^^ (v ^^^ w) := by
      rw [← step_xor, step_of_lt]
      exact hab.trans_le (Nat.pow_le_pow_right (by decide) (by omega))
    have hlt : step a v ^^^ step b w < 2 ^ (5 * (8 - vs.length)) := by
      rw [hdiff, hroom]
      refine Nat.xor_lt_two_pow ?_ ?_
      · rw [Nat.shiftLeft_eq, Nat.pow_add]
        exact Nat.mul_lt_mul_of_pos_right hab (by decide)
      · exact hvw.trans_le (Nat.pow_le_pow_right (n := 2) (i := 5) (by decide) (by omega))
    obtain ⟨hstep, rfl⟩ := ih (Nat.succ.inj hl) (fun x hx => hv x (List.mem_cons_of_mem _ hx))
      (fun x hx => hw x (List.mem_cons_of_mem _ hx)) (by omega) hlt h
    rw [← Nat.xor_eq_zero_iff, hdiff, Nat.xor_eq_zero_iff, Nat.shiftLeft_eq] at hstep
    refine ⟨Nat.xor_eq_zero_iff.mp (by omega), ?_⟩
    rw [Nat.xor_eq_zero_iff.mp (show v ^^^ w = 0 by omega)]

/-! ### Groups of three -/

theorem and_31 (p : Nat) : p &&& 31 = p % 32 := Nat.and_two_pow_sub_one_eq_mod p 5

theorem groupSymbol_three (a b c : Nat) : groupSymbol [a >>> 5, b >>> 5, c >>> 5] =
    9 * (a / 32) + 3 * (b / 32) + c / 32 := by
  simp only [groupSymbol, List.foldl_cons, List.foldl_nil, Nat.shiftRight_eq_div_pow]
  omega

theorem symbols_one (a : Nat) : symbols [] [a] = [a % 32, a / 32] := by
  simp [symbols, groupSymbol, and_31, Nat.shiftRight_eq_div_pow]

theorem symbols_two (a b : Nat) : symbols [] [a, b] = [a % 32, b % 32, 3 * (a / 32) + b / 32] := by
  simp [symbols, groupSymbol, and_31, Nat.shiftRight_eq_div_pow]

theorem symbols_three (a b c : Nat) (ps : List Nat) : symbols [] (a :: b :: c :: ps) =
    a % 32 :: b % 32 :: c % 32 :: (9 * (a / 32) + 3 * (b / 32) + c / 32) :: symbols [] ps := by
  rw [← groupSymbol_three, ← and_31, ← and_31, ← and_31]
  rfl

/-- Induction by the groups that share a symbol; the last one may be shorter. -/
theorem groups_induction {motive : List Nat → Prop} (nil : motive []) (one : ∀ a, motive [a])
    (two : ∀ a b, motive [a, b])
    (three : ∀ a b c ps, motive ps → motive (a :: b :: c :: ps)) : ∀ ps, motive ps
  | [] => nil
  | [a] => one a
  | [a, b] => two a b
  | a :: b :: c :: ps => three a b c ps (groups_induction nil one two three ps)

theorem symbols_append {ps : List Nat} (h : 3 ∣ ps.length) (qs : List Nat) :
    symbols [] (ps ++ qs) = symbols [] ps ++ symbols [] qs := by
  induction ps using groups_induction with
  | nil => rfl
  | one a => simp at h
  | two a b => simp at h
  | three a b c ps ih =>
    have hps : 3 ∣ ps.length := by simpa using h
    simp only [List.cons_append, symbols_three, ih hps]

theorem length_symbols (ps : List Nat) :
    (symbols [] ps).length = ps.length + (ps.length + 2) / 3 := by
  induction ps using groups_induction with
  | nil => rfl
  | one a => simp [symbols_one]
  | two a b => simp [symbols_two]
  | three a b c ps ih =>
    rw [symbols_three]
    simp only [List.length_cons, ih]
    omega

theorem symbols_lt {ps : List Nat} (h : ∀ p ∈ ps, p < 96) : ∀ v ∈ symbols [] ps, v < 32 := by
  induction ps using groups_induction with
  | nil => simp [symbols]
  | one a =>
    simp only [List.mem_cons, List.not_mem_nil, or_false, forall_eq] at h
    simp only [symbols_one, List.mem_cons, List.not_mem_nil, or_false, forall_eq_or_imp, forall_eq]
    omega
  | two a b =>
    simp only [List.mem_cons, List.not_mem_nil, or_false, forall_eq_or_imp, forall_eq] at h
    simp only [symbols_two, List.mem_cons, List.not_mem_nil, or_false, forall_eq_or_imp, forall_eq]
    omega
  | three a b c ps ih =>
    simp only [List.mem_cons, forall_eq_or_imp] at h
    simp only [symbols_three, List.mem_cons, forall_eq_or_imp]
    refine ⟨by omega, by omega, by omega, by omega, ih h.2.2.2⟩

theorem symbols_injOn {ps qs : List Nat} (hl : ps.length = qs.length) (hp : ∀ p ∈ ps, p < 96)
    (hq : ∀ q ∈ qs, q < 96) (h : symbols [] ps = symbols [] qs) : ps = qs := by
  induction ps using groups_induction generalizing qs with
  | nil => exact (List.eq_nil_of_length_eq_zero hl.symm).symm
  | one a =>
    obtain ⟨a', rfl⟩ := List.length_eq_one_iff.mp hl.symm
    simp [symbols_one] at h hp hq ⊢
    omega
  | two a b =>
    obtain ⟨a', b', rfl⟩ := List.length_eq_two.mp hl.symm
    simp [symbols_two] at h hp hq ⊢
    omega
  | three a b c ps ih =>
    obtain _ | ⟨a', _ | ⟨b', _ | ⟨c', qs⟩⟩⟩ := qs
    · simp at hl
    · simp at hl
    · simp at hl
    · simp only [List.length_cons, Nat.add_right_cancel_iff] at hl
      simp only [symbols_three, List.cons.injEq] at h
      simp only [List.mem_cons, forall_eq_or_imp] at hp hq
      obtain rfl := ih hl hp.2.2.2 hq.2.2.2 h.2.2.2.2
      simp only [List.cons.injEq, and_true]
      omega

/-! ### The text of the checksum -/

/-- The state behind the last symbol. -/
def finalState (ps : List Nat) : Nat := (symbols [] ps ++ List.replicate 8 0).foldl step 1

theorem padded_symbols_lt {ps : List Nat} (h : ∀ p ∈ ps, p < 96) :
    ∀ v ∈ symbols [] ps ++ List.replicate 8 0, v < 32 := by
  intro v hv
  obtain hv | hv := List.mem_append.mp hv
  · exact symbols_lt h v hv
  · rw [List.eq_of_mem_replicate hv]
    decide

theorem finalState_lt {ps : List Nat} (h : ∀ p ∈ ps, p < 96) : finalState ps < 2 ^ 40 :=
  foldl_step_lt (padded_symbols_lt h) (by decide)

theorem fiveBitAlphabet_nodup : fiveBitAlphabet.Nodup ∧ fiveBitAlphabet.length = 32 := by
  -- the characters are taken from the literal, which is slow to decode
  have hchars : fiveBitAlphabet = _ := String.toList_ofList
  rw [hchars]
  decide

theorem fiveBitChar_injOn {v w : Nat} (hv : v < 32) (hw : w < 32)
    (h : fiveBitChar v = fiveBitChar w) : v = w := by
  obtain ⟨hn, hl⟩ := fiveBitAlphabet_nodup
  rw [fiveBitChar, fiveBitChar, List.getD_eq_getElem _ _ (hl.symm ▸ hv),
    List.getD_eq_getElem _ _ (hl.symm ▸ hw)] at h
  exact (hn.getElem_inj_iff).mp h

/-- A number of 40 bits is told by its eight digits. -/
theorem eq_of_digits {c d : Nat} (hc : c < 2 ^ 40) (hd : d < 2 ^ 40)
    (h : ∀ j < 8, (c >>> (5 * (7 - j))) &&& 31 = (d >>> (5 * (7 - j))) &&& 31) : c = d := by
  apply Nat.eq_of_testBit_eq
  intro i
  obtain hi | hi := Nat.lt_or_ge i 40
  · have hj := congrArg (·.testBit (i % 5)) (h (7 - i / 5) (by omega))
    have hdigit : 5 * (7 - (7 - i / 5)) + i % 5 = i := by omega
    have hbit : (31).testBit (i % 5) = true := by
      rw [show 31 = 2 ^ 5 - 1 from rfl, Nat.testBit_two_pow_sub_one, decide_eq_true_eq]
      exact Nat.mod_lt i (by decide)
    simpa [Nat.testBit_and, Nat.testBit_shiftRight, hdigit, hbit] using hj
  · have hpow : 2 ^ 40 ≤ 2 ^ i := Nat.pow_le_pow_right (by decide) hi
    rw [Nat.testBit_lt_two_pow (hc.trans_le hpow), Nat.testBit_lt_two_pow (hd.trans_le hpow)]

theorem ofPlaces_eq (ps : List Nat) : ofPlaces ps = (List.range 8).map fun j =>
    fiveBitChar (((finalState ps ^^^ 1) >>> (5 * (7 - j))) &&& 31) :=
  rfl

theorem ofPlaces_injOn {ps qs : List Nat} (hp : ∀ p ∈ ps, p < 96) (hq : ∀ q ∈ qs, q < 96)
    (h : ofPlaces ps = ofPlaces qs) : finalState ps = finalState qs := by
  rw [ofPlaces_eq, ofPlaces_eq] at h
  have hchars := List.map_inj_left.mp h
  have hone : finalState ps ^^^ 1 = finalState qs ^^^ 1 := by
    refine eq_of_digits (Nat.xor_lt_two_pow (finalState_lt hp) (by decide))
      (Nat.xor_lt_two_pow (finalState_lt hq) (by decide)) ?_
    intro j hj
    exact fiveBitChar_injOn (Nat.and_lt_two_pow (n := 5) _ (by decide))
      (Nat.and_lt_two_pow (n := 5) _ (by decide)) (hchars j (List.mem_range.mpr hj))
  exact Nat.xor_left_injective hone

/-! ### Windows -/

theorem symbols_split (ps : List Nat) {k : Nat} (h : 3 ∣ k) :
    symbols [] ps = symbols [] (ps.take k) ++ symbols [] (ps.drop k) := by
  obtain hk | hk := Nat.lt_or_ge ps.length k
  · rw [List.take_of_length_le hk.le, List.drop_of_length_le hk.le]
    exact (List.append_nil _).symm
  · conv_lhs => rw [← List.take_append_drop k ps]
    refine symbols_append ?_ (ps.drop k)
    rw [List.length_take, Nat.min_eq_left hk]
    exact h

theorem finalState_split (ps : List Nat) {k : Nat} (h : 3 ∣ k) : finalState ps =
    (symbols [] ((ps.drop k).drop 6) ++ List.replicate 8 0).foldl step
      ((symbols [] ((ps.drop k).take 6)).foldl step ((symbols [] (ps.take k)).foldl step 1)) := by
  rw [finalState, symbols_split ps h, symbols_split (ps.drop k) (by decide : 3 ∣ 6),
    List.append_assoc, List.append_assoc, List.foldl_append, List.foldl_append]

/-- Places that agree but for six from the start of a group on end in different states. -/
theorem finalState_injOn {ps qs : List Nat} (hl : ps.length = qs.length) (hp : ∀ p ∈ ps, p < 96)
    (hq : ∀ q ∈ qs, q < 96) {k : Nat} (hk : 3 ∣ k) (hpre : ps.take k = qs.take k)
    (hpost : (ps.drop k).drop 6 = (qs.drop k).drop 6) (h : finalState ps = finalState qs) :
    ps = qs := by
  have hp' : ∀ p ∈ (ps.drop k).take 6, p < 96 :=
    fun p hm => hp p (List.mem_of_mem_drop (List.mem_of_mem_take hm))
  have hq' : ∀ q ∈ (qs.drop k).take 6, q < 96 :=
    fun q hm => hq q (List.mem_of_mem_drop (List.mem_of_mem_take hm))
  have hrest : ∀ v ∈ symbols [] ((qs.drop k).drop 6) ++ List.replicate 8 0, v < 32 :=
    padded_symbols_lt fun q hm => hq q (List.mem_of_mem_drop (List.mem_of_mem_drop hm))
  have hstart : (symbols [] (qs.take k)).foldl step 1 < 2 ^ 40 :=
    foldl_step_lt (symbols_lt fun q hm => hq q (List.mem_of_mem_take hm)) (by decide)
  rw [finalState_split ps hk, finalState_split qs hk, hpre, hpost] at h
  have hmid := foldl_step_injOn hrest (foldl_step_lt (symbols_lt hp') hstart)
    (foldl_step_lt (symbols_lt hq') hstart) h
  have hlen : ((ps.drop k).take 6).length = ((qs.drop k).take 6).length := by
    rw [List.length_take, List.length_take, List.length_drop, List.length_drop, hl]
  have h6 : ((ps.drop k).take 6).length ≤ 6 := List.length_take_le 6 _
  obtain ⟨-, hsymbols⟩ := eq_of_foldl_step_eq (by rw [length_symbols, length_symbols, hlen])
    (symbols_lt hp') (symbols_lt hq') (by rw [length_symbols]; omega)
    (by rw [Nat.xor_self]; exact Nat.two_pow_pos _) hmid
  rw [← List.take_append_drop k ps, ← List.take_append_drop 6 (ps.drop k), hpre, hpost,
    symbols_injOn hlen hp' hq' hsymbols, List.take_append_drop, List.take_append_drop]

/-- The texts agree but for a window of `n` positions from `i` on. -/
def AgreeOutside (i n : Nat) (s t : List Char) : Prop := ∀ j, j < i ∨ i + n ≤ j → s[j]? = t[j]?

/-- Both texts have a checksum, and not the same one. -/
def Detects (s t : List Char) : Prop := ∃ x y, compute s = .ok x ∧ compute t = .ok y ∧ x ≠ y

theorem AgreeOutside.refl (i n : Nat) (s : List Char) : AgreeOutside i n s s := fun _ _ => rfl

theorem AgreeOutside.set {i n k : Nat} {s t : List Char} (h : AgreeOutside i n s t) (hi : i ≤ k)
    (hk : k < i + n) (c : Char) : AgreeOutside i n s (t.set k c) := by
  intro j hj
  rw [List.getElem?_set_ne (by omega), h j hj]

theorem AgreeOutside.take_eq {i n k : Nat} {s t : List Char} (h : AgreeOutside i n s t)
    (hk : k ≤ i) : s.take k = t.take k := by
  apply List.ext_getElem?
  intro j
  rw [List.getElem?_take, List.getElem?_take]
  split
  · exact h j (.inl (by omega))
  · rfl

theorem AgreeOutside.drop_eq {i n k : Nat} {s t : List Char} (h : AgreeOutside i n s t)
    (hk : i + n ≤ k) : s.drop k = t.drop k := by
  apply List.ext_getElem?
  intro j
  rw [List.getElem?_drop, List.getElem?_drop]
  exact h (k + j) (.inr (by omega))

theorem idxOf_lt {s : List Char} (hs : ∀ c ∈ s, c ∈ alphabet) :
    ∀ p ∈ s.map (alphabet.idxOf ·), p < 96 := by
  intro p hp
  obtain ⟨c, hc, rfl⟩ := List.mem_map.mp hp
  have hl : alphabet.length ≤ 96 := by
    have hchars : alphabet = _ := String.toList_ofList
    rw [hchars]
    decide
  exact (List.idxOf_lt_length_iff.mpr (hs c hc)).trans_le hl

theorem mem_alphabet_of_mem_set {s : List Char} (hs : ∀ c ∈ s, c ∈ alphabet) {d : Char}
    (hd : d ∈ alphabet) (i : Nat) : ∀ c ∈ s.set i d, c ∈ alphabet := by
  intro c hc
  obtain hc | rfl := List.mem_or_eq_of_mem_set hc
  · exact hs c hc
  · exact hd

theorem map_idxOf_injOn {s t : List Char} (hs : ∀ c ∈ s, c ∈ alphabet)
    (h : s.map (alphabet.idxOf ·) = t.map (alphabet.idxOf ·)) : s = t := by
  induction s generalizing t with
  | nil => exact (List.map_eq_nil_iff.mp h.symm).symm
  | cons c s ih =>
    obtain ⟨d, t, rfl, hd, ht⟩ := List.map_eq_cons_iff.mp h.symm
    rw [(List.idxOf_inj (hs c List.mem_cons_self)).mp hd.symm,
      ih (fun c hc => hs c (List.mem_cons_of_mem _ hc)) ht.symm]

theorem detects_of_agreeOutside {s t : List Char} (hs : ∀ c ∈ s, c ∈ alphabet)
    (ht : ∀ c ∈ t, c ∈ alphabet) (hl : s.length = t.length) {i : Nat}
    (hi : AgreeOutside i 4 s t) (hne : s ≠ t) : Detects s t := by
  refine ⟨_, _, Descriptor.compute_eq hs, Descriptor.compute_eq ht, fun h => hne ?_⟩
  refine map_idxOf_injOn hs ?_
  have hpre : s.take (3 * (i / 3)) = t.take (3 * (i / 3)) := hi.take_eq (by omega)
  -- the window ends in the group behind the one that it starts in
  have hpost : s.drop (3 * (i / 3) + 6) = t.drop (3 * (i / 3) + 6) := hi.drop_eq (by omega)
  refine finalState_injOn (by simpa using hl) (idxOf_lt hs) (idxOf_lt ht)
    (Nat.dvd_mul_right 3 (i / 3)) ?_ ?_ (ofPlaces_injOn (idxOf_lt hs) (idxOf_lt ht) h)
  · rw [← List.map_take, ← List.map_take, hpre]
  · rw [List.drop_drop, List.drop_drop, ← List.map_drop, ← List.map_drop, hpost]

/-- The reader refuses a text that is not the one its checksum was made for. -/
theorem Detects.read_eq_error {s t : List Char} (h : Detects s t)
    (ht : ∀ c ∈ t.head?, Text.isBlank c = false) (store : Store) :
    ∃ sum expected, compute s = .ok sum ∧
      Descriptor.read store (String.ofList (t ++ '#' :: sum)) =
        .error (.syntaxAt (.checksum expected) ⟨sum, t.length + 1⟩) := by
  obtain ⟨sum, expected, hsum, hexpected, hne⟩ := h
  refine ⟨sum, expected, hsum, ?_⟩
  have hname : ∀ c ∈ sum, Descriptor.IsPlain c := by
    intro c hc
    obtain ⟨ps, -, rfl⟩ := map_eq_ok.mp hsum
    exact Descriptor.isPlain_of_isNameChar (Descriptor.isNameChar_of_mem_ofPlaces hc)
  have htrim : Text.trim Text.isBlank (t ++ '#' :: sum) = t ++ '#' :: sum := by
    refine Descriptor.trim_eq_self_of_ends ?_ ?_
    · intro c hc
      cases t with
      | nil =>
        obtain rfl := Option.some.inj hc
        decide
      | cons d t => exact ht c hc
    · intro c hc
      rw [List.getLast?_append_of_ne_nil _ (List.cons_ne_nil _ _)] at hc
      obtain rfl | hc := List.mem_cons.mp (List.mem_of_getLast? hc)
      · decide
      · exact (hname c hc).notBlank
  have hsplit := @Descriptor.splitChecksum?_append t sum fun hm => (hname _ hm).notHash rfl
  rw [Descriptor.read, String.toList_ofList, htrim, hsplit]
  simp only [descriptorChecksum, hexpected]
  rw [Descriptor.trim_eq_self fun c hc => (hname c hc).notBlank]
  simp [bind, Except.bind, hne, throw, throwThe, MonadExceptOf.throw]

/-- No change within four positions in a row leaves the checksum of a text as it is, so neither does
a wrong character nor a swap of two neighbours. -/
theorem detects_bursts {s : List Char} (hs : ∀ c ∈ s, c ∈ alphabet) :
    (∀ t i, (∀ c ∈ t, c ∈ alphabet) → s.length = t.length → AgreeOutside i 4 s t → s ≠ t →
      Detects s t) ∧
    (∀ i c, c ∈ alphabet → i < s.length → s[i]? ≠ some c → Detects s (s.set i c)) ∧
    ∀ i a b, s[i]? = some a → s[i + 1]? = some b → a ≠ b →
      Detects s ((s.set i b).set (i + 1) a) := by
  refine ⟨fun t i ht hl hi hne => detects_of_agreeOutside hs ht hl hi hne, ?_, ?_⟩
  · intro i c hc hi hne
    have hwindow := (AgreeOutside.refl i 4 s).set le_rfl (by omega) c
    refine detects_of_agreeOutside hs (mem_alphabet_of_mem_set hs hc i) List.length_set.symm
      hwindow fun h => hne ?_
    rw [h, List.getElem?_set_self hi]
  · intro i a b ha hb hne
    have hwindow := ((AgreeOutside.refl i 4 s).set le_rfl (by omega) b).set (k := i + 1)
      (by omega) (by omega) a
    have hmem := mem_alphabet_of_mem_set
      (mem_alphabet_of_mem_set hs (hs b (List.mem_of_getElem? hb)) i)
      (hs a (List.mem_of_getElem? ha)) (i + 1)
    refine detects_of_agreeOutside hs hmem (by simp) hwindow fun h => hne ?_
    obtain ⟨hlt, -⟩ := List.getElem?_eq_some_iff.mp hb
    rw [h, List.getElem?_set_self (by rwa [List.length_set])] at hb
    exact Option.some.inj hb

namespace ShortLastGroup

/-- Fourteen characters: the last group holds two, and a window of four reaches into it. -/
def text : List Char := "tr(50929b74c1)".toList

/-- Three of the four characters from the tenth on are others. -/
def garbled : List Char := ((text.set 9 'a').set 10 'X').set 12 '7'

theorem covered : ('a' :: 'X' :: '7' :: 'I' :: text).all (alphabet.contains ·) = true := by
  have hchars : alphabet = _ := String.toList_ofList
  rw [hchars]
  decide

theorem mem_alphabet {c : Char} (h : c ∈ 'a' :: 'X' :: '7' :: 'I' :: text) : c ∈ alphabet :=
  List.contains_iff_mem.mp (List.all_eq_true.mp covered c h)

theorem detected : (∀ c ∈ text, c ∈ alphabet) ∧ Detects text garbled ∧
    Detects text (text.set 13 'I') ∧ Detects text ((text.set 11 '1').set 12 'c') := by
  have hs : ∀ c ∈ text, c ∈ alphabet := fun c hc => mem_alphabet (by simp [hc])
  have hmem : ∀ c ∈ garbled, c ∈ alphabet :=
    mem_alphabet_of_mem_set (mem_alphabet_of_mem_set (mem_alphabet_of_mem_set hs
      (mem_alphabet (by simp)) 9) (mem_alphabet (by simp)) 10) (mem_alphabet (by simp)) 12
  have hgarbled : AgreeOutside 9 4 text garbled :=
    (((AgreeOutside.refl 9 4 text).set (by decide) (by decide) 'a').set (by decide) (by decide)
      'X').set (by decide) (by decide) '7'
  obtain ⟨hwindow, hchar, hswap⟩ := detects_bursts hs
  refine ⟨hs, hwindow garbled 9 hmem rfl hgarbled (by decide), ?_, ?_⟩
  · exact hchar 13 'I' (mem_alphabet (by simp)) (by decide) (by decide)
  · exact hswap 11 'c' '1' (by decide) (by decide) (by decide)

end ShortLastGroup

end Taproot.Checksum
