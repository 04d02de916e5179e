import Taproot.Proofs.Miniscript.Policy

/-! # Thresholds in one pass

The search through the choices of a threshold asks the branches in their order, each of them once, and
stops where a single pass stops: with enough branches satisfied, or with too few left. A choice that
fails early keeps failing, so that nothing is asked between two branches of the pass.
-/
namespace Taproot.Miniscript
namespace Threshold

/-- All branches left out; the witness of the first comes on top. -/
def leaveOut : List Branch → Option Witness
  | [] => some []
  | b :: bs => under (leaveOut bs) b.dissatisfied

/-- One pass from left to right. It ends when no branch is missing any more, with the others left out,
or when a branch cannot be satisfied that could not be spared. -/
def scan : (missing spare : Nat) → List Branch → Outcome
  | 0, _, bs => ⟨leaveOut bs, []⟩
  | _ + 1, _, [] => .nothing
  | missing + 1, spare, b :: bs =>
    if b.satisfied.witness.isSome then b.satisfied.both (scan missing spare bs)
    else
      match spare with
      | 0 => b.satisfied
      | spare + 1 =>
        Outcome.both ⟨b.dissatisfied, b.satisfied.requests⟩ (scan (missing + 1) spare bs)

section Scan

variable {b : Branch} {bs : List Branch} {missing spare : Nat}

theorem scan_zero : scan 0 spare bs = ⟨leaveOut bs, []⟩ := by
  cases bs <;> rfl

theorem scan_satisfied {w : Witness} (hb : b.satisfied.witness = some w) :
    scan (missing + 1) spare (b :: bs) = b.satisfied.both (scan missing spare bs) := by
  simp [scan, hb]

theorem scan_stopped (hb : b.satisfied.witness = none) :
    scan (missing + 1) 0 (b :: bs) = b.satisfied := by
  simp [scan, hb]

theorem scan_spared (hb : b.satisfied.witness = none) :
    scan (missing + 1) (spare + 1) (b :: bs) =
      Outcome.both ⟨b.dissatisfied, b.satisfied.requests⟩ (scan (missing + 1) spare bs) := by
  simp [scan, hb]

theorem isSome_leaveOut (hd : ∀ b ∈ bs, b.dissatisfied.isSome = true) :
    (leaveOut bs).isSome = true := by
  induction bs with
  | nil => rfl
  | cons b bs ih =>
    rw [leaveOut, isSome_under, ih fun c hc => hd c (List.mem_cons_of_mem b hc),
      hd b List.mem_cons_self]
    rfl

/-- The pass asks the branches from the left on. -/
theorem requests_scan (missing spare : Nat) (bs : List Branch) :
    (scan missing spare bs).requests <+: bs.flatMap fun b => b.satisfied.requests := by
  induction bs generalizing missing spare with
  | nil => cases missing <;> exact List.nil_prefix
  | cons b bs ih =>
    rw [List.flatMap_cons]
    cases missing with
    | zero => exact List.nil_prefix
    | succ missing =>
      cases hb : b.satisfied.witness with
      | some w =>
        rw [scan_satisfied hb]
        exact List.prefix_append_right_inj _ |>.mpr (ih missing spare)
      | none =>
        cases spare with
        | zero =>
          rw [scan_stopped hb]
          exact List.prefix_append _ _
        | succ spare =>
          rw [scan_spared hb]
          exact List.prefix_append_right_inj _ |>.mpr (ih (missing + 1) spare)

end Scan

/-! ## Choices in two parts -/

variable {pre rest : List Branch} {cs ds as es chosen : List Bool} {k : Nat} {q : List Request}

theorem restDissatisfied_of_forall (hd : ∀ b ∈ pre, b.dissatisfied.isSome = true) :
    restDissatisfied pre cs = true := by
  induction pre generalizing cs with
  | nil => rfl
  | cons b pre ih =>
    cases cs with
    | nil => rfl
    | cons c cs =>
      rw [restDissatisfied, hd b List.mem_cons_self,
        ih fun b' hb' => hd b' (List.mem_cons_of_mem b hb'), Bool.or_true, Bool.and_true]

theorem under_assoc (x y z : Option Witness) : under (under x y) z = under x (under y z) := by
  cases x <;> cases y <;> cases z <;> simp [under]

theorem eq_none_of_under {x : Option Witness} {w : Witness} (h : under x (some w) = none) :
    x = none := by
  cases x
  · rfl
  · cases h

theorem under_nil_right (x : Option Witness) : under x (some []) = x := by
  cases x <;> simp [under]

theorem assemble_append (hl : cs.length = pre.length) :
    assemble (pre ++ rest) (cs ++ ds) = under (assemble rest ds) (assemble pre cs) := by
  induction pre generalizing cs with
  | nil =>
    obtain rfl := List.length_eq_zero_iff.mp hl
    exact (under_nil_right _).symm
  | cons b pre ih =>
    cases cs with
    | nil => simp at hl
    | cons c cs =>
      rw [List.cons_append, List.cons_append, assemble, assemble, ih (by simpa using hl), under_assoc]

theorem assemble_replicate_false (bs : List Branch) :
    assemble bs (List.replicate bs.length false) = leaveOut bs := by
  induction bs with
  | nil => rfl
  | cons b bs ih =>
    rw [List.length_cons, List.replicate_succ, assemble, ih]
    rfl

/-- Where the first part is found, the second is asked next. -/
theorem askChosen_append {as' : List Bool} {rs : List Request} (hc : cs.length = pre.length)
    (ha : as.length = pre.length) (h : askChosen pre cs as = (true, as', rs)) :
    askChosen (pre ++ rest) (cs ++ ds) (as ++ es) =
      ((askChosen rest ds es).1, as' ++ (askChosen rest ds es).2.1,
        rs ++ (askChosen rest ds es).2.2) := by
  induction pre generalizing cs as as' rs with
  | nil =>
    obtain rfl := List.length_eq_zero_iff.mp hc
    obtain rfl := List.length_eq_zero_iff.mp ha
    cases h
    rfl
  | cons b pre ih =>
    cases cs with
    | nil => simp at hc
    | cons c cs =>
      cases as with
      | nil => simp at ha
      | cons a as =>
        have ih {as' rs} := @ih cs as as' rs (by simpa using hc) (by simpa using ha)
        rcases hr : askChosen pre cs as with ⟨found, asked, requests⟩
        cases c with
        | false =>
          simp only [askChosen, hr] at h
          cases h
          simp only [List.cons_append, askChosen, ih hr]
        | true =>
          cases hb : b.satisfied.witness with
          | none => simp [askChosen, hb] at h
          | some w =>
            simp only [askChosen, hr, hb, Option.isSome_some, ↓reduceIte] at h
            cases h
            simp only [List.cons_append, askChosen, ih hr, hb, Option.isSome_some, ↓reduceIte,
              List.append_assoc]

theorem askChosen_replicate_false (hl : as.length = rest.length) :
    askChosen rest (List.replicate rest.length false) as = (true, as, []) := by
  induction rest generalizing as with
  | nil => rfl
  | cons b rest ih =>
    cases as with
    | nil => simp at hl
    | cons a as =>
      rw [List.length_cons, List.replicate_succ, askChosen, ih (by simpa using hl)]

/-- Branches that were all asked are not asked again. -/
theorem askChosen_again (hc : cs.length = pre.length) (ha : as.length = pre.length)
    (h : (askChosen pre cs as).1 = true) :
    askChosen pre cs (pre.map fun _ => true) = (true, pre.map fun _ => true, []) := by
  induction pre generalizing cs as with
  | nil =>
    obtain rfl := List.length_eq_zero_iff.mp hc
    rfl
  | cons b pre ih =>
    cases cs with
    | nil => simp at hc
    | cons c cs =>
      cases as with
      | nil => simp at ha
      | cons a as =>
        have ih := @ih cs as (by simpa using hc) (by simpa using ha)
        cases c with
        | false =>
          rw [askChosen] at h
          rw [List.map_cons, askChosen, ih h]
        | true =>
          cases hb : b.satisfied.witness with
          | none => simp [askChosen, hb] at h
          | some w =>
            simp only [askChosen, hb, Option.isSome_some, ↓reduceIte] at h
            simp only [List.map_cons, askChosen, hb, ih h, Option.isSome_some, ↓reduceIte,
              List.append_nil]

/-! ## Choices that fail -/

theorem search_zero (bs : List Branch) (n : Nat) (chosen : List Bool) (s : Search) :
    search bs n 0 chosen s = tryChoice bs (chosen.reverse ++ List.replicate n false) s := by
  induction n generalizing chosen with
  | zero => rw [search, List.replicate_zero, List.append_nil]
  | succ n ih =>
    rw [search, ih, List.replicate_succ, List.reverse_cons, List.append_assoc]
    rfl

/-- A search whose choices all fail without asking anything. -/
theorem search_of_stuck {bs : List Branch} {n : Nat} {s : Search}
    (h : ∀ cs : List Bool, cs.length = n → cs.count true = k →
      tryChoice bs (chosen.reverse ++ cs) s = (none, s)) :
    search bs n k chosen s = (none, s) := by
  induction n generalizing k chosen with
  | zero =>
    cases k with
    | zero =>
      rw [search, ← List.append_nil chosen.reverse]
      exact h [] rfl rfl
    | succ k => rw [search]
  | succ n ih =>
    have hc (c : Bool) {j : Nat} (hj : ∀ cs : List Bool, cs.count true = j →
        (c :: cs).count true = k) : search bs n j (c :: chosen) s = (none, s) := by
      refine ih fun cs hl hcs => ?_
      rw [List.reverse_cons, List.append_assoc]
      exact h (c :: cs) (by simp [hl]) (hj cs hcs)
    cases k with
    | zero =>
      rw [search]
      exact hc false fun cs hcs => by simpa using hcs
    | succ k =>
      rw [search]
      split
      · rfl
      · rw [hc true (j := k) fun cs hcs => by simpa using hcs]
        exact hc false fun cs hcs => by simpa using hcs

/-- A search whose choices all fail, and of which only the first asks anything. -/
theorem search_of_refused {bs : List Branch} {n : Nat} {s s' : Search} (hk : k ≤ n)
    (h : ∀ cs : List Bool, cs.length = n → tryChoice bs (chosen.reverse ++ cs) s = (none, s'))
    (h' : ∀ cs : List Bool, cs.length = n → tryChoice bs (chosen.reverse ++ cs) s' = (none, s')) :
    search bs n k chosen s = (none, s') := by
  induction n generalizing k chosen with
  | zero =>
    obtain rfl := Nat.le_zero.mp hk
    rw [search, ← List.append_nil chosen.reverse]
    exact h [] rfl
  | succ n ih =>
    have hc (c : Bool) {s₀ : Search} (h : ∀ cs : List Bool, cs.length = n + 1 →
        tryChoice bs (chosen.reverse ++ cs) s₀ = (none, s')) (cs : List Bool) (hl : cs.length = n) :
        tryChoice bs ((c :: chosen).reverse ++ cs) s₀ = (none, s') := by
      rw [List.reverse_cons, List.append_assoc]
      exact h (c :: cs) (by simp [hl])
    cases k with
    | zero =>
      rw [search]
      exact ih (Nat.zero_le n) (hc false h) (hc false h')
    | succ k =>
      rw [search, if_neg (by omega), ih (by omega) (hc true h) (hc true h')]
      exact search_of_stuck fun cs hl _ => hc false h' cs hl

/-! ## The pass -/

/-- The choice so far finds all that it wants, and once `pending` is requested, all branches so far
have been asked. -/
structure Ready (pre : List Branch) (chosen as : List Bool) (pending : List Request) (v : Witness) :
    Prop where
  chosen_length : chosen.length = pre.length
  asked_length : as.length = pre.length
  asks : askChosen pre chosen.reverse as = (true, pre.map fun _ => true, pending)
  assembles : assemble pre chosen.reverse = some v

namespace Ready

variable {b : Branch} {pending : List Request} {v w : Witness}

theorem nil : Ready [] [] [] [] [] := ⟨rfl, rfl, rfl, rfl⟩

theorem again (h : Ready pre chosen as pending v) :
    Ready pre chosen (pre.map fun _ => true) [] v where
  chosen_length := h.chosen_length
  asked_length := List.length_map _
  asks := askChosen_again (by simp [h.chosen_length]) h.asked_length (by rw [h.asks])
  assembles := h.assembles

theorem take (h : Ready pre chosen as pending v) (hb : b.satisfied.witness = some w) :
    Ready (pre ++ [b]) (true :: chosen) (as ++ [false]) (pending ++ b.satisfied.requests)
      (w ++ v) where
  chosen_length := by simp [h.chosen_length]
  asked_length := by simp [h.asked_length]
  asks := by
    rw [List.reverse_cons, askChosen_append (by simp [h.chosen_length]) h.asked_length h.asks]
    simp [askChosen, hb]
  assembles := by
    rw [List.reverse_cons, assemble_append (by simp [h.chosen_length]), h.assembles]
    simp [assemble, hb, under]

theorem leave (h : Ready pre chosen as pending v) (hb : b.dissatisfied = some w) :
    Ready (pre ++ [b]) (false :: chosen) ((pre ++ [b]).map fun _ => true) [] (w ++ v) where
  chosen_length := by simp [h.chosen_length]
  asked_length := List.length_map _
  asks := by
    rw [List.reverse_cons, List.map_append,
      askChosen_append (by simp [h.chosen_length]) (List.length_map _) h.again.asks]
    simp [askChosen]
  assembles := by
    rw [List.reverse_cons, assemble_append (by simp [h.chosen_length]), h.assembles]
    simp [assemble, hb, under]

/-- What comes of a choice is decided behind the branches so far. -/
theorem tryChoice_eq (h : Ready pre chosen as pending v)
    (hd : ∀ b ∈ pre ++ rest, b.dissatisfied.isSome = true) :
    tryChoice (pre ++ rest) (chosen.reverse ++ ds) ⟨as ++ es, q⟩ =
      (if (askChosen rest ds es).1 then (assemble rest ds).map (· ++ v) else none,
        ⟨(pre.map fun _ => true) ++ (askChosen rest ds es).2.1,
          q ++ pending ++ (askChosen rest ds es).2.2⟩) := by
  have hl : chosen.reverse.length = pre.length := by simp [h.chosen_length]
  rw [tryChoice, if_pos (restDissatisfied_of_forall hd), assemble_append hl, h.assembles]
  simp only [askChosen_append hl h.asked_length h.asks, List.append_assoc]
  cases assemble rest ds <;> rfl

end Ready

/-- Each choice of as many branches meets one that was asked in vain. -/
def Exhausted (rest : List Branch) (k : Nat) (es : List Bool) : Prop :=
  ∀ cs : List Bool, cs.length = rest.length → k ≤ cs.count true →
    askChosen rest cs es = (false, es, [])

section Pass

variable {b : Branch} {pending : List Request} {v : Witness}

theorem Exhausted.mono {k' : Nat} (h : Exhausted rest k es) (hk : k ≤ k') : Exhausted rest k' es :=
  fun cs hl hc => h cs hl (Nat.le_trans hk hc)

theorem exhausted_of_lt (h : rest.length < k) : Exhausted rest k es := by
  intro cs hl hc
  have := List.count_le_length (a := true) (l := cs)
  omega

theorem Exhausted.take {w : Witness} (hb : b.satisfied.witness = some w) (h : Exhausted rest k es) :
    Exhausted (b :: rest) (k + 1) (true :: es) := by
  intro cs hl hc
  cases cs with
  | nil => simp at hl
  | cons c cs =>
    have hr : cs.length = rest.length := Nat.succ.inj hl
    cases c with
    | true => simp [askChosen, hb, h cs hr (by simpa using hc)]
    | false =>
      have hk : k + 1 ≤ cs.count true := by simpa using hc
      simp [askChosen, h cs hr (by omega)]

theorem Exhausted.leave (hb : b.satisfied.witness = none) (h : Exhausted rest k es) :
    Exhausted (b :: rest) k (true :: es) := by
  intro cs hl hc
  cases cs with
  | nil => simp at hl
  | cons c cs =>
    have hr : cs.length = rest.length := Nat.succ.inj hl
    cases c with
    | true => simp [askChosen, hb]
    | false => simp [askChosen, h cs hr (by simpa using hc)]

theorem Ready.search_exhausted (h : Ready pre chosen as pending v)
    (hd : ∀ b ∈ pre ++ rest, b.dissatisfied.isSome = true) (he : Exhausted rest k es) :
    search (pre ++ rest) rest.length k chosen ⟨(pre.map fun _ => true) ++ es, q⟩ =
      (none, ⟨(pre.map fun _ => true) ++ es, q⟩) := by
  refine search_of_stuck fun cs hl hc => ?_
  rw [h.again.tryChoice_eq hd, he cs hl (Nat.le_of_eq hc.symm)]
  simp

/-- A branch that cannot be satisfied is asked for the first choice with it, and no other branch is
asked for these choices. -/
theorem Ready.search_refused (h : Ready pre chosen as pending v) (hb : b.satisfied.witness = none)
    (hd : ∀ b' ∈ pre ++ b :: rest, b'.dissatisfied.isSome = true) (hk : k ≤ rest.length) :
    search (pre ++ b :: rest) rest.length k (true :: chosen) ⟨as ++ false :: es, q⟩ =
      (none, ⟨(pre.map fun _ => true) ++ true :: es, q ++ pending ++ b.satisfied.requests⟩) := by
  refine search_of_refused hk (fun cs _ => ?_) fun cs _ => ?_
  · rw [List.reverse_cons, List.append_assoc, h.tryChoice_eq hd]
    simp [askChosen, hb]
  · rw [List.reverse_cons, List.append_assoc, h.again.tryChoice_eq hd]
    simp [askChosen, hb]

/-- Behind the branches so far, the search does what one pass does. Where that fails, it leaves no
choice that asks for more. -/
def Passes (pre rest : List Branch) (k : Nat) (chosen as : List Bool) (pending : List Request)
    (v : Witness) : Prop :=
  ∀ q, ∃ es, search (pre ++ rest) rest.length k chosen ⟨as ++ rest.map fun _ => false, q⟩ =
      ((scan k (rest.length - k) rest).witness.map (· ++ v),
        ⟨(pre.map fun _ => true) ++ es,
          q ++ pending ++ (scan k (rest.length - k) rest).requests⟩) ∧
    ((scan k (rest.length - k) rest).witness = none → Exhausted rest k es)

namespace Ready

variable {w : Witness}

theorem passes_zero (h : Ready pre chosen as pending v)
    (hd : ∀ b ∈ pre ++ rest, b.dissatisfied.isSome = true) :
    Passes pre rest 0 chosen as pending v := by
  intro q
  refine ⟨rest.map fun _ => false, ?_, fun hn => ?_⟩
  · rw [search_zero, h.tryChoice_eq hd, askChosen_replicate_false (List.length_map _),
      assemble_replicate_false, scan_zero]
    simp
  · have hs : (leaveOut rest).isSome = true :=
      isSome_leaveOut fun c hc => hd c (List.mem_append_right pre hc)
    rw [scan_zero] at hn
    change leaveOut rest = none at hn
    rw [hn] at hs
    cases hs

/-- A branch that can be satisfied is chosen. Without it there are too few where there are too few
with it. -/
theorem passes_take (h : Ready pre chosen as pending v) (hb : b.satisfied.witness = some w)
    (hd : ∀ b' ∈ (pre ++ [b]) ++ rest, b'.dissatisfied.isSome = true) (hk : k ≤ rest.length)
    (hp : Passes (pre ++ [b]) rest k (true :: chosen) (as ++ [false])
      (pending ++ b.satisfied.requests) (w ++ v)) :
    Passes pre (b :: rest) (k + 1) chosen as pending v := by
  intro q
  obtain ⟨es, hs, he⟩ := hp q
  obtain ⟨u, hu⟩ := Option.isSome_iff_exists.mp (hd b (by simp))
  have hsplit : pre ++ b :: rest = (pre ++ [b]) ++ rest := by simp
  have hmap : as ++ (b :: rest).map (fun _ => false) =
      (as ++ [false]) ++ rest.map fun _ => false := by simp
  rw [List.length_cons, Nat.add_sub_add_right, search, if_neg (by omega), hmap, hsplit, hs,
    scan_satisfied hb]
  refine ⟨true :: es, ?_, fun hn => ?_⟩
  · cases hw : (scan k (rest.length - k) rest).witness with
    | some x => simp [Outcome.both, hw, hb, under]
    | none =>
      simp only [Option.map_none]
      rw [(h.leave hu).search_exhausted hd ((he hw).mono (Nat.le_succ k))]
      simp [Outcome.both, hw, under]
  · rw [Outcome.witness_both, hb] at hn
    exact Exhausted.take hb (he (eq_none_of_under hn))

/-- A branch that cannot be satisfied ends the search where no other can be spared. -/
theorem passes_stop (h : Ready pre chosen as pending v) (hb : b.satisfied.witness = none)
    (hd : ∀ b' ∈ (pre ++ [b]) ++ rest, b'.dissatisfied.isSome = true) (hk : rest.length = k) :
    Passes pre (b :: rest) (k + 1) chosen as pending v := by
  intro q
  obtain ⟨u, hu⟩ := Option.isSome_iff_exists.mp (hd b (by simp))
  have hsplit : pre ++ b :: rest = (pre ++ [b]) ++ rest := by simp
  have hmap : (pre.map fun _ => true) ++ true :: rest.map (fun _ => false) =
      ((pre ++ [b]).map fun _ => true) ++ rest.map fun _ => false := by simp
  refine ⟨true :: rest.map fun _ => false, ?_, fun _ => ?_⟩
  · rw [List.length_cons, Nat.add_sub_add_right, search, if_neg (by omega), List.map_cons,
      h.search_refused hb (by rwa [hsplit]) (by omega)]
    simp only [hmap]
    rw [hsplit, (h.leave hu).search_exhausted hd (exhausted_of_lt (by omega)), hk, Nat.sub_self,
      scan_stopped hb]
    simp [hb]
  · exact Exhausted.leave hb (exhausted_of_lt (by omega))

/-- A branch that cannot be satisfied is left out where it can be spared. -/
theorem passes_leave (h : Ready pre chosen as pending v) (hb : b.satisfied.witness = none)
    (hu : b.dissatisfied = some w)
    (hd : ∀ b' ∈ (pre ++ [b]) ++ rest, b'.dissatisfied.isSome = true) (hk : k + 1 ≤ rest.length)
    (hp : Passes (pre ++ [b]) rest (k + 1) (false :: chosen) ((pre ++ [b]).map fun _ => true) []
      (w ++ v)) :
    Passes pre (b :: rest) (k + 1) chosen as pending v := by
  intro q
  obtain ⟨es, hs, he⟩ := hp (q ++ pending ++ b.satisfied.requests)
  have hsplit : pre ++ b :: rest = (pre ++ [b]) ++ rest := by simp
  have hmap : (pre.map fun _ => true) ++ true :: rest.map (fun _ => false) =
      ((pre ++ [b]).map fun _ => true) ++ rest.map fun _ => false := by simp
  have hspare : rest.length - k = rest.length - (k + 1) + 1 := by omega
  rw [List.length_cons, Nat.add_sub_add_right, search, if_neg (by omega), List.map_cons,
    h.search_refused hb (by rwa [hsplit]) (by omega)]
  simp only [hmap]
  rw [hsplit, hs, hspare, scan_spared hb]
  refine ⟨true :: es, ?_, fun hn => ?_⟩
  · cases hw : (scan (k + 1) (rest.length - (k + 1)) rest).witness <;>
      simp [Outcome.both, hw, hu, under]
  · rw [Outcome.witness_both, hu] at hn
    exact Exhausted.leave hb (he (eq_none_of_under hn))

theorem passes (h : Ready pre chosen as pending v)
    (hd : ∀ b ∈ pre ++ rest, b.dissatisfied.isSome = true) (hk : k ≤ rest.length) :
    Passes pre rest k chosen as pending v := by
  induction rest generalizing pre chosen as pending v k with
  | nil =>
    obtain rfl := Nat.le_zero.mp hk
    exact h.passes_zero hd
  | cons b rest ih =>
    cases k with
    | zero => exact h.passes_zero hd
    | succ k =>
      have hk : k ≤ rest.length := Nat.le_of_succ_le_succ hk
      have hd : ∀ b' ∈ (pre ++ [b]) ++ rest, b'.dissatisfied.isSome = true := by simpa using hd
      obtain ⟨u, hu⟩ := Option.isSome_iff_exists.mp (hd b (by simp))
      cases hb : b.satisfied.witness with
      | some w => exact h.passes_take hb hd hk (ih (h.take hb) hd hk)
      | none =>
        by_cases he : rest.length = k
        · exact h.passes_stop hb hd he
        · have hk : k + 1 ≤ rest.length := by omega
          exact h.passes_leave hb hu hd hk (ih (h.leave hu) hd hk)

end Ready

end Pass

end Threshold

theorem satisfyThreshold_eq_scan {k : Int} {bs : List Branch} (hk : k ≤ bs.length)
    (hd : ∀ b ∈ bs, b.dissatisfied.isSome = true) :
    satisfyThreshold k bs = Threshold.scan k.toNat (bs.length - k.toNat) bs := by
  obtain ⟨es, hs, -⟩ := Threshold.Ready.nil.passes hd
    (by omega : k.toNat ≤ bs.length) []
  rw [List.nil_append, List.nil_append] at hs
  rw [satisfyThreshold]
  dsimp only
  rw [hs]
  simp

theorem Fragment.HasType.isSome_dissatisfied {k : Int} {xs : List Fragment} {t : ExprType}
    (h : HasType (.thresh k xs) t) (m : Material) :
    ∀ b ∈ Fragment.branches m xs, b.dissatisfied.isSome = true := by
  intro b hb
  obtain ⟨x, hx, rfl⟩ := mem_branches hb
  cases h with
  | thresh hp h =>
    obtain ⟨p, hm, rfl⟩ := List.mem_map.mp hx
    exact (hp p hm).isSome_dissatisfy.trans (branches_d h p.2 (List.mem_map_of_mem hm))

/-- A threshold is satisfied as one pass over its branches satisfies it, with the same requests in the
same order. -/
theorem satisfy_thresh_eq_scan {k : Int} {xs : List Fragment} {t : ExprType}
    (h : (Fragment.thresh k xs).type? = .ok t) (m : Material) :
    (Fragment.thresh k xs).satisfy m =
      Threshold.scan k.toNat (xs.length - k.toNat) (Fragment.branches m xs) := by
  have ht := Fragment.HasType.of_type? h
  obtain ⟨ts, hts, hs⟩ := ht.branches
  obtain ⟨⟨-, hk⟩, -⟩ := ExprType.thresh_eq_ok hs
  have hl : (Fragment.branches m xs).length = xs.length := length_branches xs
  rw [← hts.length_eq, ← hl] at hk
  rw [Fragment.satisfy, satisfyThreshold_eq_scan hk (ht.isSome_dissatisfied m), hl]

namespace TwoOfFour

/-- Two of four keys, of which the first has no signature. -/
def branches : List Fragment :=
  [.wrap .c (.key [1]), .wrap .s (.wrap .c (.key [2])), .wrap .s (.wrap .c (.key [3])),
    .wrap .s (.wrap .c (.key [4]))]

def material : Material where
  sign key := if key = [1] then none else some key
  preimage _ := none
  older _ := false
  after _ := false

theorem typed : (Fragment.thresh 2 branches).type? =
    .ok { base := .B, d := true, u := true } := by
  decide

/-- The last key is not asked, since two have signed before it. -/
theorem one_pass : (Fragment.thresh 2 branches).satisfy material =
      Threshold.scan 2 2 (Fragment.branches material branches) ∧
    Threshold.scan 2 2 (Fragment.branches material branches) =
      ⟨some [[], [3], [2], []], [.sign [1], .sign [2], .sign [3]]⟩ :=
  ⟨satisfy_thresh_eq_scan typed material, by decide⟩

end TwoOfFour

end Taproot.Miniscript
