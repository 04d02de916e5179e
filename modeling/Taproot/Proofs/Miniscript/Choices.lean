import Taproot.Miniscript.Satisfaction

/-! # The choices of a threshold

A choice of branches gives a witness exactly where each chosen branch is satisfied and each other one
is left out. The search answers the witness of some choice of the right number, if there is one; what
it has asked before does not matter for that.
-/
namespace Taproot.Miniscript

theorem under_eq_some {below above : Option Witness} {w : Witness} :
    under below above = some w ↔ ∃ b a, below = some b ∧ above = some a ∧ b ++ a = w := by
  cases below <;> cases above <;> simp [under]

theorem isSome_under {below above : Option Witness} :
    (under below above).isSome = (below.isSome && above.isSome) := by
  cases below <;> cases above <;> simp [under]

theorem under_none_right (below : Option Witness) : under below none = none := by
  cases below <;> rfl

namespace Threshold

variable {bs : List Branch} {cs chosen : List Bool} {s : Search} {n k : Nat} {w : Witness}

theorem assemble_of_not_restDissatisfied (h : restDissatisfied bs cs = false) :
    assemble bs cs = none := by
  fun_induction restDissatisfied bs cs with
  | case1 b bs c cs ih =>
    rw [assemble]
    rcases Bool.and_eq_false_iff.mp h with h | h
    · simp only [Bool.or_eq_false_iff, Option.isSome_eq_false_iff, Option.isNone_iff_eq_none] at h
      rw [h.1, h.2]
      exact under_none_right _
    · rw [ih h]
      rfl
  | case2 => cases h

theorem assemble_of_not_found {as : List Bool} (h : (askChosen bs cs as).1 = false) :
    assemble bs cs = none := by
  fun_induction askChosen bs cs as with
  | case1 b bs cs a as fresh hb found as' requests he ih =>
    rw [assemble, ih (by rw [he]; exact h)]
    rfl
  | case2 b bs cs a as fresh hb =>
    simp only [Bool.not_eq_true, Option.isSome_eq_false_iff, Option.isNone_iff_eq_none] at hb
    simp only [assemble, hb, ↓reduceIte]
    exact under_none_right _
  | case3 b bs cs a as found as' requests he ih =>
    rw [assemble, ih (by rw [he]; exact h)]
    rfl
  | case4 => cases h

/-- What a choice gives does not depend on the branches asked before. -/
theorem tryChoice_fst : (tryChoice bs cs s).1 = assemble bs cs := by
  unfold tryChoice
  split
  · split
    rename_i found asked requests he
    cases found
    · exact (assemble_of_not_found (by rw [he])).symm
    · rfl
  · rename_i h
    exact (assemble_of_not_restDissatisfied (by simpa using h)).symm

theorem exists_of_search (h : (search bs n k chosen s).1 = some w) :
    ∃ cs, cs.length = n ∧ cs.count true = k ∧ assemble bs (chosen.reverse ++ cs) = some w := by
  fun_induction search bs n k chosen s with
  | case1 chosen s => exact ⟨[], rfl, rfl, by simpa [tryChoice_fst] using h⟩
  | case2 => cases h
  | case3 chosen s n ih =>
    obtain ⟨cs, hl, hc, ha⟩ := ih h
    exact ⟨false :: cs, by simp [hl], by simp [hc], by simpa using ha⟩
  | case4 => cases h
  | case5 chosen s n k hk v t he ih =>
    obtain ⟨cs, hl, hc, ha⟩ := ih (by rw [he]; exact h)
    exact ⟨true :: cs, by simp [hl], by simp [hc], by simpa using ha⟩
  | case6 chosen s n k hk t he ih₁ ih₂ =>
    obtain ⟨cs, hl, hc, ha⟩ := ih₂ h
    exact ⟨false :: cs, by simp [hl], by simp [hc], by simpa using ha⟩

theorem assemble_of_search_none (h : (search bs n k chosen s).1 = none) (hl : cs.length = n)
    (hc : cs.count true = k) : assemble bs (chosen.reverse ++ cs) = none := by
  fun_induction search bs n k chosen s generalizing cs with
  | case1 chosen s =>
    obtain rfl := List.length_eq_zero_iff.mp hl
    simpa [tryChoice_fst] using h
  | case2 chosen s k =>
    obtain rfl := List.length_eq_zero_iff.mp hl
    simp at hc
  | case3 chosen s n ih =>
    cases cs with
    | nil => simp at hl
    | cons c cs =>
      cases c with
      | true => simp at hc
      | false => simpa using ih h (by simpa using hl) (by simpa using hc)
  | case4 chosen s n k hn =>
    have := List.count_le_length (a := true) (l := cs)
    omega
  | case5 chosen s n k hk v t he ih => cases h
  | case6 chosen s n k hk t he ih₁ ih₂ =>
    cases cs with
    | nil => simp at hl
    | cons c cs =>
      cases c with
      | true => simpa using ih₁ (by rw [he]) (by simpa using hl) (by simpa using hc)
      | false => simpa using ih₂ h (by simpa using hl) (by simpa using hc)

end Threshold

variable {k : Int} {bs : List Branch} {w : Witness}

theorem exists_of_satisfyThreshold (h : (satisfyThreshold k bs).witness = some w) :
    ∃ cs : List Bool, cs.length = bs.length ∧ cs.count true = k.toNat ∧
      Threshold.assemble bs cs = some w :=
  @Threshold.exists_of_search bs [] _ _ _ _ h

theorem assemble_of_satisfyThreshold_none (h : (satisfyThreshold k bs).witness = none)
    {cs : List Bool} (hl : cs.length = bs.length) (hc : cs.count true = k.toNat) :
    Threshold.assemble bs cs = none :=
  @Threshold.assemble_of_search_none bs cs [] _ _ _ h hl hc

end Taproot.Miniscript
