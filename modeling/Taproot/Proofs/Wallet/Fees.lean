import Taproot.Proofs.Draft.Indices
import Taproot.Proofs.Wallet.Finalizing

/-! # Fees

What is available goes to the outputs and to the fee: an output without a value takes all that the
others and the fee leave, and without such an output what is left over adds to the fee.
-/
namespace Taproot

namespace Draft

variable {d : Draft} {available : Int} {values : List Nat}

/-- The values that are given, in any order, together. -/
def givenTotal (d : Draft) : Nat := (d.outputs.map fun e => e.2.value.getD 0).sum

/-- Some output has no value of its own. -/
def HasRemainder (d : Draft) : Prop := ∃ e ∈ d.outputs, e.2.value = none

theorem givenValues_perm (d : Draft) : d.givenValues.Perm (d.outputs.map fun e => e.2.value) := by
  have h := d.outputs.sorted_perm.map fun e => e.2.value
  rwa [givenValues, Slots.values, List.map_map]

theorem required_eq_add (d : Draft) : d.required = d.givenTotal + d.fee := by
  have h := (d.givenValues_perm.map fun v => v.getD 0).sum_nat
  rw [d.required_eq, h, List.map_map]
  rfl

theorem count_givenValues (d : Draft) :
    d.givenValues.count none = d.outputs.countP fun e => e.2.value.isNone := by
  rw [d.givenValues_perm.count_eq, List.count, List.countP_map]
  refine List.countP_congr fun e _ => ?_
  cases h : e.2.value <;> simp [h]

theorem count_givenValues_pos (h : d.HasRemainder) : 0 < d.givenValues.count none := by
  obtain ⟨e, he, hv⟩ := h
  rw [d.count_givenValues, List.countP_pos_iff]
  exact ⟨e, he, by rw [hv]; rfl⟩

/-- What is available and what it is short of can both be written. -/
def CanTellShortfall (d : Draft) (available : Int) : Prop :=
  Text.isWritable available = true ∧ Text.isWritable (d.givenTotal + d.fee : Nat) = true

section

variable (hone : d.outputs.countP (fun e => e.2.value.isNone) ≤ 1)

include hone

theorem outputValues_eq_shortOfFunds {a : Int} {r : Nat} :
    d.outputValues available = .error (.shortOfFunds a r) ↔
      (a = available ∧ r = d.givenTotal + d.fee) ∧ available < d.givenTotal + d.fee ∧
        d.CanTellShortfall available := by
  rw [← d.count_givenValues] at hone
  rw [outputValues, if_neg (by omega), d.required_eq_add, CanTellShortfall, ← Bool.and_eq_true]
  split
  · rename_i hlt
    split
    · rename_i hw
      rw [Except.error.injEq, ValueFault.shortOfFunds.injEq, eq_comm, @eq_comm _ _ r]
      exact (and_iff_left ⟨hlt, hw⟩).symm
    · rename_i hw
      refine iff_of_false (fun h => ?_) fun h => hw h.2.2
      cases h
  · rename_i hlt
    refine iff_of_false (fun h => ?_) fun h => hlt h.2.1
    cases h

theorem outputValues_eq_unwritable : d.outputValues available = .error .unwritable ↔
    available < d.givenTotal + d.fee ∧ ¬ d.CanTellShortfall available := by
  rw [← d.count_givenValues] at hone
  rw [outputValues, if_neg (by omega), d.required_eq_add, CanTellShortfall, ← Bool.and_eq_true]
  split
  · rename_i hlt
    split
    · rename_i hw
      refine iff_of_false (fun h => ?_) fun h => h.2 hw
      cases h
    · rename_i hw
      exact iff_of_true rfl ⟨hlt, hw⟩
  · rename_i hlt
    refine iff_of_false (fun h => ?_) fun h => hlt h.1
    cases h

end

theorem exists_outputValues (hone : d.outputs.countP (fun e => e.2.value.isNone) ≤ 1)
    (h : (d.givenTotal : Int) + d.fee ≤ available) :
    ∃ values, d.outputValues available = .ok values := by
  rw [← d.count_givenValues] at hone
  refine ⟨_, outputValues_eq_ok.mpr ⟨hone, ?_, rfl⟩⟩
  rw [d.required_eq_add]
  omega

/-- By ascending index, each output that has a value keeps it. -/
theorem forall₂_outputValues (h : d.outputValues available = .ok values) :
    List.Forall₂ (fun e v => ∀ given, e.2.value = some given → v = given) d.outputs.sorted
      values := by
  obtain ⟨-, -, rfl⟩ := outputValues_eq_ok.mp h
  rw [givenValues, Slots.values, List.map_map, List.map_map, List.forall₂_map_right_iff,
    List.forall₂_same]
  intro e _ given he
  simp [he]

theorem sum_outputValues_of_hasRemainder (h : d.outputValues available = .ok values)
    (hr : d.HasRemainder) : (values.sum : Int) + d.fee = available := by
  rw [sum_outputValues_add_fee h, if_neg (Nat.ne_of_gt (count_givenValues_pos hr))]

end Draft

namespace Operation

theorem fee_of_build {s t : Session} {b : Built} (h : Answers build s b t) :
    s.wallet.draft.fee ≤ b.fee ∧ (s.wallet.draft.HasRemainder → b.fee = s.wallet.draft.fee) := by
  obtain ⟨u, r, r', hu, -, -, -⟩ := answers_build.mp h
  obtain ⟨-, hp⟩ := hu.prepared
  obtain ⟨-, hfee⟩ := built_of_prepared hu h
  refine ⟨?_, fun hr => ?_⟩
  · have hle := hp.totalValue_outputs_add_fee_le
    omega
  · obtain ⟨values, outs, he, hl, hv⟩ := hp.exists_values
    rw [hp.totalValue_spent, ← Spending.available_eq, he, totalValue_txOuts hl] at hfee
    have heq := Draft.sum_outputValues_of_hasRemainder hv hr
    omega

end Operation

/-- Where one output at most has no value of its own, the values are found unless the given ones and
the fee exceed what is available; funds are then short, as long as both amounts can be written. Where
values are found, each output has one, the given one if there is one, and the values come to what the
fee leaves of what is available, or to less where all are given. A transaction that is built pays the
fee of its draft at least, and exactly that if an output takes the remainder. -/
theorem values_conserved {d : Draft}
    (hone : d.outputs.countP (fun e => e.2.value.isNone) ≤ 1) :
    (∀ (available a : Int) (r : Nat),
      d.outputValues available = .error (.shortOfFunds a r) ↔
        (a = available ∧ r = d.givenTotal + d.fee) ∧ available < d.givenTotal + d.fee ∧
          d.CanTellShortfall available) ∧
    (∀ available : Int, d.outputValues available = .error .unwritable ↔
      available < d.givenTotal + d.fee ∧ ¬ d.CanTellShortfall available) ∧
    (∀ available : Int, (d.givenTotal : Int) + d.fee ≤ available →
      ∃ (entries : Slots DraftOutput) (values : List Nat), entries.Perm d.outputs ∧
        entries.Pairwise (fun e f => e.1 ≤ f.1) ∧ d.outputValues available = .ok values ∧
        List.Forall₂ (fun e v => ∀ given, e.2.value = some given → v = given) entries values ∧
        (d.HasRemainder → (values.sum : Int) = available - d.fee) ∧
        (values.sum : Int) ≤ available - d.fee) ∧
    ∀ (s t : Session) (b : Built), s.wallet.draft = d → Operation.Answers .build s b t →
      d.fee ≤ b.fee ∧ (d.HasRemainder → b.fee = d.fee) := by
  refine ⟨fun available a r => Draft.outputValues_eq_shortOfFunds hone,
    fun available => Draft.outputValues_eq_unwritable hone, fun available h => ?_, ?_⟩
  · obtain ⟨values, hvalues⟩ := Draft.exists_outputValues hone h
    have hle := Draft.sum_outputValues_add_fee_le hvalues
    refine ⟨d.outputs.sorted, values, d.outputs.sorted_perm, d.outputs.sorted_ascending, hvalues,
      Draft.forall₂_outputValues hvalues, fun hr => ?_, by omega⟩
    have heq := Draft.sum_outputValues_of_hasRemainder hvalues hr
    omega
  · rintro s t b rfl hb
    exact Operation.fee_of_build hb

namespace LeafSpend

/-- The only output takes what the fee leaves, so that nothing but the fee is paid. -/
theorem fee_paid : draft.outputs.countP (fun e => e.2.value.isNone) ≤ 1 ∧
    (∃ t, Operation.Answers .build session built t) ∧ built.fee = draft.fee ∧
    draft.outputValues 60000 = .ok [59500] ∧
    draft.outputValues 499 = .error (.shortOfFunds 499 500) := by
  have hone : draft.outputs.countP (fun e => e.2.value.isNone) ≤ 1 := by decide
  have hr : draft.HasRemainder := ⟨(0, ⟨text, none⟩), List.mem_cons_self, rfl⟩
  obtain ⟨hshort, -, hvalues, hbuild⟩ := values_conserved hone
  obtain ⟨t, ht⟩ := builds
  have hwritable : draft.CanTellShortfall (499 : Nat) :=
    ⟨Text.isWritable_of_lt (by decide), Text.isWritable_of_lt (by decide)⟩
  refine ⟨hone, ⟨t, ht⟩, (hbuild session t built rfl ht).2 hr, ?_,
    (hshort 499 499 500).mpr ⟨⟨rfl, rfl⟩, by decide, hwritable⟩⟩
  obtain ⟨entries, values, hperm, -, hok, hkeeps, hsum, -⟩ := hvalues 60000 (by decide)
  obtain rfl := List.perm_singleton.mp hperm
  obtain ⟨v, rest, -, hrest, rfl⟩ := List.forall₂_cons_left_iff.mp hkeeps
  cases hrest
  have hv : v = 59500 := by
    have hsum := hsum hr
    rw [List.sum_singleton] at hsum
    have hfee : draft.fee = 500 := rfl
    omega
  rw [hok, hv]

/-- Two outputs of the greatest value that can be written. -/
def longDraft : Draft where
  outputs :=
    [(0, ⟨text, some (10 ^ Text.digitLimit - 1)⟩), (1, ⟨text, some (10 ^ Text.digitLimit - 1)⟩)]

/-- Nothing is available for the two outputs, but it is not told how much they require. -/
theorem shortfall_not_told : longDraft.outputs.countP (fun e => e.2.value.isNone) ≤ 1 ∧
    (0 : Int) < longDraft.givenTotal + longDraft.fee ∧
    longDraft.outputValues 0 = .error .unwritable ∧
    ∀ a r, longDraft.outputValues 0 ≠ .error (.shortOfFunds a r) := by
  have hone : longDraft.outputs.countP (fun e => e.2.value.isNone) ≤ 1 := by simp [longDraft]
  have hpow : 10 ^ 1 ≤ 10 ^ Text.digitLimit := Nat.pow_le_pow_right (by decide) (by decide)
  have htotal : longDraft.givenTotal + longDraft.fee =
      (10 ^ Text.digitLimit - 1) + (10 ^ Text.digitLimit - 1) := by
    simp [Draft.givenTotal, longDraft]
  have hlong : ¬ longDraft.CanTellShortfall 0 := by
    rintro ⟨-, h⟩
    rw [htotal] at h
    have hlt := Text.isWritable_natCast.mp h
    omega
  have hshort : (0 : Int) < longDraft.givenTotal + longDraft.fee := by
    have hpos : 0 < longDraft.givenTotal + longDraft.fee := by omega
    exact_mod_cast hpos
  have hunwritable := (Draft.outputValues_eq_unwritable hone).mpr ⟨hshort, hlong⟩
  refine ⟨hone, hshort, hunwritable, fun a r h => ?_⟩
  cases hunwritable.symm.trans h

end LeafSpend
end Taproot
