import Mathlib.Algebra.Ring.Nat
import Taproot.Proofs.Draft.Indices
import Taproot.Proofs.Wallet.Preparation

/-! # Values of a prepared transaction

A prepared transaction has an output for each descriptor that the draft pays to, and its outputs
come to no more than what it spends.
-/
namespace Taproot

/-! ## Totals -/

theorem Spending.available_eq (s : Spending) : s.available = (s.utxos.map Utxo.value).sum := by
  unfold available
  induction s.utxos with
  | nil => rfl
  | cons u us ih => rw [List.foldr_cons, ih, List.map_cons, List.sum_cons]

theorem length_txOuts {values : List Nat} {cs : List Commitment} (h : values.length = cs.length) :
    (Spending.txOuts values cs).length = values.length := by
  rw [Spending.txOuts, List.length_zipWith, ← h, Nat.min_self]

theorem totalValue_txOuts {values : List Nat} {cs : List Commitment}
    (h : values.length = cs.length) : totalValue (Spending.txOuts values cs) = values.sum := by
  induction values generalizing cs with
  | nil => rfl
  | cons v values ih =>
    cases cs with
    | nil => cases h
    | cons c cs =>
      have hrest := ih (Nat.succ.inj h)
      rw [List.sum_cons, Int.natCast_add, ← hrest]
      rfl

theorem map_value_txOuts {values : List Nat} {cs : List Commitment}
    (h : values.length = cs.length) :
    ((Spending.txOuts values cs).map fun o => o.value.toNat) = values := by
  induction values generalizing cs with
  | nil => rfl
  | cons v values ih =>
    cases cs with
    | nil => cases h
    | cons c cs =>
      have hrest := ih (Nat.succ.inj h)
      rw [Spending.txOuts, List.zipWith_cons_cons, List.map_cons]
      exact congrArg (v :: ·) hrest

theorem getElem?_txOuts {values : List Nat} {cs : List Commitment} {j : Nat} {o : TxOut}
    (h : (Spending.txOuts values cs)[j]? = some o) : ∃ value : Nat, values[j]? = some value ∧
      o.value = value := by
  rw [Spending.txOuts, List.getElem?_zipWith] at h
  cases hv : values[j]? with
  | none => rw [hv] at h; cases h
  | some v =>
    cases hc : cs[j]? with
    | none => rw [hv, hc] at h; cases h
    | some c =>
      rw [hv, hc] at h
      obtain rfl := Option.some.inj h
      exact ⟨v, rfl, rfl⟩

namespace Draft

variable {d : Draft} {available : Int} {values : List Nat}

theorem checkIndices_eq (d : Draft) : d.checkIndices =
    match d.inputs.hole? with
    | some k => .error (.missingInput k)
    | none =>
      match d.outputs.hole? with
      | some k => .error (.missingOutput k)
      | none => .ok () := by
  unfold checkIndices Slots.hole?
  cases d.inputs.isEmpty with
  | true => rfl
  | false =>
    cases d.inputs.firstGap with
    | some k => rfl
    | none => cases d.outputs.isEmpty <;> cases d.outputs.firstGap <;> rfl

theorem checkIndices_eq_ok :
    d.checkIndices = .ok () ↔ d.inputs.hole? = none ∧ d.outputs.hole? = none := by
  rw [checkIndices_eq]
  cases d.inputs.hole? with
  | some k => simp
  | none => cases d.outputs.hole? <;> simp

theorem outputs_ne_nil (h : d.checkIndices = .ok ()) : d.outputs ≠ [] :=
  Slots.ne_nil_of_hole? (checkIndices_eq_ok.mp h).2

/-- Every index below the number of outputs is one of an output. -/
theorem exists_mem_outputs (h : d.checkIndices = .ok ()) {j : Nat} (hj : j < d.outputs.length) :
    ∃ o, ((j : Int), o) ∈ d.outputs := by
  rw [← Slots.length_sorted] at hj
  have he := List.getElem?_eq_getElem hj
  refine ⟨d.outputs.sorted[j].2, ?_⟩
  rw [← Slots.index_of_hole? (checkIndices_eq_ok.mp h).2 he]
  exact (Slots.sorted_perm _).mem_iff.mp (List.getElem_mem hj)

/-- The given values, with another in the place of those that are left out. -/
theorem sum_getD (given : List (Option Nat)) (n : Nat) :
    (given.map fun v => v.getD n).sum =
      (given.map fun v => v.getD 0).sum + given.count none * n := by
  induction given with
  | nil => simp
  | cons v given ih =>
    cases v with
    | none =>
      simp only [List.map_cons, List.sum_cons, Option.getD_none, ih, List.count_cons_self]
      rw [Nat.add_mul]
      omega
    | some v =>
      rw [List.count_cons_of_ne (by simp)]
      simp only [List.map_cons, List.sum_cons, Option.getD_some, ih]
      omega

theorem required_eq (d : Draft) :
    d.required = (d.givenValues.map fun v => v.getD 0).sum + d.fee := by
  unfold required
  induction d.givenValues with
  | nil => simp
  | cons v given ih => rw [List.foldr_cons, ih, List.map_cons, List.sum_cons, Nat.add_assoc]

theorem outputValues_eq_ok : d.outputValues available = .ok values ↔
    d.givenValues.count none ≤ 1 ∧ (d.required : Int) ≤ available ∧
      values = d.givenValues.map fun v => v.getD (available - d.required).toNat := by
  rw [outputValues, ite_error_eq_ok, ite_error_eq_ok, Except.ok.injEq, Nat.not_lt, Int.not_lt,
    eq_comm (b := values)]

theorem length_outputValues (h : d.outputValues available = .ok values) :
    values.length = d.outputs.length := by
  obtain ⟨-, -, rfl⟩ := outputValues_eq_ok.mp h
  rw [List.length_map, givenValues, List.length_map, Slots.values, List.length_map,
    Slots.length_sorted]

/-- With the fee the outputs come to what is required, or to all that is available where one of them
has no value of its own. -/
theorem sum_outputValues_add_fee (h : d.outputValues available = .ok values) :
    (values.sum : Int) + d.fee =
      if d.givenValues.count none = 0 then (d.required : Int) else available := by
  obtain ⟨hone, hcovered, rfl⟩ := outputValues_eq_ok.mp h
  have hr := d.required_eq
  rw [sum_getD]
  split
  · rename_i hzero
    rw [hzero]
    omega
  · have hcount : d.givenValues.count none = 1 := by omega
    rw [hcount]
    omega

theorem sum_outputValues_add_fee_le (h : d.outputValues available = .ok values) :
    (values.sum : Int) + d.fee ≤ available := by
  obtain ⟨-, hcovered, -⟩ := outputValues_eq_ok.mp h
  rw [sum_outputValues_add_fee h]
  split <;> omega

end Draft

namespace Unsigned.Prepared

variable {w : Wallet} {u : Unsigned}

theorem totalValue_spent (h : u.Prepared w) :
    totalValue u.spent = (u.spending.utxos.map Utxo.value).sum := by
  rw [h.spent_eq, totalValue_txOuts]
  rw [List.length_map, h.resolves.inputs.length_eq, h.commitments.length_eq]

/-- The outputs have the values of the draft, one for each commitment. -/
theorem exists_values (h : u.Prepared w) : ∃ values outs, u.transaction.outputs =
    Spending.txOuts values outs ∧ values.length = outs.length ∧
      w.draft.outputValues u.spending.available = .ok values := by
  obtain ⟨values, outs, hv, ho, he⟩ := h.assembled
  refine ⟨values, outs, by rw [he]; rfl, ?_, hv⟩
  rw [Draft.length_outputValues hv, ← ho.length_eq, ← h.resolves.outputs.length_eq,
    Slots.length_sorted]

theorem length_outputs (h : u.Prepared w) :
    u.transaction.outputs.length = u.spending.outputs.length := by
  obtain ⟨values, outs, he, hl, hv⟩ := h.exists_values
  rw [he, length_txOuts hl, Draft.length_outputValues hv, ← h.resolves.outputs.length_eq,
    Slots.length_sorted]

theorem outputs_pos (h : u.Prepared w) : 0 < u.transaction.outputs.length := by
  rw [h.length_outputs, ← h.resolves.outputs.length_eq, Slots.length_sorted]
  exact List.length_pos_of_ne_nil (Draft.outputs_ne_nil h.resolves.indices)

/-- What is spent beyond the outputs pays the fee of the draft. -/
theorem totalValue_outputs_add_fee_le (h : u.Prepared w) :
    totalValue u.transaction.outputs + w.draft.fee ≤ totalValue u.spent := by
  obtain ⟨values, outs, he, hl, hv⟩ := h.exists_values
  rw [he, totalValue_txOuts hl, h.totalValue_spent, ← Spending.available_eq]
  exact Draft.sum_outputValues_add_fee_le hv

theorem totalValue_outputs_le (h : u.Prepared w) :
    totalValue u.transaction.outputs ≤ totalValue u.spent := by
  have hle := h.totalValue_outputs_add_fee_le
  omega

end Unsigned.Prepared
end Taproot
