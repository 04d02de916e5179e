import Taproot.Proofs.Draft.Indices
import Taproot.Proofs.Wallet.Accounting
import Taproot.Proofs.Wallet.Timelocks

/-! # Indices of a prepared transaction

A transaction is prepared where the indices of the draft are filled from zero on, and each of its
inputs and outputs is then the one that the draft has under that index. The order in which the draft
was edited plays no part: it changes neither the transaction nor the reason of a refusal.
-/
namespace Taproot

/-! ## What an entry comes to -/

/-- The sequence number of an input of a draft in which a relative timelock is active or not. -/
def DraftInput.sequenceNumber (active : Bool) (i : DraftInput) : Nat :=
  i.sequence.getD (if active then locktimeSequence else finalSequence)

/-- The value of an output, where so much remains beyond the values that are given and the fee. -/
def DraftOutput.valueFrom (remainder : Int) (o : DraftOutput) : Int :=
  (o.value.map Int.ofNat).getD remainder

namespace Draft

variable {d : Draft} {t : Timelocks} {available : Int} {values : List Nat}

theorem sequence_of_get? (h : d.timelocks? = some t) {i : Int} {e : DraftInput}
    (he : d.inputs.get? i = some e) : t.sequence i = e.sequenceNumber d.hasRelativeTimelock := by
  obtain ⟨ha, -, hh, -⟩ := timelocks?_eq_some h
  rw [Timelocks.sequence, hh, he, Option.bind_some, ha, DraftInput.sequenceNumber]
  cases e.sequence <;> rfl

theorem getElem?_outputValues (h : d.outputValues available = .ok values) {j : Nat} {v : Nat}
    (hv : values[j]? = some v) : ∃ e, d.outputs.sorted[j]? = some e ∧
      (v : Int) = e.2.valueFrom (available - d.required) := by
  obtain ⟨-, hcovered, rfl⟩ := outputValues_eq_ok.mp h
  rw [List.getElem?_map, givenValues, List.getElem?_map, Slots.values, List.getElem?_map] at hv
  cases he : d.outputs.sorted[j]? with
  | none => rw [he] at hv; cases hv
  | some e =>
    rw [he] at hv
    obtain rfl := Option.some.inj hv
    refine ⟨e, rfl, ?_⟩
    rw [DraftOutput.valueFrom]
    cases e.2.value with
    | none => exact Int.toNat_of_nonneg (by omega)
    | some value => rfl

end Draft

/-- What the inputs of a draft provide. -/
def Draft.funds (d : Draft) : Nat := (d.inputs.map fun e => (e.2.utxo.map Utxo.value).getD 0).sum

theorem Spending.Resolves.available_eq {w : Wallet} {s : Spending} (h : s.Resolves w) :
    s.available = w.draft.funds := by
  have hvalues {es : Slots DraftInput} {us : List Utxo}
      (hu : List.Forall₂ (fun e u => e.2.utxo = some u) es us) :
      es.map (fun e => (e.2.utxo.map Utxo.value).getD 0) = us.map Utxo.value := by
    induction hu with
    | nil => rfl
    | cons he _ ih =>
      rw [List.map_cons, List.map_cons, he, ih]
      rfl
  rw [Spending.available_eq, ← hvalues h.utxos, Draft.funds]
  exact ((Slots.sorted_perm _).map _).sum_nat

/-- Each input and each output of the transaction is what the draft of the wallet has under its
index, from zero on and without a gap. -/
structure Transaction.Follows (tx : Transaction) (w : Wallet) : Prop where
  inputs_filled : w.draft.inputs.Filled
  outputs_filled : w.draft.outputs.Filled
  length_inputs : tx.inputs.length = w.draft.inputs.length
  length_outputs : tx.outputs.length = w.draft.outputs.length
  input : ∀ (i : Nat) (x : TxIn), tx.inputs[i]? = some x → ∃ (e : DraftInput) (u : Utxo),
    w.draft.inputs.get? i = some e ∧ e.utxo = some u ∧ x.txid = u.txid.bytes ∧ x.vout = u.vout ∧
      x.sequence = e.sequenceNumber w.draft.hasRelativeTimelock
  output : ∀ (j : Nat) (o : TxOut), tx.outputs[j]? = some o →
    ∃ (e : DraftOutput) (d : Descriptor) (c : Commitment), w.draft.outputs.get? j = some e ∧
      Descriptor.read w.store e.descriptor = .ok d ∧ d.commit = .ok c ∧
      o.value = e.valueFrom (w.draft.funds - w.draft.required) ∧ o.script = c.outputScript

namespace Unsigned.Prepared

variable {w : Wallet} {u : Unsigned}

theorem follows (h : u.Prepared w) (hi : w.draft.inputs.Indexed) (ho : w.draft.outputs.Indexed) :
    u.transaction.Follows w := by
  obtain ⟨hif, hof⟩ := Draft.checkIndices_eq_ok.mp h.resolves.indices
  rw [Slots.hole?_eq_none hi] at hif
  rw [Slots.hole?_eq_none ho] at hof
  refine ⟨hif, hof, ?_, ?_, fun i x hx => ?_, fun j o hj => ?_⟩
  · rw [h.inputs_eq, Spending.txIns, List.length_mapIdx, ← h.resolves.utxos.length_eq,
      Slots.length_sorted]
  · rw [h.length_outputs, ← h.resolves.outputs.length_eq, Slots.length_sorted]
  · rw [h.getElem?_inputs] at hx
    obtain ⟨v, hv, rfl⟩ := Option.map_eq_some_iff.mp hx
    obtain ⟨e, he, hev⟩ := forall₂_getElem? h.resolves.utxos hv
    have hget := Slots.get?_of_sorted hi hif he
    refine ⟨e.2, v, hget, hev, rfl, rfl, ?_⟩
    rw [Draft.sequence_of_get? h.resolves.timelocks hget]
  · obtain ⟨values, outs, hvalues, hc, he⟩ := h.assembled
    have htx : u.transaction.outputs = Spending.txOuts values outs := by rw [he]; rfl
    rw [htx, Spending.txOuts, List.getElem?_zipWith_eq_some] at hj
    obtain ⟨v, c, hv, hcj, rfl⟩ := hj
    obtain ⟨e, hej, hev⟩ := Draft.getElem?_outputValues hvalues hv
    obtain ⟨d, hd, hdc⟩ := forall₂_getElem? hc hcj
    obtain ⟨e', he', hed⟩ := forall₂_getElem? h.resolves.outputs hd
    obtain rfl := Option.some.inj (hej.symm.trans he')
    refine ⟨e.2, d, c, Slots.get?_of_sorted ho hof hej, hed, hdc, ?_, rfl⟩
    rw [← h.resolves.available_eq]
    exact hev

end Unsigned.Prepared

/-! ## Preparation as a function of the wallet -/

namespace Wallet

/-- The transaction of what the draft spends and pays to. -/
def assembled (w : Wallet) (s : Spending) : Except WalletError Unsigned := do
  let inputs ← s.inputs.mapM fun d => d.commit.mapError .key
  let outputs ← s.outputs.mapM fun d => d.commit.mapError .key
  let values ← (w.draft.outputValues s.available).mapError .ofValueFault
  return s.toUnsigned values inputs outputs

/-- What the draft of the wallet is prepared to. -/
def prepared (w : Wallet) : Except WalletError Unsigned := w.spending >>= w.assembled

end Wallet

namespace Operation

variable {α β ε : Type}

/-- The operation answers the same in every session, or is refused for the same reason. -/
def Gives (a : Operation α) (r : Except WalletError α) : Prop := ∀ s, (runOn a s).1 = r

theorem Gives.pure (x : α) : Gives (Pure.pure x) (.ok x) := fun _ => rfl

theorem Gives.bind {a : Operation α} {r : Except WalletError α} {f : α → Operation β}
    {g : α → Except WalletError β} (ha : Gives a r) (hf : ∀ x, Gives (f x) (g x)) :
    Gives (a >>= f) (r >>= g) := by
  intro s
  rw [runOn_bind, ← ha s]
  rcases runOn a s with ⟨e | x, t⟩
  · rfl
  · exact hf x t

theorem Gives.ofExcept (wrap : ε → WalletError) (r : Except ε α) :
    Gives (ofExcept wrap r) (r.mapError wrap) := by
  intro s
  cases r <;> rfl

theorem Gives.mapM {f : α → Operation β} {g : α → Except WalletError β}
    (hf : ∀ x, Gives (f x) (g x)) (xs : List α) : Gives (xs.mapM f) (xs.mapM g) := by
  induction xs with
  | nil => exact .pure []
  | cons x xs ih =>
    rw [List.mapM_cons, List.mapM_cons]
    exact (hf x).bind fun y => ih.bind fun ys => .pure (y :: ys)

theorem gives_commit (d : Descriptor) : Gives (commit d) (d.commit.mapError .key) := by
  intro s
  rw [commit, runOn_bind]
  cases d.commit <;> rfl

theorem fst_runOn_prepare (s : Session) : (runOn prepare s).1 = s.wallet.prepared := by
  have hspending (r : Except WalletError Spending) : Gives (ofExcept id r) r := by
    intro s
    cases r <;> rfl
  exact ((hspending s.wallet.spending).bind fun sp =>
    (Gives.mapM gives_commit sp.inputs).bind fun ins =>
      (Gives.mapM gives_commit sp.outputs).bind fun outs =>
        (Gives.ofExcept .ofValueFault (s.wallet.draft.outputValues sp.available)).bind fun values =>
          .pure (sp.toUnsigned values ins outs)) s

end Operation

/-- Where the timelocks are resolved, a draft is refused for its indices before anything else. -/
theorem Wallet.prepared_of_checkIndices {w : Wallet} (ht : w.draft.timelocks?.isSome = true)
    {e : WalletError} (h : w.draft.checkIndices = .error e) : w.prepared = .error e := by
  obtain ⟨t, ht⟩ := Option.isSome_iff_exists.mp ht
  have hs : w.spending = .error e := by
    unfold Wallet.spending
    simp only [ht, h]
    rfl
  rw [prepared, hs]
  rfl

/-! ## The order of edits -/

/-- Only the sequence numbers and the locktime that they come to show in the transaction. -/
theorem Spending.transaction_toUnsigned {s : Spending} {t : Timelocks}
    (hsequence : t.sequence = s.timelocks.sequence) (hlock : t.nLockTime = s.timelocks.nLockTime)
    (values : List Nat) (inputs outputs : List Commitment) :
    (Spending.toUnsigned { s with timelocks := t } values inputs outputs).transaction =
      (s.toUnsigned values inputs outputs).transaction := by
  simp only [toUnsigned, txIns, hsequence, hlock]

/-- The entries of both drafts are the same, in one order or another. -/
structure Draft.Rearranged (d d' : Draft) : Prop where
  inputs : d.inputs.Perm d'.inputs
  outputs : d.outputs.Perm d'.outputs
  fee : d.fee = d'.fee
  locktime : d.locktime = d'.locktime

namespace Draft.Rearranged

variable {d d' : Draft}

theorem hasRelativeTimelock_eq (h : d.Rearranged d') :
    d.hasRelativeTimelock = d'.hasRelativeTimelock := h.inputs.any_eq

theorem checkIndices_eq (h : d.Rearranged d') (hi : (d.inputs.map Prod.fst).Nodup)
    (ho : (d.outputs.map Prod.fst).Nodup) : d.checkIndices = d'.checkIndices := by
  rw [Draft.checkIndices_eq, Draft.checkIndices_eq, Slots.hole?_eq_of_perm h.inputs hi,
    Slots.hole?_eq_of_perm h.outputs ho]

theorem boundUtxos_eq (h : d.Rearranged d') (hi : (d.inputs.map Prod.fst).Nodup) :
    d.boundUtxos = d'.boundUtxos := by
  rw [boundUtxos, boundUtxos, Slots.sorted_eq_of_perm h.inputs hi]

theorem outputValues_eq (h : d.Rearranged d') (ho : (d.outputs.map Prod.fst).Nodup) :
    d.outputValues = d'.outputValues := by
  have hg : d.givenValues = d'.givenValues := by
    rw [givenValues, givenValues, Slots.sorted_eq_of_perm h.outputs ho]
  funext available
  rw [outputValues, outputValues, required, required, hg, h.fee]

theorem timelocks?_eq_none (h : d.Rearranged d') : d.timelocks? = none → d'.timelocks? = none := by
  unfold timelocks?
  rw [h.locktime, h.hasRelativeTimelock_eq]
  intro hn
  split at hn
  · exact if_pos ‹_›
  · cases hn

/-- The timelocks are kept in another order and say the same. -/
theorem exists_timelocks (h : d.Rearranged d') (hi : (d.inputs.map Prod.fst).Nodup) {t : Timelocks}
    (ht : d.timelocks? = some t) : ∃ t', d'.timelocks? = some t' ∧ t'.sequence = t.sequence ∧
      t'.nLockTime = t.nLockTime := by
  obtain ⟨ha, hl, hh, -⟩ := timelocks?_eq_some ht
  obtain ⟨t', ht'⟩ : ∃ t', d'.timelocks? = some t' := by
    unfold timelocks? at ht ⊢
    rw [h.locktime, h.hasRelativeTimelock_eq] at ht
    split at ht
    · cases ht
    · exact ⟨_, if_neg ‹_›⟩
  obtain ⟨ha', hl', hh', -⟩ := timelocks?_eq_some ht'
  have hactive : t'.active = t.active := by rw [ha, ha', h.hasRelativeTimelock_eq]
  refine ⟨t', ht', ?_, ?_⟩
  · funext i
    rw [Timelocks.sequence, Timelocks.sequence, hh, hh', hactive, Slots.get?_eq_of_perm h.inputs hi]
  · rw [Timelocks.nLockTime, Timelocks.nLockTime, hactive, hl, hl', h.locktime]

end Draft.Rearranged

namespace Wallet

variable {w w' : Wallet}

/-- With the same store and a rearranged draft only the timelocks are kept in another order. -/
theorem spending_eq_of_rearranged (hs : w.store = w'.store) (h : w.draft.Rearranged w'.draft)
    (hi : (w.draft.inputs.map Prod.fst).Nodup) (ho : (w.draft.outputs.map Prod.fst).Nodup)
    {t t' : Timelocks} (ht : w.draft.timelocks? = some t) (ht' : w'.draft.timelocks? = some t') :
    w'.spending = w.spending.map fun s => { s with timelocks := t' } := by
  have hread : w.readDescriptor = w'.readDescriptor := by
    funext text
    rw [readDescriptor, readDescriptor, hs]
  unfold spending
  simp only [ht, ht', ← h.checkIndices_eq hi ho, ← h.boundUtxos_eq hi, ← hread,
    ← Slots.sorted_eq_of_perm h.outputs ho]
  cases w.draft.checkIndices with
  | error e => rfl
  | ok _ =>
    cases w.draft.boundUtxos with
    | error e => rfl
    | ok us =>
      simp only [bind, Except.bind]
      cases us.mapM fun u => w.readDescriptor u.descriptor with
      | error e => rfl
      | ok ins =>
        dsimp only
        cases w.draft.outputs.sorted.values.mapM fun o => w.readDescriptor o.descriptor with
        | error e => rfl
        | ok outs => rfl

theorem assembled_eq_of_rearranged (h : w.draft.Rearranged w'.draft)
    (ho : (w.draft.outputs.map Prod.fst).Nodup) {s : Spending} {t : Timelocks}
    (hsequence : t.sequence = s.timelocks.sequence)
    (hlock : t.nLockTime = s.timelocks.nLockTime) :
    Unsigned.transaction <$> w'.assembled { s with timelocks := t } =
      Unsigned.transaction <$> w.assembled s := by
  have htx := Spending.transaction_toUnsigned hsequence hlock
  simp only [assembled, map_bind, ← h.outputValues_eq ho]
  refine bind_congr fun ins => bind_congr fun outs => bind_congr fun values => ?_
  exact congrArg Except.ok (htx values ins outs)

theorem prepared_eq_of_rearranged (hs : w.store = w'.store) (h : w.draft.Rearranged w'.draft)
    (hi : (w.draft.inputs.map Prod.fst).Nodup) (ho : (w.draft.outputs.map Prod.fst).Nodup) :
    Unsigned.transaction <$> w'.prepared = Unsigned.transaction <$> w.prepared := by
  cases ht : w.draft.timelocks? with
  | none =>
    have ht' := h.timelocks?_eq_none ht
    simp only [prepared, spending, ht, ht']
    rfl
  | some t =>
    obtain ⟨t', ht', hsequence, hlock⟩ := h.exists_timelocks hi ht
    rw [prepared, prepared, spending_eq_of_rearranged hs h hi ho ht ht']
    cases hsp : w.spending with
    | error e => rfl
    | ok s =>
      obtain rfl := Option.some.inj ((spending_eq_ok.mp hsp).timelocks.symm.trans ht)
      exact assembled_eq_of_rearranged h ho hsequence hlock

end Wallet

namespace Operation

/-- The inputs and the outputs of a prepared transaction are what the draft has under their indices,
which are filled from zero on. Where they are not, the draft is refused with the least index that is
missing, of the inputs first. Drafts with the same entries come to the same transaction, or are
refused for the same reason. -/
theorem prepared_by_index {s : Session} (hi : s.wallet.draft.inputs.Indexed)
    (ho : s.wallet.draft.outputs.Indexed) :
    (∀ (u : Unsigned) (t : Session), Answers prepare s u t → u.transaction.Follows s.wallet) ∧
    (s.wallet.draft.timelocks?.isSome = true →
      (¬ s.wallet.draft.inputs.Filled → ∃ k : Nat, s.wallet.draft.inputs.LacksFirst k ∧
        (runOn prepare s).1 = .error (.missingInput k)) ∧
      (s.wallet.draft.inputs.Filled → ¬ s.wallet.draft.outputs.Filled →
        ∃ k : Nat, s.wallet.draft.outputs.LacksFirst k ∧
          (runOn prepare s).1 = .error (.missingOutput k))) ∧
    ∀ s' : Session, s.wallet.store = s'.wallet.store →
      s.wallet.draft.Rearranged s'.wallet.draft →
      Unsigned.transaction <$> (runOn prepare s').1 =
        Unsigned.transaction <$> (runOn prepare s).1 := by
  refine ⟨fun u t h => h.prepared.2.follows hi ho, fun ht => ⟨fun hf => ?_, fun hif hf => ?_⟩,
    fun s' hs hd => ?_⟩
  · obtain ⟨k, hk⟩ := Option.ne_none_iff_exists'.mp (mt (Slots.hole?_eq_none hi).mp hf)
    refine ⟨k, Slots.lacksFirst_of_hole? hi hk, ?_⟩
    rw [fst_runOn_prepare]
    exact Wallet.prepared_of_checkIndices ht (by rw [Draft.checkIndices_eq, hk])
  · obtain ⟨k, hk⟩ := Option.ne_none_iff_exists'.mp (mt (Slots.hole?_eq_none ho).mp hf)
    refine ⟨k, Slots.lacksFirst_of_hole? ho hk, ?_⟩
    rw [fst_runOn_prepare]
    refine Wallet.prepared_of_checkIndices ht ?_
    rw [Draft.checkIndices_eq, (Slots.hole?_eq_none hi).mpr hif, hk]
  · rw [fst_runOn_prepare, fst_runOn_prepare]
    exact Wallet.prepared_eq_of_rearranged hs hd hi.once ho.once

end Operation

namespace TwoHeights

/-- The same draft, with its first input set first. -/
def inOrder : Session where
  wallet :=
    { store := session.wallet.store, draft := { draft with inputs := draft.inputs.reverse } }

/-- The input at index 1 was set before the one at index 0. -/
theorem indexed : draft.inputs.Indexed ∧ draft.outputs.Indexed :=
  ⟨(Slots.Indexed.nil.set (i := 1) (by decide)).set (i := 0) (by decide),
    Slots.Indexed.nil.set (i := 0) (by decide)⟩

theorem rearranged : draft.Rearranged inOrder.wallet.draft :=
  ⟨(List.reverse_perm _).symm, List.Perm.refl _, rfl, rfl⟩

/-- The input that was set last comes first, and it would if it had been set first. -/
theorem follows_indices : session.wallet.draft.inputs.Indexed ∧
    session.wallet.draft.outputs.Indexed ∧ unsigned.transaction.Follows session.wallet ∧
    Unsigned.transaction <$> (Operation.runOn Operation.prepare inOrder).1 =
      .ok unsigned.transaction := by
  obtain ⟨hi, ho⟩ := indexed
  obtain ⟨t, ht⟩ := prepares
  obtain ⟨hfollows, -, hsame⟩ := Operation.prepared_by_index (s := session) hi ho
  refine ⟨hi, ho, hfollows _ t ht, ?_⟩
  rw [hsame inOrder rfl rearranged, ht]
  rfl

end TwoHeights
end Taproot
