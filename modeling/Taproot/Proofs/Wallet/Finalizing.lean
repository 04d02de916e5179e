import Taproot.Proofs.Hash.Windows
import Taproot.Proofs.Transaction.Encoding
import Taproot.Proofs.Wallet.Accounting
import Taproot.Proofs.Wallet.Building
import Taproot.Proofs.Wallet.Outpoints

/-! # Finalized transactions

What is booked is the transaction that is signed: both have one id, the spent outputs leave the
records and those of the transaction join them, and the records lose what the transaction pays as
its fee.
-/
namespace Taproot

/-! ## Records of a transaction -/

section

variable {txid : Bytes} {index j : Nat} {ps : List (Nat × Descriptor)}

theorem getElem?_outputRecords : (outputRecords txid index ps)[j]? =
    ps[j]?.map fun p => ⟨.ofBytes txid, index + j, p.1, p.2.text⟩ := by
  induction ps generalizing index j with
  | nil => rfl
  | cons p ps ih =>
    obtain ⟨value, d⟩ := p
    cases j with
    | zero => rfl
    | succ j =>
      rw [outputRecords, List.getElem?_cons_succ, List.getElem?_cons_succ, ih, Nat.add_assoc,
        Nat.add_comm 1 j]

theorem length_outputRecords : (outputRecords txid index ps).length = ps.length := by
  induction ps generalizing index with
  | nil => rfl
  | cons p ps ih => rw [outputRecords, List.length_cons, ih, List.length_cons]

theorem text_of_outputRecords {r : Utxo} (h : r ∈ outputRecords txid index ps) :
    r.txid.text = txid.hex ∧ index ≤ r.vout := by
  obtain ⟨i, hi⟩ := List.mem_iff_getElem?.mp h
  rw [getElem?_outputRecords] at hi
  obtain ⟨p, -, rfl⟩ := Option.map_eq_some_iff.mp hi
  exact ⟨rfl, Nat.le_add_right index i⟩

theorem nodup_outputRecords : ((outputRecords txid index ps).map Utxo.outpoint).Nodup := by
  induction ps generalizing index with
  | nil => exact List.nodup_nil
  | cons p ps ih =>
    obtain ⟨value, d⟩ := p
    refine List.nodup_cons.mpr ⟨fun h => ?_, ih⟩
    obtain ⟨r, hr, he⟩ := List.mem_map.mp h
    have hlt := (text_of_outputRecords hr).2
    have heq := (Utxo.outpoint_inj.mp he).2
    dsimp only at heq
    omega

theorem sum_outputRecords :
    ((outputRecords txid index ps).map Utxo.value).sum = (ps.map Prod.fst).sum := by
  induction ps generalizing index with
  | nil => rfl
  | cons p ps ih =>
    obtain ⟨value, d⟩ := p
    rw [outputRecords, List.map_cons, List.sum_cons, ih, List.map_cons, List.sum_cons]

end

namespace Wallet

/-- Outputs at new outpoints join the end of the records. -/
theorem foldl_added_of_fresh {w : Wallet} {us : List Utxo} (hn : (us.map Utxo.outpoint).Nodup)
    (hf : ∀ u ∈ us, ∀ v ∈ w.utxos, v.outpoint ≠ u.outpoint) :
    us.foldl added w = { w with utxos := w.utxos ++ us } := by
  induction us generalizing w with
  | nil => rw [List.foldl_nil, List.append_nil]
  | cons u us ih =>
    obtain ⟨hu, hn⟩ := List.nodup_cons.mp hn
    rw [List.foldl_cons, added_of_fresh (hf u List.mem_cons_self), ih hn]
    · rw [List.append_assoc, List.singleton_append]
    · intro r hr v hv
      rcases List.mem_append.mp hv with hv | hv
      · exact hf r (List.mem_cons_of_mem u hr) v hv
      · obtain rfl := List.mem_singleton.mp hv
        exact fun he => hu (List.mem_map.mpr ⟨r, hr, he.symm⟩)

end Wallet

/-- Some input of the draft spends the output at the outpoint. -/
def Draft.binds (d : Draft) (outpoint : String) : Bool :=
  d.inputs.any fun e => e.2.utxo.any fun u => u.outpoint == outpoint

namespace Unsigned.Prepared

variable {w : Wallet} {u : Unsigned}

theorem spends_eq (h : u.Prepared w) : u.spends = w.draft.binds := by
  funext outpoint
  rw [Bool.eq_iff_iff, spends, List.contains_iff_mem, Draft.binds, List.any_eq_true]
  constructor
  · intro ho
    obtain ⟨v, hv, rfl⟩ := List.mem_map.mp ho
    obtain ⟨e, he, hu⟩ := forall₂_mem h.resolves.utxos hv
    exact ⟨e, (Slots.sorted_perm _).mem_iff.mp he, by simp [hu]⟩
  · rintro ⟨e, he, hany⟩
    obtain ⟨v, hv, hi⟩ :=
      forall₂_mem h.resolves.utxos.flip ((Slots.sorted_perm _).mem_iff.mpr he)
    rw [hi] at hany
    exact List.mem_map.mpr ⟨v, hv, by simpa using hany⟩

/-- Where outputs are recorded once, those that are spent are those whose outpoints are. -/
theorem filter_perm_spent (h : u.Prepared w) (hl : Ledger w.utxos w.draft.inputs) :
    (w.utxos.filter fun v => u.spends v.outpoint).Perm u.spending.utxos := by
  refine (List.perm_ext_iff_of_nodup ?_ ?_).mpr fun v => ?_
  · exact (hl.recorded_once.of_map _).filter _
  · exact (hl.nodup_spent h.resolves).of_map _
  · rw [List.mem_filter, spends, List.contains_iff_mem]
    constructor
    · rintro ⟨hv, ho⟩
      obtain ⟨v', hv', he⟩ := List.mem_map.mp ho
      obtain rfl := List.inj_on_of_nodup_map hl.recorded_once
        (hl.mem_of_spent h.resolves hv') hv he
      exact hv'
    · intro hv
      exact ⟨hl.mem_of_spent h.resolves hv, List.mem_map_of_mem hv⟩

theorem length_records (h : u.Prepared w) (txid : Bytes) :
    (u.records txid).length = u.transaction.outputs.length := by
  rw [records, length_outputRecords, payments, List.length_zip, List.length_map, h.length_outputs,
    Nat.min_self]

/-- The record of an output of the transaction, to the descriptor that the draft has there. -/
theorem getElem?_records (h : u.Prepared w) {txid : Bytes} {j : Nat} {o : TxOut}
    (ho : u.transaction.outputs[j]? = some o) : ∃ e d, ∃ value : Nat,
      w.draft.outputs.sorted[j]? = some e ∧ Descriptor.read w.store e.2.descriptor = .ok d ∧
      o.value = value ∧ (u.records txid)[j]? = some ⟨.ofBytes txid, j, value, d.text⟩ := by
  obtain ⟨values, outs, he, -⟩ := h.exists_values
  obtain ⟨value, -, hvalue⟩ := getElem?_txOuts (he ▸ ho)
  have hj : j < u.spending.outputs.length := by
    rw [← h.length_outputs]
    exact (List.getElem?_eq_some_iff.mp ho).1
  obtain ⟨d, hd⟩ : ∃ d, u.spending.outputs[j]? = some d := ⟨_, List.getElem?_eq_getElem hj⟩
  obtain ⟨e, he, hread⟩ := forall₂_getElem? h.resolves.outputs hd
  refine ⟨e, d, value, he, hread, hvalue, ?_⟩
  have hp : u.payments[j]? = some (value, d) := by
    rw [payments, List.getElem?_zip_eq_some, List.getElem?_map, ho]
    refine ⟨?_, hd⟩
    rw [Option.map_some, hvalue, Int.toNat_natCast]
  rw [records, getElem?_outputRecords, hp, Nat.zero_add]
  rfl

end Unsigned.Prepared

/-- Records at the same outpoints are the same, where outputs are recorded once. -/
theorem eq_of_outpoints {us rs cs : List Utxo} (hn : (us.map Utxo.outpoint).Nodup)
    (h : List.Forall₂ (fun r c => c ∈ us ∧ c.outpoint = r.outpoint) rs cs)
    (hr : ∀ r ∈ rs, r ∈ us) : cs = rs := by
  induction h with
  | nil => rfl
  | @cons r c rs cs hc _ ih =>
    rw [List.inj_on_of_nodup_map hn hc.1 (hr r List.mem_cons_self) hc.2,
      ih fun r' hr' => hr r' (List.mem_cons_of_mem r hr')]

namespace Wallet.Booked

variable {w w' : Wallet} {u : Unsigned} {txid : Bytes} {chain : Bool} {created : List Utxo}

/-- Where the id is new, the records of the transaction join those that stay. -/
theorem of_new (h : w.Booked u txid chain created w') (hl : Ledger w.utxos w.draft.inputs)
    (hnew : ∀ v ∈ w.utxos, v.txid.text ≠ txid.hex) : created = u.records txid ∧
      w' = { w with
        utxos := (w.utxos.filter fun v => !u.spends v.outpoint) ++ u.records txid
        draft := if chain then Draft.chained created else {} } := by
  have hfresh : ∀ r ∈ u.records txid, ∀ v ∈ w.utxos.filter (fun v => !u.spends v.outpoint),
      v.outpoint ≠ r.outpoint := by
    intro r hr v hv he
    refine hnew v (List.mem_of_mem_filter hv) ?_
    rw [(Utxo.outpoint_inj.mp he).1, (text_of_outputRecords hr).1]
  have hadded := foldl_added_of_fresh
    (w := { w with utxos := w.utxos.filter fun v => !u.spends v.outpoint })
    nodup_outputRecords hfresh
  have hw := h.wallet
  rw [bookedRecords, Unsigned.records, hadded] at hw
  -- what the booking answers is recorded at the outpoints of the transaction, each of them once
  have hnodup : (w'.utxos.map Utxo.outpoint).Nodup := by
    rw [hw, List.map_append, List.nodup_append]
    refine ⟨hl.recorded_once.sublist (List.filter_sublist.map _), nodup_outputRecords, ?_⟩
    intro a ha b hb
    obtain ⟨v, hv, rfl⟩ := List.mem_map.mp ha
    obtain ⟨r, hr, rfl⟩ := List.mem_map.mp hb
    exact hfresh r hr v hv
  refine ⟨eq_of_outpoints hnodup h.recorded fun r hr => ?_, hw⟩
  rw [hw]
  exact List.mem_append_right _ hr

end Wallet.Booked

/-! ## The balance -/

/-- The total of the recorded outputs. -/
def Wallet.balance (w : Wallet) : Nat := (w.utxos.map Utxo.value).sum

namespace Unsigned.Prepared

variable {w : Wallet} {u : Unsigned}

theorem sum_records (h : u.Prepared w) (txid : Bytes) :
    (((u.records txid).map Utxo.value).sum : Int) = totalValue u.transaction.outputs := by
  obtain ⟨values, outs, he, hl, -⟩ := h.exists_values
  have hp : u.payments.map Prod.fst = values := by
    rw [payments, List.map_fst_zip (by rw [List.length_map, h.length_outputs]), he,
      map_value_txOuts hl]
  rw [records, sum_outputRecords, hp, he, totalValue_txOuts hl]

/-- The records lose what is spent and gain what is paid. -/
theorem balance_records (h : u.Prepared w) (hl : Ledger w.utxos w.draft.inputs) (txid : Bytes) :
    (w.balance : Int) - (((w.utxos.filter fun v => !u.spends v.outpoint) ++
      u.records txid).map Utxo.value).sum =
    totalValue u.spent - totalValue u.transaction.outputs := by
  -- the records are those that are spent and those that stay
  have hsplit := ((List.filter_append_perm (fun v => u.spends v.outpoint) w.utxos).map
    Utxo.value).sum_eq
  have hspent := ((h.filter_perm_spent hl).map Utxo.value).sum_eq
  have hrecords := h.sum_records txid
  rw [List.map_append, List.sum_append, hspent] at hsplit
  rw [Wallet.balance, List.map_append, List.sum_append, h.totalValue_spent]
  omega

end Unsigned.Prepared

/-! ## The id -/

theorem Transaction.txid_withWitnesses {tx : Transaction} {ws : List SpendWitness}
    (h : tx.inputs.length = ws.length) : (tx.withWitnesses ws).txid = tx.txid := by
  have hi := encodeAll_zipWith (f := TxIn.encode)
    (g := fun (i : TxIn) (w : SpendWitness) => { i with witness := w.items }) (fun _ _ => rfl) h
  have hl := length_withWitnesses h
  simp only [txid, encodeBase, encodeWith, hl]
  simp only [withWitnesses, hi]

/-- The places that are spent and the values that are paid fit their fields. -/
structure Transaction.NumbersFit (tx : Transaction) : Prop where
  places : ∀ i ∈ tx.inputs, i.vout < Bytes.bound 4
  outputs : ∀ o ∈ tx.outputs, o.value < Bytes.bound 8

namespace Unsigned.Prepared

variable {w : Wallet} {u : Unsigned}

/-- Only the places and the values of a transaction can be too large for an id. -/
theorem exists_txid (h : u.Prepared w) (hw : w.Reachable) :
    (∃ id, u.transaction.txid = .ok id) ↔ u.transaction.NumbersFit := by
  have hfour : Bytes.bound 4 = 4294967296 := rfl
  have hlocktime := hw.inRange.nLockTime_lt h.resolves.timelocks
  have hinputs : ∀ i ∈ u.transaction.inputs, 0 ≤ i.vout ∧
      (0 ≤ i.sequence ∧ i.sequence < Bytes.bound 4) := by
    intro i hi
    obtain ⟨j, hj⟩ := List.mem_iff_getElem?.mp hi
    rw [h.getElem?_inputs] at hj
    obtain ⟨v, -, rfl⟩ := Option.map_eq_some_iff.mp hj
    have hle := hw.inRange.sequence_le (i := j) h.resolves.timelocks
    rw [finalSequence] at hle
    exact ⟨Int.natCast_nonneg _, Int.natCast_nonneg _, by dsimp only; omega⟩
  have houtputs : ∀ o ∈ u.transaction.outputs, 0 ≤ o.value := by
    obtain ⟨values, outs, he, -⟩ := h.exists_values
    intro o ho
    obtain ⟨j, hj⟩ := List.mem_iff_getElem?.mp ho
    obtain ⟨value, -, hvalue⟩ := getElem?_txOuts (he ▸ hj)
    omega
  rw [Transaction.exists_txid, h.version_eq, h.locktime_eq]
  constructor
  · rintro ⟨-, hi, ho, -⟩
    exact ⟨fun i hm => (hi i hm).1.2, fun o hm => (ho o hm).2⟩
  · rintro ⟨hi, ho⟩
    refine ⟨by decide, fun i hm => ?_, fun o hm => ⟨houtputs o hm, ho o hm⟩, ?_⟩
    · obtain ⟨hv, hs⟩ := hinputs i hm
      exact ⟨⟨hv, hi i hm⟩, hs⟩
    · omega

end Unsigned.Prepared

namespace Operation

/-- The transaction that is built has the id and the values of the one that was prepared. -/
theorem built_of_prepared {s r t : Session} {u : Unsigned} {b : Built}
    (hu : Answers prepare s u r) (hb : Answers build s b t) : u.transaction.txid = .ok b.txid ∧
      (b.fee : Int) = totalValue u.spent - totalValue u.transaction.outputs := by
  obtain ⟨u', r', t', hu', hws, hbuilt, -⟩ := answers_build.mp hb
  obtain ⟨rfl, rfl⟩ := hu.unique hu'
  obtain ⟨-, hp⟩ := hu.prepared
  obtain ⟨-, hl, -⟩ := hws.signInputs
  have hinputs : u.transaction.inputs.length = b.witnesses.length := by
    rw [← hp.length_commitments, hl]
  constructor
  · have htxid := hbuilt.txid
    rwa [hbuilt.transaction, Transaction.txid_withWitnesses hinputs] at htxid
  · have houts : b.transaction.outputs = u.transaction.outputs := by
      rw [hbuilt.transaction]
      rfl
    have hle := hp.totalValue_outputs_le
    rw [hbuilt.fee, houts]
    omega

end Operation

/-! ## Finalizing -/

namespace Operation

variable {s : Session}

/-- What is prepared can be finalized, where its id is computed and is the one that is given. -/
theorem exists_answers_finalize {r : Session} {u : Unsigned} {id : Bytes} {given : Option String}
    (hu : Answers prepare s u r) (hid : u.transaction.txid = .ok id)
    (hbook : u.Bookable s.wallet)
    (hgiven : ∀ text ∈ given, Text.lower (Text.strip text) = id.hex) (chain : Bool) :
    ∃ created t, Answers (finalize given chain) s created t ∧
      s.wallet.Booked u id chain created t.wallet := by
  have hw : r.wallet = s.wallet := hu.prepared.1.1
  have hcheck : Answers (checkTxid given id) r () r := answers_checkTxid.mpr ⟨hgiven, rfl⟩
  rw [← hw] at hbook ⊢
  obtain ⟨created, t, ht⟩ := hbook.exists_answers_book hid chain
  refine ⟨created, t, ?_, ht.booked_wallet⟩
  rw [finalize_eq]
  have hencode : Answers (ofExcept .encoding u.transaction.txid) r id r :=
    answers_ofExcept.mpr ⟨hid, rfl⟩
  have hplaces : Answers (writePlaces u) r () r := answers_writePlaces.mpr ⟨hbook, rfl⟩
  exact hu.bind (hencode.bind (hcheck.bind (hplaces.bind ht)))

/-- A prepared draft is refused with the error with which the id of its transaction is. -/
theorem finalize_of_txid_error {r : Session} {e : EncodingError} (hu : Answers prepare s u r)
    (hid : u.transaction.txid = .error e) (given : Option String) (chain : Bool) :
    runOn (finalize given chain) s = (.error (.encoding e), r) := by
  rw [finalize_eq, runOn_bind, hu]
  dsimp only
  rw [runOn_bind, hid, runOn_ofExcept_error]

/-- A draft that can be prepared is booked as the transaction that is built from it, where its
numbers fit their fields and the places can be written. -/
theorem finalize_books {r : Session} {u : Unsigned} {given : Option String} (chain : Bool)
    (hs : s.wallet.Reachable) (hu : Answers prepare s u r) (hfit : u.transaction.NumbersFit)
    (hbook : u.Bookable s.wallet)
    (hnew : ∀ id, u.transaction.txid = .ok id → ∀ v ∈ s.wallet.utxos, v.txid.text ≠ id.hex)
    (hgiven : ∀ id, u.transaction.txid = .ok id →
      ∀ text ∈ given, Text.lower (Text.strip text) = id.hex) :
    ∃ id created first t, u.transaction.txid = .ok id ∧
      Answers (finalize given chain) s created t ∧
      created.length = u.transaction.outputs.length ∧ created[0]? = some first ∧
      (∀ (j : Nat) (o : TxOut), u.transaction.outputs[j]? = some o →
        ∃ (e : Int × DraftOutput) (d : Descriptor) (value : Nat),
        s.wallet.draft.outputs.sorted[j]? = some e ∧
        Descriptor.read s.wallet.store e.2.descriptor = .ok d ∧ o.value = value ∧
        created[j]? = some ⟨.ofBytes id, j, value, d.text⟩) ∧
      t.wallet = { s.wallet with
        utxos := (s.wallet.utxos.filter fun v => !s.wallet.draft.binds v.outpoint) ++ created
        draft := if chain then { inputs := [(0, { utxo := some first })] } else {} } ∧
      (s.wallet.balance : Int) - t.wallet.balance =
        totalValue u.spent - totalValue u.transaction.outputs ∧
      ∀ (b : Built) (t' : Session), Answers build s b t' → b.txid = id ∧
        (b.fee : Int) = totalValue u.spent - totalValue u.transaction.outputs := by
  obtain ⟨-, hp⟩ := hu.prepared
  have hl := hs.ledger
  obtain ⟨id, hid⟩ := (hp.exists_txid hs).mpr hfit
  obtain ⟨created, t, hfinal, hbooked⟩ := exists_answers_finalize hu hid hbook (hgiven id hid) chain
  obtain ⟨hcreated, hwallet⟩ := hbooked.of_new hl (hnew id hid)
  have hlength : created.length = u.transaction.outputs.length := by
    rw [hcreated, hp.length_records]
  obtain ⟨first, hfirst⟩ : ∃ first, created[0]? = some first :=
    ⟨_, List.getElem?_eq_getElem (hlength ▸ hp.outputs_pos)⟩
  refine ⟨id, created, first, t, hid, hfinal, hlength, hfirst, fun j o ho => ?_, ?_, ?_,
    fun b t' hb => ?_⟩
  · rw [hcreated]
    exact hp.getElem?_records ho
  · have hchained : Draft.chained created = { inputs := [(0, { utxo := some first })] } := by
      cases created with
      | nil => cases hfirst
      | cons c cs => rw [Draft.chained, Option.some.inj hfirst]
    rw [hwallet, hchained, hcreated, hp.spends_eq]
  · rw [hwallet, hcreated]
    exact hp.balance_records hl id
  · obtain ⟨htxid, hfee⟩ := built_of_prepared hu hb
    exact ⟨Except.ok.inj (htxid.symm.trans hid), hfee⟩

end Operation

namespace TwoPayments

open Operation
open TwoHeights (keyOnly)

/-- The id of the transaction that spends both payments. -/
def id : Bytes :=
  Bytes.ofNatBE 32 0x984c7eea3d2d46a6e2d37b40d225398637ab0d011350314509ad9b2dfa8c7b3f

/-- The id as it may be typed. -/
def typed : String := " 984C7EEA3D2D46A6E2D37B40D225398637AB0D011350314509AD9B2DFA8C7B3F\n"

theorem txid_eq : (unsigned first second).transaction.txid = .ok id := by
  simp only [Transaction.txid, hash256, sha256_eq_by]
  decide +kernel

def change : Utxo := ⟨.ofBytes id, 0, 119500, keyOnly⟩

theorem transaction_fits : (unsigned first second).transaction.NumbersFit where
  places := by decide +kernel
  outputs := by decide +kernel

theorem bookable (a b : HexText) : (unsigned a b).Bookable (session a b).wallet where
  spent := both_writable a b
  recorded := both_writable a b
  created := Text.isWritable_of_lt (by decide : 1 < 10 ^ 20)

/-- Both payments leave the records, and what the transaction pays joins them and is spent next. -/
theorem booked : (session first second).wallet.Reachable ∧
    (∃ t, Operation.Answers Operation.prepare (session first second) (unsigned first second) t) ∧
    (unsigned first second).transaction.NumbersFit ∧
    (unsigned first second).Bookable (session first second).wallet ∧
    (∀ id', (unsigned first second).transaction.txid = .ok id' →
      ∀ v ∈ (session first second).wallet.utxos, v.txid.text ≠ id'.hex) ∧
    (∀ id', (unsigned first second).transaction.txid = .ok id' →
      ∀ text ∈ some typed, Text.lower (Text.strip text) = id'.hex) ∧
    ∃ t, Operation.Answers (Operation.finalize (some typed) true) (session first second)
        [change] t ∧
      t.wallet = { store, utxos := [change], draft := Draft.chained [change] } ∧
      ((session first second).wallet.balance : Int) - t.wallet.balance = 500 := by
  have hr : (session first second).wallet.Reachable :=
    reachable accepted.1 accepted.2.1 (by decide +kernel)
  obtain ⟨s, hs⟩ := prepares first second
  have hnew : ∀ id', (unsigned first second).transaction.txid = .ok id' →
      ∀ v ∈ (session first second).wallet.utxos, v.txid.text ≠ id'.hex := by
    intro id' hid
    obtain rfl := Except.ok.inj (txid_eq.symm.trans hid)
    decide +kernel
  have hgiven : ∀ id', (unsigned first second).transaction.txid = .ok id' →
      ∀ text ∈ some typed, Text.lower (Text.strip text) = id'.hex := by
    rintro id' hid text ⟨⟩
    obtain rfl := Except.ok.inj (txid_eq.symm.trans hid)
    decide +kernel
  refine ⟨hr, ⟨s, hs⟩, transaction_fits, bookable first second, hnew, hgiven, ?_⟩
  obtain ⟨id', created, c, t, hid, ht, hlength, hfirst, hrecords, hwallet, hbalance, -⟩ :=
    Operation.finalize_books true hr hs transaction_fits (bookable first second) hnew hgiven
  obtain rfl := Except.ok.inj (txid_eq.symm.trans hid)
  obtain ⟨e, d, value, he, hd, hvalue, hc⟩ := hrecords 0 _ rfl
  have hsorted : (session first second).wallet.draft.outputs.sorted[0]? =
      some (0, ⟨keyOnly, some 119500⟩) := by
    rw [session, outputs_sorted]
    rfl
  obtain rfl := Option.some.inj (hsorted.symm.trans he)
  obtain rfl := Except.ok.inj (reads.symm.trans hd)
  have hvalue : value = 119500 := Int.ofNat.inj hvalue.symm
  obtain rfl : c = change := by
    rw [hfirst, text_eq, hvalue] at hc
    exact Option.some.inj hc
  obtain rfl : created = [change] := by
    obtain ⟨x, rfl⟩ := List.length_eq_one_iff.mp hlength
    exact congrArg (fun c => [c]) (Option.some.inj hfirst)
  have hkept : (session first second).wallet.utxos.filter
      (fun v => !(session first second).wallet.draft.binds v.outpoint) = [] := by
    decide +kernel
  have hw : t.wallet = { store, utxos := [change], draft := Draft.chained [change] } := by
    rw [hwallet, hkept]
    rfl
  exact ⟨t, ht, hw, hbalance⟩

/-! ## A place that does not fit -/

/-- A payment at a place beyond those of four bytes. -/
def farUtxo : Utxo := ⟨first, 4294967296, 60000, keyOnly⟩

def farSession : Session where
  wallet :=
    { store, utxos := [farUtxo]
      draft :=
        { inputs := [(0, { utxo := some farUtxo })], outputs := [(0, ⟨keyOnly, some 59500⟩)] } }

def farSpending : Spending where
  timelocks := ⟨false, none, [(0, none)]⟩
  utxos := [farUtxo]
  inputs := [descriptor]
  outputs := [descriptor]

def farUnsigned : Unsigned := farSpending.toUnsigned [59500] [commitment] [commitment]

theorem far_writable : farUtxo.Writable where
  vout := Text.isWritable_of_lt (by decide : 4294967296 < 10 ^ 20)
  value := Text.isWritable_of_lt (by decide : 60000 < 10 ^ 20)

theorem far_reachable : farSession.wallet.Reachable := by
  have himport : Wallet.Reachable { store } :=
    imports ▸ Wallet.Reachable.empty.step (s := { wallet := {} }) .regtest (.importKey keyText true)
  have hset := himport.receive (Wallet.readDescriptor_eq_ok.mpr reads)
  have hfund := hset.fund rfl accepted.1 far_writable nofun
  rw [text_eq, Wallet.added_of_fresh (by simp)] at hfund
  have hplaces : ∀ v ∈ [farUtxo], Text.isWritable v.vout = true :=
    List.forall_mem_singleton.mpr far_writable.vout
  have hindex : Text.isWritable (0 : Nat) = true := Text.isWritable_of_lt (by decide)
  have hbound := hfund.bind (j := 0) (u := farUtxo) rfl rfl hindex hplaces
  have hpaid := hbound.pay (Wallet.readDescriptor_eq_ok.mpr reads) hindex
    (Text.isWritable_of_lt (by decide : 59500 < 10 ^ 20))
  rw [text_eq] at hpaid
  exact hpaid

theorem far_prepares : ∃ t, Answers prepare farSession farUnsigned t := by
  have hinputs : farSession.wallet.draft.inputs.sorted = [(0, { utxo := some farUtxo })] := by
    simp [Slots.sorted, farSession]
  have houtputs : farSession.wallet.draft.outputs.sorted = [(0, ⟨keyOnly, some 59500⟩)] := by
    simp [Slots.sorted, farSession]
  have hindices : farSession.wallet.draft.checkIndices = .ok () := by
    simp only [Draft.checkIndices, Slots.firstGap, hinputs, houtputs]
    rfl
  have hresolves : farSpending.Resolves farSession.wallet :=
    ⟨rfl, hindices, hinputs ▸ .cons rfl .nil, .cons reads .nil, houtputs ▸ .cons reads .nil⟩
  have hvalues : farSession.wallet.draft.outputValues farSpending.available = .ok [59500] := by
    have hgiven : farSession.wallet.draft.givenValues = [some 59500] := by
      rw [Draft.givenValues, houtputs]
      rfl
    rw [Draft.outputValues, Draft.required, hgiven]
    rfl
  exact ⟨_, answers_prepare.mpr ⟨farSpending, [commitment], [commitment], [59500], hresolves,
    .cons commits .nil, .cons commits .nil, hvalues, rfl, rfl⟩⟩

theorem far_unencoded : farUnsigned.transaction.txid = .error .fieldOverflow := by
  decide +kernel

/-- The draft that spends it is prepared, and no id that a record could carry is computed; but it is
not finalized. -/
theorem far_not_booked : farSession.wallet.Reachable ∧
    (∃ r, Answers prepare farSession farUnsigned r) ∧
    (∀ id', farUnsigned.transaction.txid = .ok id' →
      ∀ v ∈ farSession.wallet.utxos, v.txid.text ≠ id'.hex) ∧
    ∀ chain created t, ¬ Answers (finalize none chain) farSession created t := by
  obtain ⟨r, hr⟩ := far_prepares
  refine ⟨far_reachable, ⟨r, hr⟩, fun id' hid => ?_, fun chain created t h => ?_⟩
  · cases far_unencoded.symm.trans hid
  · have hrefused := finalize_of_txid_error hr far_unencoded none chain
    cases hrefused.symm.trans h

end TwoPayments
end Taproot
