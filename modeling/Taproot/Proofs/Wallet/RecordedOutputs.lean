import Taproot.Proofs.Wallet.Finalizing

/-! # Outputs as they are recorded

What is answered for a payment or for an output of a finalized transaction is on record at the
outpoint that was asked for. It has the value and the descriptor that were given, unless an output
was on record at the outpoint before: then it is that one.
-/
namespace Taproot

/-! ## Answers for records -/

namespace Wallet

variable {w w' : Wallet}

theorem mem_or_mem_of_foldl_added {us : List Utxo} {v : Utxo}
    (h : v ∈ (us.foldl added w).utxos) : v ∈ w.utxos ∨ v ∈ us := by
  induction us generalizing w with
  | nil => exact .inl h
  | cons u us ih =>
    rcases ih h with hv | hv
    · rcases w.added_cases u with ⟨ha, -⟩ | ⟨ha, -⟩
      · rw [ha] at hv
        exact .inl hv
      · rw [ha] at hv
        rcases List.mem_append.mp hv with hv | hv
        · exact .inl hv
        · exact .inr (List.mem_singleton.mp hv ▸ List.mem_cons_self)
    · exact .inr (List.mem_cons_of_mem u hv)

/-- What is answered for a record is on record: the record itself, or one that was there before. -/
structure AnswersFor (before after : Wallet) (given answer : Utxo) : Prop where
  recorded : answer ∈ after.utxos
  outpoint : answer.outpoint = given.outpoint
  older_or_given : answer ∈ before.utxos ∨ answer = given

/-- The outputs of one transaction have different outpoints, so that none of them is answered for
another one. -/
theorem Booked.answersFor {u : Unsigned} {txid : Bytes} {chain : Bool} {created : List Utxo}
    (h : w.Booked u txid chain created w') {j : Nat} {c : Utxo} (hc : created[j]? = some c) :
    ∃ r, (u.records txid)[j]? = some r ∧ w.AnswersFor w' r c := by
  obtain ⟨r, hr, hm, ho⟩ := forall₂_getElem? h.recorded hc
  refine ⟨r, hr, hm, ho, ?_⟩
  rw [h.wallet] at hm
  rcases mem_or_mem_of_foldl_added hm with hold | hnew
  · exact .inl (List.mem_of_mem_filter hold)
  · exact .inr (List.inj_on_of_nodup_map nodup_outputRecords hnew (List.mem_of_getElem? hr) ho)

end Wallet

namespace Operation

variable {s t : Session}

theorem Answers.addUtxo {u c : Utxo} (h : Answers (addUtxo u) s c t) :
    s.wallet.AnswersFor t.wallet u c := by
  obtain ⟨hw, hm, ho⟩ := h.wallet_addUtxo
  refine ⟨hm, ho, ?_⟩
  rw [hw] at hm
  rcases s.wallet.added_cases u with ⟨hadded, -⟩ | ⟨hadded, -⟩
  · rw [hadded] at hm
    exact .inl hm
  · rw [hadded] at hm
    exact (List.mem_append.mp hm).imp_right List.mem_singleton.mp

/-- The session whose inbound descriptor is free again. -/
def freed (s : Session) : Session := { s with wallet := { s.wallet with inbound := none } }

theorem answers_fundInbound {txid : String} {vout value : Int} {c : Utxo} :
    Answers (fundInbound (.str txid) (.int vout) (.int value)) s c t ↔
      ∃ u, (HexText.ofString txid = .ok u.txid ∧ (u.vout : Int) = vout ∧ (u.value : Int) = value) ∧
        s.wallet.inbound = some u.descriptor ∧ Answers (addUtxo u) (freed s) c t := by
  have hfields : ∀ {text : String} {u : Utxo}, Utxo.ofJson (.obj [("txid", .str txid),
      ("vout", .int vout), ("value", .int value), ("descriptor", .str text)]) = .ok u ↔
      (HexText.ofString txid = .ok u.txid ∧ (u.vout : Int) = vout ∧ (u.value : Int) = value) ∧
        text = u.descriptor := by
    intro text u
    rw [Utxo.ofJson_eq_ok, Json.checkHex_eq_pass, Json.checkNatural_int, Json.checkNatural_int]
    simp
  simp only [fundInbound, answers_bind, answers_wallet]
  constructor
  · rintro ⟨_, _, ⟨rfl, rfl⟩, h⟩
    cases hi : s.wallet.inbound with
    | none =>
      rw [hi] at h
      exact absurd h not_answers_throw
    | some text =>
      rw [hi] at h
      simp only [answers_bind, answers_ofExcept, answers_edit, hfields] at h
      obtain ⟨u, _, ⟨⟨hu, rfl⟩, rfl⟩, _, _, rfl, ha⟩ := h
      exact ⟨u, hu, rfl, ha⟩
  · rintro ⟨u, hu, hi, ha⟩
    refine ⟨_, _, ⟨rfl, rfl⟩, ?_⟩
    rw [hi]
    simp only [answers_bind, answers_ofExcept, answers_edit, hfields]
    exact ⟨u, s, ⟨⟨hu, rfl⟩, rfl⟩, (), freed s, rfl, ha⟩

/-- A draft that is finalized was prepared, and its transaction is booked. -/
theorem Answers.finalized {given : Option String} {chain : Bool} {created : List Utxo}
    (h : Answers (finalize given chain) s created t) :
    ∃ u r id, Answers prepare s u r ∧ u.transaction.txid = .ok id ∧
      s.wallet.Booked u id chain created t.wallet := by
  rw [finalize_eq] at h
  simp only [answers_bind, answers_ofExcept] at h
  obtain ⟨u, r, hu, id, _, ⟨hid, rfl⟩, _, r', hcheck, _, r'', hplaces, hbook⟩ := h
  have hw : r''.wallet = s.wallet :=
    ((reads_writePlaces u).wallet_eq hplaces).trans
      (((reads_checkTxid given id).wallet_eq hcheck).trans hu.prepared.1.1)
  exact ⟨u, r, id, hu, hid, hw ▸ hbook.booked_wallet⟩

/-! ## Payments and finalized transactions -/

/-- What is answered for a payment, and for each output of a finalized transaction, is on record at
its outpoint. Where no output was on record there before, it has the value that was given or that
the transaction pays, and the descriptor that was set or that the draft pays to. -/
theorem recorded_as_given (s : Session) :
    (∀ (txid : String) (vout value : Int) (u : Utxo) (t : Session),
      Answers (fundInbound (.str txid) (.int vout) (.int value)) s u t →
      u ∈ t.wallet.utxos ∧ u.txid.text = Text.lower txid ∧ (u.vout : Int) = vout ∧
      (u ∈ s.wallet.utxos ∨
        (u.value : Int) = value ∧ s.wallet.inbound = some u.descriptor)) ∧
    (∀ (given : Option String) (chain : Bool) (created : List Utxo) (t : Session),
      Answers (finalize given chain) s created t →
      ∃ (unsigned : Unsigned) (r : Session) (id : Bytes), Answers prepare s unsigned r ∧
        unsigned.transaction.txid = .ok id ∧
        created.length = unsigned.transaction.outputs.length ∧
        t.wallet.draft = (if chain then Draft.chained created else {}) ∧
        ∀ (j : Nat) (c : Utxo), created[j]? = some c →
          c ∈ t.wallet.utxos ∧ c.txid.text = id.hex ∧ c.vout = j ∧
          (c ∈ s.wallet.utxos ∨
            ∃ (o : TxOut) (e : Int × DraftOutput) (d : Descriptor),
              unsigned.transaction.outputs[j]? = some o ∧ (c.value : Int) = o.value ∧
              s.wallet.draft.outputs.sorted[j]? = some e ∧
              Descriptor.read s.wallet.store e.2.descriptor = .ok d ∧ c.descriptor = d.text)) := by
  constructor
  · intro txid vout value c t h
    obtain ⟨u, ⟨htxid, hvout, hvalue⟩, hinbound, ha⟩ := answers_fundInbound.mp h
    have hanswer := ha.addUtxo
    obtain ⟨htext, hplace⟩ := Utxo.outpoint_inj.mp hanswer.outpoint
    refine ⟨hanswer.recorded, ?_, ?_, ?_⟩
    · rw [htext, HexText.text_ofString htxid]
    · rw [hplace, hvout]
    · rcases hanswer.older_or_given with hold | rfl
      · exact .inl hold
      · exact .inr ⟨hvalue, hinbound⟩
  · intro given chain created t h
    obtain ⟨u, r, id, hu, hid, hb⟩ := h.finalized
    obtain ⟨-, hp⟩ := hu.prepared
    have hlength : created.length = u.transaction.outputs.length := by
      rw [← hb.recorded.length_eq, hp.length_records]
    refine ⟨u, r, id, hu, hid, hlength, by rw [hb.wallet], fun j c hc => ?_⟩
    obtain ⟨record, hr, hanswer⟩ := hb.answersFor hc
    obtain ⟨o, ho⟩ : ∃ o, u.transaction.outputs[j]? = some o := by
      have hj := (List.getElem?_eq_some_iff.mp hc).1
      exact ⟨_, List.getElem?_eq_getElem (hlength ▸ hj)⟩
    obtain ⟨e, d, value, he, hd, hvalue, hrecord⟩ := hp.getElem?_records ho
    obtain rfl := Option.some.inj (hr.symm.trans hrecord)
    obtain ⟨htext, hplace⟩ := Utxo.outpoint_inj.mp hanswer.outpoint
    refine ⟨hanswer.recorded, htext, hplace, ?_⟩
    rcases hanswer.older_or_given with hold | rfl
    · exact .inl hold
    · exact .inr ⟨o, e, d, ho, hvalue.symm, he, hd, rfl⟩

end Operation

namespace TwoPayments

open Operation
open TwoHeights (keyOnly)

/-- The wallet waits for a payment to the key beside what is on record. -/
def expecting (utxos : List Utxo) : Session where
  wallet := { store, inbound := some keyOnly, utxos }

theorem funds : ∃ u t,
    Answers (fundInbound (.str firstText) (.int 0) (.int (60000 : Nat))) (expecting []) u t := by
  obtain ⟨c, t, ha⟩ := exists_answers_addUtxo (s := freed (expecting [])) (writable first) nofun
  exact ⟨c, t, answers_fundInbound.mpr ⟨_, ⟨accepted.1, rfl, rfl⟩, rfl, ha⟩⟩

/-- Where nothing is on record at the outpoints, a payment and an output of a transaction are
recorded as they are. -/
theorem recorded_new :
    (∃ u t,
      Answers (fundInbound (.str firstText) (.int 0) (.int (60000 : Nat))) (expecting []) u t ∧
      u ∈ t.wallet.utxos ∧ u.value = 60000 ∧ u.descriptor = keyOnly) ∧
    ∃ created c t, Answers (finalize none true) (session first second) created t ∧
      created[0]? = some c ∧ c ∈ t.wallet.utxos ∧ c.value = 119500 := by
  constructor
  · obtain ⟨u, t, hu⟩ := funds
    obtain ⟨hm, -, -, hold | ⟨hvalue, hinbound⟩⟩ := (recorded_as_given _).1 _ _ _ _ _ hu
    · cases hold
    · exact ⟨u, t, hu, hm, by omega, (Option.some.inj hinbound).symm⟩
  · obtain ⟨s, hs⟩ := prepares first second
    have hgiven : ∀ text ∈ (none : Option String), Text.lower (Text.strip text) = id.hex := nofun
    obtain ⟨created, t, ht, -⟩ :=
      exists_answers_finalize hs txid_eq (bookable first second) hgiven true
    obtain ⟨u, r, id', hu, hid, hlength, -, hrecords⟩ := (recorded_as_given _).2 _ _ _ _ ht
    obtain ⟨rfl, rfl⟩ := hs.unique hu
    obtain rfl := Except.ok.inj (txid_eq.symm.trans hid)
    have hone : 0 < created.length := by
      rw [hlength]
      decide
    have hc := List.getElem?_eq_getElem hone
    obtain ⟨hm, htext, -, hold | ⟨o, e, d, ho, hvalue, -⟩⟩ := hrecords 0 _ hc
    · have hother : ∀ v ∈ (session first second).wallet.utxos, v.txid.text ≠ id.hex := by
        decide +kernel
      exact absurd htext (hother _ hold)
    · obtain rfl := Option.some.inj ho
      exact ⟨created, _, t, ht, hc, hm, Int.ofNat.inj hvalue⟩

/-- A payment under the id of the transaction which spends the other two. -/
def foretold : Utxo := utxo (.ofBytes id)

def foretelling : Session where
  wallet := { (session first second).wallet with utxos := [utxo first, utxo second, foretold] }

theorem expecting_reachable : (expecting [utxo first]).wallet.Reachable := by
  have himport : Wallet.Reachable { store } :=
    imports ▸ Wallet.Reachable.empty.step (s := { wallet := {} }) .regtest (.importKey keyText true)
  have hpaid : Wallet.Reachable { store, utxos := [utxo first] } :=
    paid himport rfl nofun accepted.1 (by simp)
  have hset := hpaid.receive (Wallet.readDescriptor_eq_ok.mpr reads)
  rw [text_eq] at hset
  exact hset

theorem foretelling_placesWritable : foretelling.wallet.PlacesWritable :=
  List.forall_mem_cons.mpr ⟨(writable first).vout, both_writable second (.ofBytes id)⟩

theorem foretelling_reachable : foretelling.wallet.Reachable := by
  have hr : (session first second).wallet.Reachable :=
    reachable accepted.1 accepted.2.1 (by decide +kernel)
  have hid : (HexText.ofBytes id).Accepted := HexText.accepted_ofBytes rfl
  have hnew : ∀ v ∈ (session first second).wallet.utxos, v.outpoint ≠ foretold.outpoint := by
    decide +kernel
  exact paid hr rfl (both_writable first second) hid hnew

/-- What is on record does not matter to the preparation. -/
theorem foretelling_prepares : ∃ t, Answers prepare foretelling (unsigned first second) t := by
  have hr := resolves first second
  have hresolves : (spending first second).Resolves foretelling.wallet :=
    ⟨hr.timelocks, hr.indices, hr.utxos, hr.inputs, hr.outputs⟩
  exact ⟨_, answers_prepare.mpr ⟨spending first second, [commitment, commitment], [commitment],
    [119500], hresolves, .cons commits (.cons commits .nil), .cons commits .nil,
    values_found first second, rfl, rfl⟩⟩

theorem foretelling_books :
    (foretelling.wallet.bookedRecords (unsigned first second) id).utxos = [foretold] := by
  decide +kernel

/-- Another value for the first payment is not recorded, and neither is the value of an output at
whose outpoint a payment is on record: what is on record is answered, and spent next. -/
theorem older_answered :
    (expecting [utxo first]).wallet.Reachable ∧
    (∃ t, Answers (fundInbound (.str firstText) (.int 0) (.int (70000 : Nat)))
      (expecting [utxo first]) (utxo first) t ∧ t.wallet.utxos = [utxo first]) ∧
    (utxo first).value ≠ 70000 ∧
    foretelling.wallet.Reachable ∧
    (∃ t, Answers (finalize none true) foretelling [foretold] t ∧
      t.wallet.draft = Draft.chained [foretold]) ∧
    (unsigned first second).transaction.outputs.map TxOut.value = [119500] ∧
    foretold.value ≠ 119500 := by
  refine ⟨expecting_reachable, ?_, by decide, foretelling_reachable, ?_, rfl, by decide⟩
  · let again : Utxo := ⟨first, 0, 70000, keyOnly⟩
    have hkept : ((freed (expecting [utxo first])).wallet.added again).utxos = [utxo first] := by
      decide +kernel
    have hagain : again.Writable :=
      ⟨(writable first).vout, Text.isWritable_of_lt (by decide : 70000 < 10 ^ 20)⟩
    obtain ⟨c, t, ha⟩ := exists_answers_addUtxo (s := freed (expecting [utxo first])) hagain
      (List.forall_mem_singleton.mpr (writable first).vout)
    obtain ⟨hw, hm, -⟩ := ha.wallet_addUtxo
    rw [hw, hkept] at hm
    obtain rfl := List.mem_singleton.mp hm
    have hfund := answers_fundInbound.mpr ⟨again, ⟨accepted.1, rfl, rfl⟩, rfl, ha⟩
    exact ⟨t, hfund, by rw [hw, hkept]⟩
  · obtain ⟨s, hs⟩ := foretelling_prepares
    have hbook : (unsigned first second).Bookable foretelling.wallet :=
      ⟨both_writable first second, foretelling_placesWritable, (bookable first second).created⟩
    have hgiven : ∀ text ∈ (none : Option String), Text.lower (Text.strip text) = id.hex := nofun
    obtain ⟨created, t, ht, hbooked⟩ := exists_answers_finalize hs txid_eq hbook hgiven true
    obtain ⟨c, rfl⟩ : ∃ c, created = [c] :=
      List.length_eq_one_iff.mp hbooked.recorded.length_eq.symm
    obtain ⟨x, -, hanswer⟩ := hbooked.answersFor (j := 0) rfl
    have hc : c ∈ [foretold] := by
      have hm := hanswer.recorded
      rw [hbooked.wallet] at hm
      rwa [← foretelling_books]
    obtain rfl := List.mem_singleton.mp hc
    exact ⟨t, ht, by rw [hbooked.wallet]; rfl⟩

end TwoPayments
end Taproot
