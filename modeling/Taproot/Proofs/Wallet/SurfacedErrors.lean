import Taproot.Proofs.Number.Quotients
import Taproot.Proofs.Spend.SigningFaults
import Taproot.Proofs.Wallet.Refusals
import Taproot.Proofs.Wallet.StoredDescriptors
import Taproot.Proofs.Wallet.StoredSecrets

/-! # Errors that are surfaced

With which errors a draft of a reachable wallet is refused. What is wrong with the draft or with
the secrets is surfaced to the operator. Other errors come from numbers that do not fit their fields
and from nonces that are zero.
-/
namespace Taproot

/-! ## Kinds of errors -/

/-- The error is surfaced to the operator; a scalar out of range comes from below the wallet. -/
def KeyError.surfaced : KeyError → Bool
  | scalarOutOfRange => false
  | _ => true

def DescriptorError.surfaced : DescriptorError → Bool
  | numeralTooLong _ => false
  | _ => true

def TransactionError.surfaced : TransactionError → Bool
  | encoding _ => false
  | _ => true

def SpendError.surfaced : SpendError → Bool
  | key e => e.surfaced
  | digest e => e.surfaced
  | noPath _ => true

/-- The error is one of the wallet's own, which are all surfaced to the operator. -/
def WalletError.surfaced : WalletError → Bool
  | key e => e.surfaced
  | descriptor e => e.surfaced
  | spend e => e.surfaced
  | address _ | encoding _ | invalid _ | negativeFee | badNetwork _ | noHeight | feeRateOverflow
  | entropyExhausted => false
  | _ => true

/-! ## Preparing -/

theorem surfaced_of_tweak {key : Bytes} {root : Option Bytes} {e : KeyError}
    (h : PublicKey.tweak key root = .error e) : e.surfaced = true := by
  unfold PublicKey.tweak at h
  dsimp only at h
  split at h
  · cases h
    rfl
  · split at h
    · cases h
      rfl
    · split at h
      · cases h
        rfl
      · cases h

theorem Descriptor.surfaced_of_commit {d : Descriptor} {e : KeyError} (h : d.commit = .error e) :
    e.surfaced = true := by
  unfold commit at h
  rcases bind_eq_error.mp h with h | ⟨_, -, h⟩
  · exact surfaced_of_tweak h
  · cases h

namespace Draft

variable {d : Draft} {e : WalletError}

/-- Values that are not found are surfaced, unless funds are short of an amount that cannot be
written. -/
theorem surfaced_of_outputValues {available : Nat} {f : ValueFault}
    (h : d.outputValues available = .error f) : (WalletError.ofValueFault f).surfaced = true ∨
      WalletError.ofValueFault f = .unwritable ∧ available < d.required ∧
        Text.isWritable d.required = false := by
  unfold outputValues at h
  split at h
  · cases h
    exact .inl rfl
  · split at h
    · rename_i hshort
      have hlt : available < d.required := by exact_mod_cast hshort
      cases hr : Text.isWritable d.required with
      | true =>
        rw [Text.isWritable_of_le (Nat.le_of_lt hlt) hr, hr] at h
        cases h
        exact .inl rfl
      | false =>
        rw [hr, Bool.and_false] at h
        cases h
        exact .inr ⟨rfl, hlt, rfl⟩
    · cases h

theorem surfaced_of_checkIndices (h : d.checkIndices = .error e) : e.surfaced = true := by
  unfold checkIndices at h
  split at h
  · cases h
    rfl
  · split at h
    · cases h
      rfl
    · split at h
      · cases h
        rfl
      · split at h <;> cases h
        rfl

theorem surfaced_of_boundUtxos (h : d.boundUtxos = .error e) : e.surfaced = true := by
  obtain ⟨⟨index, i⟩, -, he⟩ := exists_of_mapM_eq_error h
  dsimp only at he
  split at he <;> cases he
  rfl

end Draft

namespace Wallet

variable {w : Wallet} {e : WalletError}

/-- What a reachable wallet stores is read. -/
theorem Reachable.readDescriptor_ne_error (hw : w.Reachable) {text : String} (ht : w.Stores text) :
    w.readDescriptor text ≠ .error e := by
  obtain ⟨d, hd, -⟩ := hw.storesCanonical text ht
  rw [readDescriptor_eq_ok.mpr hd]
  exact nofun

/-- The funds are short of what the draft requires, which cannot be written. -/
def ShortBeyondWriting (w : Wallet) : Prop :=
  ∃ sp, w.spending = .ok sp ∧ sp.available < w.draft.required ∧
    Text.isWritable w.draft.required = false

theorem Reachable.surfaced_of_spending (hw : w.Reachable) (h : w.spending = .error e) :
    e.surfaced = true := by
  unfold spending at h
  dsimp only at h
  split at h
  · cases h
    rfl
  · simp only [bind_eq_error] at h
    rcases h with h | ⟨_, -, h | ⟨us, hus, h | ⟨ins, -, h | ⟨outs, -, h⟩⟩⟩⟩
    · exact Draft.surfaced_of_checkIndices h
    · exact Draft.surfaced_of_boundUtxos h
    · obtain ⟨u, hu, he⟩ := exists_of_mapM_eq_error h
      obtain ⟨entry, hm, hbound⟩ := forall₂_mem (Draft.boundUtxos_eq_ok.mp hus) hu
      have hm' := (Slots.sorted_perm _).mem_iff.mp hm
      exact absurd he (hw.readDescriptor_ne_error (.spent hm' hbound))
    · obtain ⟨o, ho, he⟩ := exists_of_mapM_eq_error h
      obtain ⟨entry, hm, rfl⟩ := List.mem_map.mp ho
      have hm' := (Slots.sorted_perm _).mem_iff.mp hm
      exact absurd he (hw.readDescriptor_ne_error (.paid hm'))
    · cases h

end Wallet

namespace Operation

variable {s : Session}

theorem refusedFor_commit (d : Descriptor) (s : Session) :
    RefusedFor (·.surfaced = true) (commit d) s := by
  refine (refusedFor_ofExcept fun e h => ?_).bind fun c t _ => ?_
  · exact Descriptor.surfaced_of_commit h
  · exact (refusedFor_inform _).bind fun _ _ _ => refusedFor_pure c

/-- A reachable wallet refuses to prepare its draft with surfaced errors only, as long as it can say
of what funds are short. -/
theorem refusedFor_prepare (hs : s.wallet.Reachable) :
    RefusedFor (fun e => e.surfaced = true ∨ e = .unwritable ∧ s.wallet.ShortBeyondWriting)
      prepare s := by
  refine refusedFor_wallet.bind fun w r h => ?_
  obtain ⟨rfl, rfl⟩ := answers_wallet.mp h
  refine (refusedFor_ofExcept fun e h => .inl (hs.surfaced_of_spending h)).bind fun sp r h => ?_
  obtain ⟨hsp, -⟩ := answers_ofExcept.mp h
  refine ((RefusedFor.mapM refusedFor_commit _ r).mono fun _ => .inl).bind fun ins r _ => ?_
  refine ((RefusedFor.mapM refusedFor_commit _ r).mono fun _ => .inl).bind fun outs r _ => ?_
  refine (refusedFor_ofExcept fun e h => ?_).bind fun values r _ => refusedFor_pure _
  exact (Draft.surfaced_of_outputValues h).imp_right fun ⟨he, hshort⟩ => ⟨he, sp, hsp, hshort⟩

end Operation

/-! ## Numbers that fit -/

namespace Transaction

variable {tx : Transaction} {id : Bytes}

/-- The witnesses and their marker need no numbers beyond those of the id. -/
theorem exists_encodeWith (h : tx.txid = .ok id) (marker witnesses : Bytes) :
    ∃ b, tx.encodeWith marker witnesses = .ok b := by
  simp only [txid, encodeBase, encodeWith, map_eq_ok, bind_eq_ok, pure_eq_ok] at h ⊢
  obtain ⟨_, ⟨v, hv, is, hi, os, ho, l, hl, -⟩, -⟩ := h
  exact ⟨_, v, hv, is, hi, os, ho, l, hl, rfl⟩

theorem exists_encode (h : tx.txid = .ok id) : ∃ b, tx.encode = .ok b := by
  unfold encode
  split
  · exact exists_encodeWith h _ _
  · exact exists_encodeWith h _ _

theorem exists_weight (h : tx.txid = .ok id) : ∃ n, tx.weight = .ok n := by
  obtain ⟨base, hbase⟩ := exists_encodeWith h [] []
  obtain ⟨b, hb⟩ := exists_encode h
  simp only [weight, bind_eq_ok, pure_eq_ok]
  exact ⟨_, base, hbase, b, hb, rfl⟩

/-- A digest is made for every input, where the numbers of the id and the spent values fit. -/
theorem exists_digest {spent : List TxOut} {index : Nat} (h : tx.txid = .ok id)
    (hspent : ∀ o ∈ spent, 0 ≤ o.value ∧ o.value < Bytes.bound 8)
    (hlength : spent.length = tx.inputs.length) (hindex : index < tx.inputs.length)
    (hcount : tx.inputs.length ≤ Bytes.bound 4) (leaf : Option Bytes) :
    ∃ m, tx.digest index spent 0 leaf = .ok m ∧ m.length = 32 := by
  obtain ⟨hversion, hinputs, houtputs, hlocktime⟩ := exists_txid.mp ⟨id, h⟩
  have hmessage : ∃ m, tx.digestMessage index spent 0 leaf = .ok m := by
    obtain ⟨outpoints, ho⟩ : ∃ b, encodeAll TxIn.encodeOutpoint tx.inputs = .ok b := by
      refine exists_encodeAll.mpr fun i hi => ?_
      obtain ⟨b, hb⟩ := exists_unsignedLE.mpr (hinputs i hi).1
      exact ⟨_, map_eq_ok.mpr ⟨b, hb, rfl⟩⟩
    obtain ⟨values, hv⟩ : ∃ b, encodeAll TxOut.encodeValue spent = .ok b :=
      exists_encodeAll.mpr fun o ho => exists_unsignedLE.mpr (hspent o ho)
    obtain ⟨sequences, hs⟩ : ∃ b, encodeAll TxIn.encodeSequence tx.inputs = .ok b :=
      exists_encodeAll.mpr fun i hi => exists_unsignedLE.mpr (hinputs i hi).2
    obtain ⟨outputs, hout⟩ : ∃ b, encodeAll TxOut.encode tx.outputs = .ok b :=
      exists_encodeAll.mpr fun o ho => TxOut.exists_encode.mpr (houtputs o ho)
    obtain ⟨version, hver⟩ := exists_unsignedLE.mpr hversion
    obtain ⟨locktime, hlock⟩ := exists_unsignedLE.mpr hlocktime
    obtain ⟨position, hpos⟩ : ∃ b, unsignedLE 4 (index : Int) = .ok b :=
      exists_unsignedLE.mpr ⟨Int.natCast_nonneg _, by omega⟩
    simp only [digestMessage, bind_eq_ok, pure_eq_ok]
    exact ⟨_, outpoints, ho, values, hv, sequences, hs, outputs, hout, version, hver, locktime,
      hlock, position, hpos, rfl⟩
  obtain ⟨m, hm⟩ := hmessage
  refine ⟨HashTag.tapSighash.hash m, ?_, HashTag.length_hash _ _⟩
  have hin : ¬ (tx.inputs.length : Int) ≤ index := by omega
  rw [digest, if_neg (by decide), if_neg hin, if_neg (not_not_intro hlength)]
  simp only [hm]

end Transaction

theorem totalValue_le {outs : List TxOut} {bound : Nat} (h : ∀ o ∈ outs, o.value < bound) :
    totalValue outs ≤ outs.length * bound := by
  induction outs with
  | nil => simp [totalValue]
  | cons o outs ih =>
    have ho := h o List.mem_cons_self
    have hrest := ih fun o' ho' => h o' (List.mem_cons_of_mem o ho')
    rw [totalValue] at hrest ⊢
    rw [List.foldr_cons, List.length_cons, Nat.cast_add, Nat.cast_one, Int.add_mul]
    omega

namespace Unsigned

variable {w : Wallet} {u : Unsigned}

/-- The values that are spent and the numbers of the inputs fit as well, which are signed. -/
structure NumbersFit (u : Unsigned) : Prop extends u.transaction.NumbersFit where
  spent : ∀ o ∈ u.spent, o.value < Bytes.bound 8
  count : u.transaction.inputs.length ≤ Bytes.bound 4

/-- The digests that an input signs. -/
def digestFor (u : Unsigned) (index : Nat) : DigestFor :=
  fun leaf => u.transaction.digest index u.spent 0 leaf

namespace Prepared

theorem length_spent (h : u.Prepared w) : u.spent.length = u.transaction.inputs.length := by
  rw [h.spent_eq, length_txOuts (by rw [List.length_map, h.resolves.inputs.length_eq,
    h.commitments.length_eq]), List.length_map, h.inputs_eq, Spending.txIns, List.length_mapIdx]

theorem spent_nonneg (h : u.Prepared w) : ∀ o ∈ u.spent, 0 ≤ o.value := by
  intro o ho
  obtain ⟨j, hj⟩ := List.mem_iff_getElem?.mp ho
  rw [h.spent_eq] at hj
  obtain ⟨value, -, hvalue⟩ := getElem?_txOuts hj
  omega

theorem total_digestFor (h : u.Prepared w) (hw : w.Reachable) (hu : u.NumbersFit) {index : Nat}
    (hindex : index < u.commitments.length) : (u.digestFor index).Total := by
  obtain ⟨id, hid⟩ := (h.exists_txid hw).mpr ⟨hu.places, hu.outputs⟩
  have hspent : ∀ o ∈ u.spent, 0 ≤ o.value ∧ o.value < Bytes.bound 8 :=
    fun o ho => ⟨h.spent_nonneg o ho, hu.spent o ho⟩
  rw [h.length_commitments] at hindex
  exact Transaction.exists_digest hid hspent h.length_spent hindex hu.count

/-- The fee of a transaction whose numbers fit has a rate. -/
theorem exists_feeRate (h : u.Prepared w) (hu : u.NumbersFit) (size : Nat) : ∃ rate,
    feeRate? (totalValue u.spent - totalValue u.transaction.outputs).toNat size = some rate := by
  have hfee : (totalValue u.spent - totalValue u.transaction.outputs).toNat < 2 ^ 200 := by
    have hspent := totalValue_le hu.spent
    have hcount := hu.count
    rw [← h.length_spent] at hcount
    have houtputs : 0 ≤ totalValue u.transaction.outputs := by
      obtain ⟨values, outs, he, hl, -⟩ := h.exists_values
      rw [he, totalValue_txOuts hl]
      exact Int.natCast_nonneg _
    have hproduct : u.spent.length * Bytes.bound 8 ≤ Bytes.bound 4 * Bytes.bound 8 :=
      Nat.mul_le_mul_right _ hcount
    have hpower : Bytes.bound 4 * Bytes.bound 8 < 2 ^ 200 := by decide
    have hcast : ((u.spent.length * Bytes.bound 8 : Nat) : Int) =
        u.spent.length * Bytes.bound 8 := Nat.cast_mul _ _
    omega
  obtain ⟨x, hx⟩ := Option.isSome_iff_exists.mp (Binary64.isSome_nearest hfee size)
  exact ⟨_, by rw [feeRate?, hx]; rfl⟩

end Prepared

/-- The nonce of a signature that some input can ask for is zero. -/
def MeetsZeroNonce (u : Unsigned) (store : Store) : Prop :=
  ∃ (index : Nat) (c : Commitment), u.commitments[index]? = some c ∧
    c.MeetsZeroNonce store (u.digestFor index)

end Unsigned

/-! ## Building -/

namespace Operation

variable {s : Session} {u : Unsigned}

/-- The inputs from an index on are signed, unless there is no path, a secret cannot be tweaked or a
nonce is zero. -/
theorem refusedFor_signInputs (hm : s.wallet.store.Matches)
    (hd : ∀ i < u.commitments.length, (u.digestFor i).Total) {index : Nat} {cs : List Commitment}
    (hcs : ∀ (i : Nat) (c : Commitment), cs[i]? = some c → u.commitments[index + i]? = some c) :
    RefusedFor (fun e => e.surfaced = true ∨ u.MeetsZeroNonce s.wallet.store)
      (signInputs u index cs) s := by
  induction cs generalizing s index with
  | nil => exact refusedFor_pure _
  | cons c cs ih =>
    have hc : u.commitments[index]? = some c := hcs 0 c rfl
    have htotal := hd index (List.getElem?_eq_some_iff.mp hc).1
    have hone : RefusedFor (fun e => e.surfaced = true ∨ u.MeetsZeroNonce s.wallet.store)
        (signInput u index c) s := by
      refine refusedFor_wallet.bind fun w r h => ?_
      obtain ⟨rfl, rfl⟩ := answers_wallet.mp h
      refine (refusedFor_ofExcept fun e h => ?_).bind fun w r _ =>
        (refusedFor_inform _).bind fun _ _ _ => refusedFor_pure w
      rcases spend_eq_error hm htotal h with ⟨report, rfl⟩ | ⟨k, rfl, hk⟩ | ⟨rfl, hz⟩
      · exact .inl rfl
      · refine .inl ?_
        cases k <;> first | rfl | exact absurd rfl hk
      · exact .inr ⟨index, c, hc, hz⟩
    refine hone.bind fun witness t h => ?_
    have hw := (reads_signInput u index c).wallet_eq h
    have hrest : RefusedFor (fun e => e.surfaced = true ∨ u.MeetsZeroNonce t.wallet.store)
        (signInputs u (index + 1) cs) t := by
      refine ih (hw ▸ hm) fun i c' hi => ?_
      rw [Nat.add_assoc, Nat.add_comm 1]
      exact hcs (i + 1) c' (by simpa using hi)
    rw [hw] at hrest
    exact hrest.bind fun _ _ _ => refusedFor_pure _

/-- A transaction whose numbers fit is completed once its inputs are signed. -/
theorem refusedFor_build {P : WalletError → Prop} (hs : s.wallet.Reachable)
    (hprepare : RefusedFor P prepare s) (hsurfaced : ∀ e, e.surfaced = true → P e)
    (hbuild : ∀ u r, Answers prepare s u r → ¬ u.NumbersFit ∨ u.MeetsZeroNonce s.wallet.store →
      ∀ e, P e) : RefusedFor P build s := by
  refine hprepare.bind fun u r hu => ?_
  by_cases henc : u.NumbersFit
  swap
  · exact fun e _ _ => hbuild u r hu (.inl henc) e
  obtain ⟨⟨hw, -⟩, hp⟩ := hu.prepared
  have htotal : ∀ i < u.commitments.length, (u.digestFor i).Total :=
    fun i hi => hp.total_digestFor hs henc hi
  have hsign : RefusedFor P (signInputs u 0 u.commitments) r := by
    have hmatches : r.wallet.store.Matches := hw ▸ hs.coherent.matches
    have hany : ∀ (i : Nat) (c : Commitment), u.commitments[i]? = some c →
        u.commitments[0 + i]? = some c := fun i c hc => by rwa [Nat.zero_add]
    refine (refusedFor_signInputs hmatches htotal hany).mono fun e he => ?_
    rw [hw] at he
    rcases he with he | hz
    · exact hsurfaced e he
    · exact hbuild u r hu (.inr hz) e
  refine hsign.bind fun ws t hws => ?_
  -- the witnesses change neither the id nor the values of the transaction
  have hlength : u.transaction.inputs.length = ws.length :=
    hp.length_commitments.symm.trans hws.signInputs.2.1
  obtain ⟨id, hid⟩ := (hp.exists_txid hs).mpr henc.toNumbersFit
  have htxid : (u.transaction.withWitnesses ws).txid = .ok id :=
    (Transaction.txid_withWitnesses hlength).trans hid
  obtain ⟨weight, hweight⟩ := Transaction.exists_weight htxid
  obtain ⟨encoded, hencoded⟩ := Transaction.exists_encode htxid
  obtain ⟨rate, hrate⟩ := hp.exists_feeRate henc (Transaction.virtualSize weight)
  dsimp only
  rw [htxid, hweight, hencoded]
  refine (refusedFor_pure id).bind fun id' r h => ?_
  obtain ⟨rfl, rfl⟩ := answers_pure.mp h
  refine (refusedFor_pure weight).bind fun weight' r h => ?_
  obtain ⟨rfl, rfl⟩ := answers_pure.mp h
  refine (refusedFor_pure encoded).bind fun encoded' r h => ?_
  have houtputs : (u.transaction.withWitnesses ws).outputs = u.transaction.outputs := rfl
  simp only [houtputs, hrate]
  exact (refusedFor_inform _).bind fun _ _ _ => refusedFor_pure _

/-- A transaction can be finalized under the id that is given, if any: its numbers fit their fields,
and where the id is the right one the places can be written. -/
structure Finalizable (w : Wallet) (u : Unsigned) (given : Option String) : Prop where
  fits : u.transaction.NumbersFit
  bookable : ∀ id, u.transaction.txid = .ok id →
    (∀ text ∈ given, Text.lower (Text.strip text) = id.hex) → u.Bookable w

/-- Where the transaction can be finalized, nothing but the id that was given can be wrong. -/
theorem refusedFor_finalize {P : WalletError → Prop} (hs : s.wallet.Reachable)
    (hprepare : RefusedFor P prepare s) (hsurfaced : ∀ e, e.surfaced = true → P e)
    {given : Option String} (hfit : ∀ u r, Answers prepare s u r → Finalizable s.wallet u given)
    (chain : Bool) : RefusedFor P (finalize given chain) s := by
  rw [finalize_eq]
  refine hprepare.bind fun u r hu => ?_
  obtain ⟨⟨hw, -⟩, hp⟩ := hu.prepared
  obtain ⟨hnumbers, hbookable⟩ := hfit u r hu
  obtain ⟨id, hid⟩ := (hp.exists_txid hs).mpr hnumbers
  rw [hid]
  refine (refusedFor_pure id).bind fun id' r' h => ?_
  obtain ⟨rfl, rfl⟩ := answers_pure.mp h
  have hcheck : RefusedFor P (checkTxid given id) r := by
    unfold checkTxid
    split
    · split
      · exact refusedFor_throw (hsurfaced _ rfl)
      · exact refusedFor_pure _
    · exact refusedFor_pure _
  refine hcheck.bind fun _ t h => ?_
  obtain ⟨hgiven, rfl⟩ := answers_checkTxid.mp h
  have hbook : u.Bookable r.wallet := hw ▸ hbookable id hid hgiven
  have hwrite : Answers (writePlaces u) r () r := answers_writePlaces.mpr ⟨hbook, rfl⟩
  refine hwrite.refusedFor.bind fun _ t h => ?_
  obtain ⟨-, rfl⟩ := answers_writePlaces.mp h
  obtain ⟨created, t, ht⟩ := hbook.exists_answers_book hid chain
  exact ht.refusedFor

/-- A transaction with a number that does not fit has no id. -/
theorem finalize_unencoded {r : Session} (hs : s.wallet.Reachable) (hu : Answers prepare s u r)
    (hfit : ¬ u.transaction.NumbersFit) (given : Option String) (chain : Bool) :
    ∃ e, runOn (finalize given chain) s = (.error (.encoding e), r) := by
  obtain ⟨-, hp⟩ := hu.prepared
  cases hid : u.transaction.txid with
  | error e => exact ⟨e, finalize_of_txid_error hu hid given chain⟩
  | ok id => exact absurd ((hp.exists_txid hs).mp ⟨id, hid⟩) hfit

/-- A place that cannot be written is met before the booking. -/
theorem finalize_unwritten {r : Session} {id : Bytes} {given : Option String}
    (hu : Answers prepare s u r) (hid : u.transaction.txid = .ok id)
    (hgiven : ∀ text ∈ given, Text.lower (Text.strip text) = id.hex)
    (hbook : ¬ u.Bookable s.wallet) (chain : Bool) :
    ∃ t, runOn (finalize given chain) s = (.error .unwritable, t) := by
  have hcheck : Answers (checkTxid given id) r () r := answers_checkTxid.mpr ⟨hgiven, rfl⟩
  rw [finalize_eq, runOn_bind, hu]
  dsimp only
  rw [runOn_bind, hid, runOn_ofExcept_ok]
  dsimp only
  rw [runOn_bind, hcheck]
  dsimp only
  rw [runOn_bind]
  rcases hw : runOn (writePlaces u) r with ⟨e | x, t⟩
  · obtain rfl := refusedFor_writePlaces (P := (· = .unwritable)) rfl u e t hw
    exact ⟨t, rfl⟩
  · have hb := (answers_writePlaces.mp hw).1
    rw [hu.prepared.1.1] at hb
    exact absurd hb hbook

/-- A draft of a reachable wallet is prepared, or refused with an error that is surfaced unless funds
are short of an amount that cannot be written. The same holds where it is built, unless a number does
not fit its field or the nonce of a signature is zero. Where it is finalized, all errors are surfaced
exactly if funds are not short of such an amount and the transaction can be finalized. -/
theorem assembly_surfaces (hs : s.wallet.Reachable) :
    (∀ e t, runOn prepare s = (.error e, t) →
      e.surfaced = true ∨ e = .unwritable ∧ s.wallet.ShortBeyondWriting) ∧
    (∀ e t, runOn build s = (.error e, t) →
      e.surfaced = true ∨ e = .unwritable ∧ s.wallet.ShortBeyondWriting ∨
        ∃ u r, Answers prepare s u r ∧ (¬ u.NumbersFit ∨ u.MeetsZeroNonce s.wallet.store)) ∧
    (∀ given chain,
      (∀ e t, runOn (finalize given chain) s = (.error e, t) → e.surfaced = true) ↔
      (∀ t, runOn prepare s ≠ (.error .unwritable, t)) ∧
        ∀ u r, Answers prepare s u r → Finalizable s.wallet u given) := by
  have hprepare := refusedFor_prepare hs
  refine ⟨hprepare, ?_, fun given chain => ⟨fun h => ⟨fun t he => ?_, fun u r hu => ?_⟩, ?_⟩⟩
  · refine refusedFor_build hs (hprepare.mono fun e => Or.imp_right .inl) (fun _ => .inl) ?_
    exact fun u r hu h _ => .inr (.inr ⟨u, r, hu, h⟩)
  · -- what preparing is refused with is what finalizing is refused with
    have hfinal : runOn (finalize given chain) s = (.error .unwritable, t) := by
      rw [finalize_eq, runOn_bind, he]
    cases h _ _ hfinal
  · refine ⟨?_, fun id hid hgiven => ?_⟩
    · by_contra hfit
      obtain ⟨e, he⟩ := finalize_unencoded hs hu hfit given chain
      cases h _ _ he
    · by_contra hbook
      obtain ⟨t, ht⟩ := finalize_unwritten hu hid hgiven hbook chain
      cases h _ _ ht
  · rintro ⟨hpriced, hfit⟩
    have hsurfaced : RefusedFor (·.surfaced = true) prepare s := by
      intro e t he
      rcases hprepare e t he with h | ⟨rfl, -⟩
      · exact h
      · exact absurd he (hpriced t)
    exact refusedFor_finalize hs hsurfaced (fun _ => id) hfit chain

end Operation

namespace TwoPayments

open Operation
open TwoHeights (keyOnly)

theorem numbers_fit : (unsigned first second).NumbersFit where
  toNumbersFit := transaction_fits
  spent := by decide +kernel
  count := by decide

/-- Only the public key is known. -/
theorem activeSecret?_eq_none (k : Bytes) : store.activeSecret? k = none := by
  cases h : store.activeSecret? k with
  | none => rfl
  | some secret =>
    obtain ⟨p, hp, hs⟩ := Option.bind_eq_some_iff.mp h
    have hm : p ∈ store.keys := List.mem_of_find?_eq_some hp
    obtain rfl := List.mem_singleton.mp hm
    cases hs

/-- The two payments are refused with surfaced errors only. -/
theorem surfaces : (session first second).wallet.Reachable ∧
    (∀ e t, runOn build (session first second) = (.error e, t) → e.surfaced = true) ∧
    ∀ given chain e t, runOn (finalize given chain) (session first second) = (.error e, t) →
      e.surfaced = true := by
  have hr : (session first second).wallet.Reachable :=
    reachable accepted.1 accepted.2.1 (by decide +kernel)
  obtain ⟨s, hs⟩ := prepares first second
  obtain ⟨-, hbuild, hfinalize⟩ := assembly_surfaces hr
  refine ⟨hr, fun e t he => ?_, fun given chain => (hfinalize given chain).mpr ⟨fun t he => ?_, ?_⟩⟩
  · rcases hbuild e t he with h | ⟨-, sp, hsp, hshort, -⟩ | ⟨u, r, hu, h⟩
    · exact h
    · have hresolved := Wallet.spending_eq_ok.mpr (resolves first second)
      obtain rfl := Except.ok.inj (hresolved.symm.trans hsp)
      exact absurd hshort (by decide +kernel)
    · obtain ⟨rfl, rfl⟩ := hs.unique hu
      rcases h with h | ⟨index, c, -, hsecret | ⟨-, hsecret⟩⟩
      · exact absurd numbers_fit h
      · cases (activeSecret?_eq_none _).symm.trans hsecret
      · cases (activeSecret?_eq_none _).symm.trans hsecret
  · cases hs.symm.trans he
  · intro u r hu
    obtain ⟨rfl, rfl⟩ := hs.unique hu
    exact ⟨transaction_fits, fun _ _ _ => bookable first second⟩

/-- A command records the payment, and the error with which its draft cannot be finalized is not
surfaced. -/
theorem far_not_surfaced : farSession.wallet.Reachable ∧
    ∃ t, runOn (finalize none true) farSession = (.error (.encoding .fieldOverflow), t) ∧
      (WalletError.encoding .fieldOverflow).surfaced = false := by
  obtain ⟨t, ht⟩ := far_prepares
  exact ⟨far_reachable, t, finalize_of_txid_error ht far_unencoded none true, rfl⟩

end TwoPayments
end Taproot
