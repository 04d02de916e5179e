import Taproot.Proofs.Wallet.Calls
import Taproot.Proofs.Wallet.Finalizing

/-! # Refusals

An operation that is refused leaves the wallet as it is: what can be refused comes before the first
thing that is done. There are two exceptions. Where several keys or images are generated, those
before the refusal stay; and a number that was given is in the wallet before notice is given of it,
which is refused where the number has more digits than are written.
-/
namespace Taproot

namespace Operation

variable {α β ε : Type} {P : WalletError → Prop} {s t : Session}

/-- Refusals for errors of a kind leave the wallet as it is. -/
def Atomic (P : WalletError → Prop) (a : Operation α) (s : Session) : Prop :=
  ∀ e t, runOn a s = (.error e, t) → P e → t.wallet = s.wallet

/-- All errors that the operation can be refused with are of a kind. -/
def RefusedFor (P : WalletError → Prop) (a : Operation α) (s : Session) : Prop :=
  ∀ e t, runOn a s = (.error e, t) → P e

/-! ## Kinds of refusals -/

theorem RefusedFor.bind {a : Operation α} {f : α → Operation β} (ha : RefusedFor P a s)
    (hf : ∀ x t, Answers a s x t → RefusedFor P (f x) t) : RefusedFor P (a >>= f) s := by
  intro e t h
  rw [runOn_bind] at h
  rcases hr : runOn a s with ⟨e' | x, r⟩
  · rw [hr] at h
    cases h
    exact ha e t hr
  · rw [hr] at h
    exact hf x r hr e t h

theorem RefusedFor.mono {Q : WalletError → Prop} {a : Operation α} (h : RefusedFor P a s)
    (hPQ : ∀ e, P e → Q e) : RefusedFor Q a s := fun e t he => hPQ e (h e t he)

/-- What is answered is not refused. -/
theorem Answers.refusedFor {a : Operation α} {x : α} (h : Answers a s x t) : RefusedFor P a s := by
  intro e t he
  rw [h] at he
  cases he

theorem refusedFor_pure (x : α) : RefusedFor P (pure x) s := (answers_pure.mpr ⟨rfl, rfl⟩).refusedFor

theorem refusedFor_edit (f : Wallet → Wallet) : RefusedFor P (edit f) s :=
  (answers_edit (x := ()).mpr rfl).refusedFor

theorem refusedFor_inform (n : Notice) : RefusedFor P (inform n) s :=
  (answers_inform (u := ()).mpr rfl).refusedFor

theorem refusedFor_wallet : RefusedFor P wallet s := (answers_wallet.mpr ⟨rfl, rfl⟩).refusedFor

theorem refusedFor_throw {e : WalletError} (h : P e) : RefusedFor P (throw e : Operation α) s := by
  rintro _ _ ⟨⟩
  exact h

theorem refusedFor_ofExcept {wrap : ε → WalletError} {x : Except ε α}
    (h : ∀ e, x = .error e → P (wrap e)) : RefusedFor P (ofExcept wrap x) s := by
  cases x with
  | error e => exact refusedFor_throw (h e rfl)
  | ok a => exact refusedFor_pure a

theorem refusedFor_write (h : P .unwritable) (ns : List Int) : RefusedFor P (write ns) s := by
  unfold write
  split
  · exact refusedFor_pure ()
  · exact refusedFor_throw h

theorem refusedFor_announce (h : P .unwritable) (n : Notice) : RefusedFor P (announce n) s :=
  (refusedFor_write h _).bind fun _ _ _ => refusedFor_inform n

theorem RefusedFor.mapM {f : α → Operation β} (h : ∀ x s, RefusedFor P (f x) s) (xs : List α)
    (s : Session) : RefusedFor P (xs.mapM f) s := by
  induction xs generalizing s with
  | nil => exact refusedFor_pure _
  | cons x xs ih =>
    rw [List.mapM_cons]
    exact (h x s).bind fun _ t _ => (ih t).bind fun _ _ _ => refusedFor_pure _

theorem refusedFor_warnOfIdleLocktime : RefusedFor P warnOfIdleLocktime s := by
  refine (refusedFor_wallet.bind fun w _ _ => refusedFor_pure w.draft).bind fun d _ _ => ?_
  split
  · exact refusedFor_inform _
  · exact refusedFor_pure _

theorem refusedFor_findSame (h : P .unwritable) (u : Utxo) (vs : List Utxo) :
    RefusedFor P (findSame u vs) s := by
  induction vs generalizing s with
  | nil => exact refusedFor_pure none
  | cons v vs ih =>
    refine (refusedFor_write h _).bind fun _ _ _ => ?_
    split
    · exact refusedFor_pure (some v)
    · exact ih

theorem refusedFor_addUtxo (h : P .unwritable) (u : Utxo) : RefusedFor P (addUtxo u) s := by
  refine refusedFor_wallet.bind fun w _ _ => (refusedFor_findSame h u _).bind fun found _ _ => ?_
  cases found with
  | some v => exact refusedFor_pure v
  | none =>
    exact (refusedFor_edit _).bind fun _ _ _ => (refusedFor_write h _).bind fun _ _ _ =>
      (refusedFor_announce h _).bind fun _ _ _ => refusedFor_pure u

theorem refusedFor_writePlaces (h : P .unwritable) (u : Unsigned) :
    RefusedFor P (writePlaces u) s :=
  (refusedFor_write h _).bind fun _ _ _ => refusedFor_wallet.bind fun _ _ _ =>
    (refusedFor_write h _).bind fun _ _ _ => refusedFor_write h _

/-! ## Refusals before anything is done -/

theorem Reads.atomic {a : Operation α} (h : Reads a) : Atomic P a s := by
  intro e t he _
  have hw := h s
  rw [Takes, he] at hw
  exact hw.symm

/-- Where it is refused for other errors only, there is nothing to show. -/
theorem RefusedFor.atomic {a : Operation α} (h : RefusedFor (¬ P ·) a s) : Atomic P a s :=
  fun e t he hP => absurd hP (h e t he)

/-- What is read first does not matter. -/
theorem Atomic.after_reads {a : Operation α} {f : α → Operation β} (ha : Reads a)
    (hf : ∀ x t, Answers a s x t → Atomic P (f x) t) : Atomic P (a >>= f) s := by
  intro e t he hP
  rw [runOn_bind] at he
  rcases hr : runOn a s with ⟨e' | x, r⟩
  · rw [hr] at he
    cases he
    exact ha.atomic e t hr hP
  · rw [hr] at he
    exact (hf x r hr e t he hP).trans (ha.wallet_eq hr)

/-- What comes behind is refused for other errors only. -/
theorem Atomic.before {a : Operation α} {f : α → Operation β} (ha : Atomic P a s)
    (hf : ∀ x t, Answers a s x t → RefusedFor (¬ P ·) (f x) t) : Atomic P (a >>= f) s := by
  intro e t he hP
  rw [runOn_bind] at he
  rcases hr : runOn a s with ⟨e' | x, r⟩
  · rw [hr] at he
    cases he
    exact ha e t hr hP
  · rw [hr] at he
    exact absurd hP (hf x r hr e t he)

theorem atomic_edit (f : Wallet → Wallet) : Atomic P (edit f) s := (refusedFor_edit f).atomic

/-- Nothing comes after a refusal. -/
theorem atomic_throw_bind {e : WalletError} {f : α → Operation β} : Atomic P (throw e >>= f) s :=
  (reads_throw e).atomic.before fun _ _ h => absurd h not_answers_throw

theorem atomic_refuse_bind {e : WalletError} {f : α → Operation β} : Atomic P (refuse e >>= f) s :=
  (reads_refuse e).atomic.before fun _ _ h => absurd h not_answers_refuse

/-! ## The store -/

theorem atomic_addKey (secret : Option Bytes) (k : Bytes) : Atomic P (addKey secret k) s :=
  .after_reads (reads_ofExcept _ _) fun p _ _ =>
    (atomic_edit _).before fun _ _ _ => refusedFor_pure p

theorem atomic_addImage (preimage : Option Bytes) (d : Bytes) :
    Atomic P (addImage preimage d) s :=
  .after_reads (reads_ofExcept _ _) fun p _ _ =>
    (atomic_edit _).before fun _ _ _ => refusedFor_pure p

/-- A step on the store of which notice is given. -/
theorem atomic_noted {a : Operation α} (ha : Atomic P a s) (n : Notice) (f : α → β) :
    Atomic P (a >>= fun x => inform n >>= fun _ => pure (f x)) s :=
  ha.before fun _ _ _ => (refusedFor_inform n).bind fun _ _ _ => refusedFor_pure _

theorem atomic_importSecret (given : Bytes) : Atomic P (importSecret given) s := by
  refine .after_reads (reads_ofExcept _ _) fun secret _ _ => ?_
  refine .after_reads (reads_ofExcept _ _) fun k _ _ => .after_reads reads_store fun st _ _ => ?_
  cases st.findKey? k with
  | none => exact atomic_noted (atomic_addKey _ _) _ id
  | some pair =>
    dsimp only
    split
    · exact (reads_pure _).atomic
    · exact atomic_noted (atomic_edit _) _ _

theorem atomic_importPublic (k : Bytes) : Atomic P (importPublic k) s := by
  refine .after_reads (reads_ofExcept _ _) fun _ _ _ => .after_reads reads_store fun st _ _ => ?_
  cases st.findKey? k with
  | some pair => exact (reads_pure _).atomic
  | none => exact atomic_noted (atomic_addKey _ _) _ id

theorem atomic_importPreimage (preimage : Bytes) : Atomic P (importPreimage preimage) s := by
  refine .after_reads reads_store fun st _ _ => ?_
  cases st.findImage? (sha256 preimage) with
  | none => exact atomic_noted (atomic_addImage _ _) _ id
  | some pair =>
    dsimp only
    split
    · exact (reads_pure _).atomic
    · exact atomic_noted (atomic_edit _) _ _

theorem atomic_importImage (d : Bytes) : Atomic P (importImage d) s := by
  refine .after_reads reads_store fun st _ _ => ?_
  cases st.findImage? d with
  | some pair => exact (reads_pure _).atomic
  | none => exact atomic_noted (atomic_addImage _ _) _ id

theorem atomic_setActive (kind : EntryKind α) (name : Bytes) (active : Bool) :
    Atomic P (setActive kind name active) s :=
  .after_reads (reads_lookUp kind name) fun _ _ _ => atomic_noted (atomic_edit _) _ _

theorem atomic_toggle (kind : EntryKind α) (name : Bytes) : Atomic P (toggle kind name) s :=
  .after_reads (reads_lookUp kind name) fun _ _ _ => atomic_setActive kind name _

/-! ## The draft -/

theorem atomic_setInbound (text : String) : Atomic P (setInbound text) s :=
  .after_reads (reads_readDescriptor text) fun _ _ _ => atomic_noted (atomic_edit _) _ _

theorem atomic_deleteInput (index : Int) : Atomic P (deleteInput index) s :=
  .after_reads (reads_getInput index) fun i _ _ => (atomic_edit _).before fun _ _ _ =>
    refusedFor_warnOfIdleLocktime.bind fun _ _ _ => refusedFor_pure i

theorem atomic_deleteOutput (index : Int) : Atomic P (deleteOutput index) s := by
  refine .after_reads reads_draft fun d _ _ => ?_
  cases d.outputs.get? index with
  | none => exact (reads_refuse _).atomic
  | some o => exact (atomic_edit _).before fun _ _ _ => refusedFor_pure o

/-- A locktime that is accepted is short enough to be written. -/
theorem atomic_setLocktime (height : Int) : Atomic P (setLocktime height) s := by
  unfold setLocktime
  dsimp only
  split
  · exact atomic_refuse_bind
  · rename_i hh
    refine .after_reads reads_draft fun d _ _ => ?_
    split
    · exact atomic_throw_bind
    · refine (atomic_edit _).before fun _ t _ => ?_
      have hheight : Text.isWritable height = true := by
        rw [← Int.toNat_of_nonneg (by omega : 0 ≤ height)]
        have hlimit : heightLimit < 10 ^ 20 := by decide
        exact Text.isWritable_of_lt (by omega)
      have hannounced : Answers (announce (.locktimeSet height)) t () _ :=
        answers_announce.mpr ⟨by simpa [Notice.numbers] using hheight, rfl⟩
      exact hannounced.refusedFor

theorem atomic_clearLocktime : Atomic P clearLocktime s :=
  atomic_edit fun w => { w with draft := { w.draft with locktime := none } }

theorem atomic_setFee (fee : Int) : Atomic P (setFee fee) s := by
  unfold setFee
  dsimp only
  split
  · exact atomic_throw_bind
  · exact atomic_edit _

/-- All checks come before the booking, and every place is written before it. -/
theorem atomic_finalize (given : Option String) (chain : Bool) :
    Atomic P (finalize given chain) s := by
  rw [finalize_eq]
  refine .after_reads reads_prepare fun u _ _ => ?_
  refine .after_reads (reads_ofExcept _ _) fun txid _ h => ?_
  obtain ⟨htxid, -⟩ := answers_ofExcept.mp h
  refine .after_reads (reads_checkTxid given txid) fun _ _ _ => ?_
  refine .after_reads (reads_writePlaces u) fun _ t h => ?_
  obtain ⟨hbook, rfl⟩ := answers_writePlaces.mp h
  obtain ⟨created, r, hr⟩ := hbook.exists_answers_book htxid chain
  exact hr.refusedFor.atomic

/-- Another id than the one of the transaction is refused when all else has been checked. -/
theorem finalize_otherTxid {u : Unsigned} {txid : Bytes} {given : String} (chain : Bool)
    (hu : Answers prepare s u t) (ht : u.transaction.txid = .ok txid)
    (hne : Text.lower (Text.strip given) ≠ txid.hex) :
    runOn (finalize (some given) chain) s = (.error (.otherTxid txid.hex given), t) := by
  rw [finalize_eq, runOn_bind, hu]
  dsimp only
  rw [runOn_bind, ht, runOn_ofExcept_ok]
  dsimp only
  rw [runOn_bind, checkTxid, if_pos hne, runOn_throw]

/-! ## Numbers that are announced

Where notice is given of a number that was given, the wallet holds it already.
-/

section

variable (hP : ¬ P .unwritable)

include hP

theorem atomic_addUtxo (u : Utxo) : Atomic P (addUtxo u) s :=
  (refusedFor_addUtxo hP u).atomic

theorem atomic_fundInbound (txid vout value : Json) : Atomic P (fundInbound txid vout value) s := by
  refine .after_reads reads_wallet fun w _ _ => ?_
  cases w.inbound with
  | none => exact (reads_throw _).atomic
  | some text =>
    exact .after_reads (reads_ofExcept _ _) fun u _ _ =>
      (atomic_edit _).before fun _ _ _ => refusedFor_addUtxo hP u

theorem atomic_addInput (index utxoIndex : Int) : Atomic P (addInput index utxoIndex) s := by
  refine .after_reads (reads_getUtxo utxoIndex) fun u _ _ => .after_reads reads_draft fun d _ _ => ?_
  refine .after_reads (reads_findSame u _) fun found _ _ => ?_
  split
  · exact atomic_throw_bind
  · exact (atomic_edit _).before fun _ _ _ => (refusedFor_write hP _).bind fun _ _ _ =>
      (refusedFor_announce hP _).bind fun _ _ _ => refusedFor_pure _

theorem atomic_setSequence (index height : Int) : Atomic P (setSequence index height) s := by
  unfold setSequence
  dsimp only
  split
  · exact atomic_refuse_bind
  · exact .after_reads (reads_getInput index) fun i _ _ =>
      (atomic_edit _).before fun _ _ _ => refusedFor_announce hP _

theorem atomic_disableSequence (index : Int) : Atomic P (disableSequence index) s :=
  .after_reads (reads_getInput index) fun _ _ _ => (atomic_edit _).before fun _ _ _ =>
    (refusedFor_announce hP _).bind fun _ _ _ => refusedFor_warnOfIdleLocktime

theorem atomic_addOutput (index : Int) (text : String) (value : Json) :
    Atomic P (addOutput index text value) s := by
  refine .after_reads (reads_readDescriptor text) fun d _ _ => ?_
  refine .after_reads reads_draft fun draft _ _ => ?_
  dsimp only
  split
  · exact atomic_throw_bind
  · exact .after_reads (reads_ofExcept _ _) fun o _ _ => (atomic_edit _).before fun _ _ _ =>
      (refusedFor_announce hP _).bind fun _ _ _ => refusedFor_pure _

end

theorem runOn_write {ns : List Int} {n : Int} (hn : n ∈ ns) (h : Text.isWritable n = false) :
    runOn (write ns) s = (.error .unwritable, s) := by
  have hall : ¬ ns.all Text.isWritable = true := by
    rw [List.all_eq_true]
    exact fun hall => Bool.false_ne_true (h.symm.trans (hall n hn))
  rw [write, if_neg hall, runOn_throw]

/-- An input is bound at an index that cannot be written, and refused only then. -/
theorem addInput_unwritable {index utxoIndex : Int} {u : Utxo} (h : 0 ≤ utxoIndex)
    (hu : s.wallet.utxos[utxoIndex.toNat]? = some u)
    (hs : s.wallet.spentElsewhere index u.outpoint = false)
    (hplace : Text.isWritable u.vout = true)
    (hothers : ∀ e ∈ s.wallet.draft.inputs, ∀ v ∈ e.2.utxo, Text.isWritable v.vout = true)
    (hi : Text.isWritable index = false) :
    runOn (addInput index utxoIndex) s = (.error .unwritable, { s with
      wallet := s.wallet.withInputs (s.wallet.draft.inputs.set index { utxo := some u }) }) := by
  have hindex : index ∈ (Notice.inputSpends index u.outpoint).numbers := List.mem_singleton.mpr rfl
  rw [runOn_addInput h hu hs hplace hothers, runOn_bind, announce, runOn_bind, runOn_write hindex hi]

end Operation

/-! ## Calls -/

namespace Call

open Operation

/-- The call generates keys or images, one after the other. -/
def generates : Call → Bool
  | generateKeys _ | generateImages _ => true
  | _ => false

/-- The call gives notice of a number that it was given, once the wallet holds the number. -/
def announces : Call → Bool
  | fundInbound .. | record _ | addInput .. | setSequence .. | disableSequence _ | addOutput .. => true
  | _ => false

theorem atomic_quiet {P : WalletError → Prop} {s : Session} {α : Type} {a : Operation α}
    (ha : Atomic P a s) : Atomic P (quiet a) s := ha.before fun _ _ _ => refusedFor_pure ()

theorem atomic_perform {P : WalletError → Prop} {c : Call} (hc : c.generates = false)
    (hP : c.announces = true → ¬ P .unwritable) (s : Session) : Atomic P c.perform s := by
  cases c with
  | importSecret given => exact atomic_quiet (atomic_importSecret given)
  | importPublic key => exact atomic_quiet (atomic_importPublic key)
  | importPreimage preimage => exact atomic_quiet (atomic_importPreimage preimage)
  | importImage digest => exact atomic_quiet (atomic_importImage digest)
  | generateKeys count | generateImages count => cases hc
  | setKeyActive key active => exact atomic_quiet (atomic_setActive .key key active)
  | toggleKey key => exact atomic_quiet (atomic_toggle .key key)
  | setImageActive digest active => exact atomic_quiet (atomic_setActive .image digest active)
  | toggleImage digest => exact atomic_quiet (atomic_toggle .image digest)
  | setInbound text => exact atomic_quiet (atomic_setInbound text)
  | fundInbound txid vout value => exact atomic_quiet (atomic_fundInbound (hP rfl) txid vout value)
  | record fields =>
    exact atomic_quiet (.after_reads (reads_ofExcept _ _) fun u _ _ => atomic_addUtxo (hP rfl) u)
  | addInput index utxoIndex => exact atomic_quiet (atomic_addInput (hP rfl) index utxoIndex)
  | deleteInput index => exact atomic_quiet (atomic_deleteInput index)
  | setSequence index height => exact atomic_setSequence (hP rfl) index height
  | disableSequence index => exact atomic_disableSequence (hP rfl) index
  | addOutput index text value => exact atomic_quiet (atomic_addOutput (hP rfl) index text value)
  | deleteOutput index => exact atomic_quiet (atomic_deleteOutput index)
  | setLocktime height => exact atomic_setLocktime height
  | clearLocktime => exact atomic_clearLocktime
  | setFee fee => exact atomic_setFee fee
  | build => exact atomic_quiet reads_build.atomic
  | finalize txid chain => exact atomic_quiet (atomic_finalize txid chain)

/-- A call that is refused, other than one that generates keys or images, leaves the wallet as it
was, unless it gives notice of its numbers and one of them cannot be written. -/
theorem wallet_of_refused {c : Call} (hc : c.generates = false) {s t : Session} {e : WalletError}
    (hn : c.announces = true → e ≠ .unwritable) (h : c.perform.runOn s = (.error e, t)) :
    t.wallet = s.wallet :=
  atomic_perform (P := fun e => c.announces = true → e ≠ .unwritable) hc (fun ha hP => hP ha rfl) s
    e t h hn

end Call

namespace TwoPayments

/-- Another id than that of the transaction is refused when everything else has been checked. -/
theorem refuses_other_id : ∃ t, (Call.finalize (some firstText) true).generates = false ∧
    (Call.finalize (some firstText) true).announces = false ∧
    (Call.finalize (some firstText) true).perform.runOn (session first second) =
      (.error (.otherTxid id.hex firstText), t) ∧
    t.wallet = (session first second).wallet := by
  obtain ⟨t, ht⟩ := prepares first second
  have hne : Text.lower (Text.strip firstText) ≠ id.hex := by decide +kernel
  have hrefused : (Call.finalize (some firstText) true).perform.runOn (session first second) =
      (.error (.otherTxid id.hex firstText), t) := by
    rw [Call.perform, Call.quiet, Operation.runOn_bind,
      Operation.finalize_otherTxid true ht txid_eq hne]
  have hother : WalletError.otherTxid id.hex firstText ≠ .unwritable := by
    simp [WalletError.unwritable]
  exact ⟨t, rfl, rfl, hrefused, Call.wallet_of_refused rfl (fun _ => hother) hrefused⟩

/-- The least index that cannot be written. -/
def longIndex : Int := (10 ^ Text.digitLimit : Nat)

/-- One payment is on record, and the draft is empty. -/
def paidOnce : Session where
  wallet := { store, utxos := [utxo first] }

/-- The payment is bound to the input at that index by a call that is refused. -/
theorem refused_but_bound : ∃ t,
    (Call.addInput longIndex 0).perform.runOn paidOnce = (.error .unwritable, t) ∧
    t.wallet.draft.inputs = [(longIndex, { utxo := some (utxo first) })] ∧
    paidOnce.wallet.draft.inputs = [] := by
  have hlong : Text.isWritable longIndex = false :=
    Bool.eq_false_iff.mpr fun h => Nat.lt_irrefl _ (Text.isWritable_natCast.mp h)
  let bound : Session := { paidOnce with
    wallet := paidOnce.wallet.withInputs [(longIndex, { utxo := some (utxo first) })] }
  have hrefused : Operation.runOn (Operation.addInput longIndex 0) paidOnce =
      (.error .unwritable, bound) :=
    Operation.addInput_unwritable (Int.le_refl 0) rfl rfl (writable first).vout nofun hlong
  refine ⟨bound, ?_, rfl, rfl⟩
  rw [Call.perform, Call.quiet, Operation.runOn_bind, hrefused]

end TwoPayments

end Taproot
