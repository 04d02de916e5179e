import Taproot.Proofs.Wallet.Outpoints

/-! # Operations in any order

The operations on the wallet are called in whatever order and with whatever they are given, and some
of them are refused. The draft that is left is one that can be worked on: its inputs spend what is
recorded, and its numbers are within their bounds.
-/
namespace Taproot

/-- An operation on the wallet beside what it is given. -/
inductive Call
  | importSecret (given : Bytes)
  | importPublic (key : Bytes)
  | importPreimage (preimage : Bytes)
  | importImage (digest : Bytes)
  | generateKeys (count : Int)
  | generateImages (count : Int)
  | setKeyActive (key : Bytes) (active : Bool)
  | toggleKey (key : Bytes)
  | setImageActive (digest : Bytes) (active : Bool)
  | toggleImage (digest : Bytes)
  | setInbound (text : String)
  | fundInbound (txid vout value : Json)
  /-- Records an output of the given fields. -/
  | record (fields : Json)
  | addInput (index utxoIndex : Int)
  | deleteInput (index : Int)
  | setSequence (index height : Int)
  | disableSequence (index : Int)
  | addOutput (index : Int) (text : String) (value : Json)
  | deleteOutput (index : Int)
  | setLocktime (height : Int)
  | clearLocktime
  | setFee (fee : Int)
  | build
  | finalize (txid : Option String) (chain : Bool)

namespace Call

open Operation

/-- The operation without its answer. -/
def quiet {α : Type} (a : Operation α) : Operation Unit := do
  let _ ← a
  return

def perform : Call → Operation Unit
  | importSecret given => quiet (Operation.importSecret given)
  | importPublic key => quiet (Operation.importPublic key)
  | importPreimage preimage => quiet (Operation.importPreimage preimage)
  | importImage digest => quiet (Operation.importImage digest)
  | generateKeys count => quiet (Operation.generateKeys count)
  | generateImages count => quiet (Operation.generateImages count)
  | setKeyActive key active => quiet (Operation.setKeyActive key active)
  | toggleKey key => quiet (Operation.toggleKey key)
  | setImageActive digest active => quiet (Operation.setImageActive digest active)
  | toggleImage digest => quiet (Operation.toggleImage digest)
  | setInbound text => quiet (Operation.setInbound text)
  | fundInbound txid vout value => quiet (Operation.fundInbound txid vout value)
  | record fields => quiet (ofExcept .invalid (Utxo.ofJson fields) >>= addUtxo)
  | addInput index utxoIndex => quiet (Operation.addInput index utxoIndex)
  | deleteInput index => quiet (Operation.deleteInput index)
  | setSequence index height => Operation.setSequence index height
  | disableSequence index => Operation.disableSequence index
  | addOutput index text value => quiet (Operation.addOutput index text value)
  | deleteOutput index => quiet (Operation.deleteOutput index)
  | setLocktime height => Operation.setLocktime height
  | clearLocktime => Operation.clearLocktime
  | setFee fee => Operation.setFee fee
  | build => quiet Operation.build
  | finalize txid chain => quiet (Operation.finalize txid chain)

/-- Performs calls one after the other; after one that is refused the next one follows. -/
def runAll : List Call → Session → Session
  | [], s => s
  | c :: rest, s => runAll rest (c.perform.runOn s).2

/-- The condition holds of every call of a run, in the session in which it is performed. -/
def Throughout (P : Call → Session → Prop) : List Call → Session → Prop
  | [], _ => True
  | c :: rest, s => P c s ∧ Throughout P rest (c.perform.runOn s).2

/-- What every call keeps just where a condition holds is kept by a run just where the condition
holds throughout. -/
theorem runAll_iff_throughout {P : Call → Session → Prop} {Q : Session → Prop}
    (h : ∀ c s, Q (c.perform.runOn s).2 ↔ Q s ∧ P c s) (calls : List Call) (s : Session) :
    Q (runAll calls s) ↔ Q s ∧ Throughout P calls s := by
  induction calls generalizing s with
  | nil => exact (and_iff_left trivial).symm
  | cons c rest ih => rw [runAll, ih, h, Throughout, and_assoc]

end Call

/-! ## Outputs of the draft -/

/-- Outputs have different indices, and one at most takes the remainder. -/
structure Payments (outputs : Slots DraftOutput) : Prop where
  indexed_once : (outputs.map Prod.fst).Nodup
  one_remainder : ∀ e ∈ outputs, ∀ f ∈ outputs, e.2.value = none → f.2.value = none → e.1 = f.1

namespace Payments

variable {w : Wallet} {outputs : Slots DraftOutput}

theorem remove (h : Payments outputs) (index : Int) : Payments (outputs.remove index) where
  indexed_once := Slots.nodup_remove h.indexed_once
  one_remainder e he f hf :=
    h.one_remainder e (List.mem_of_mem_filter he) f (List.mem_of_mem_filter hf)

theorem set (h : Payments outputs) {index : Int} {o : DraftOutput}
    (hr : o.value = none → Operation.anyOther index outputs (fun o => o.value.isNone) = false) :
    Payments (outputs.set index o) where
  indexed_once := Slots.nodup_set h.indexed_once
  one_remainder e he f hf hne hnf := by
    have hother : ∀ e ∈ outputs, o.value = none → e.2.value = none → e.1 = index := by
      intro e he ho hn
      have hall := List.any_eq_false.mp (hr ho) e he
      simpa [hn] using hall
    rcases Slots.mem_set he with rfl | he
    · rcases Slots.mem_set hf with rfl | hf
      · rfl
      · exact (hother f hf hne hnf).symm
    · rcases Slots.mem_set hf with rfl | hf
      · exact hother e he hnf hne
      · exact h.one_remainder e he f hf hne hnf

theorem change {g : Given} {w' : Wallet} (h : Payments w.draft.outputs)
    (hc : Wallet.Change g w w') : Payments w'.draft.outputs := by
  cases hc with
  | store | receive | close | forget | bind | unbind | delay | lock | charge => exact h
  | fund hi hu =>
    rw [Wallet.draft_added]
    exact h
  | record hd ht hu =>
    rw [Wallet.draft_added]
    exact h
  | pay hi hd ho hv hr => exact h.set hr
  | unpay index => exact h.remove index
  | reset => exact ⟨List.nodup_nil, nofun⟩

/-- Where two entries took the remainder they would have the same index. -/
theorem countP_le_one (h : Payments outputs) : outputs.countP (fun e => e.2.value.isNone) ≤ 1 := by
  rw [List.countP_eq_length_filter]
  have hnodup : ((outputs.filter fun e => e.2.value.isNone).map Prod.fst).Nodup :=
    h.indexed_once.sublist (List.filter_sublist.map Prod.fst)
  have hsame : ∀ e ∈ outputs.filter (fun e => e.2.value.isNone),
      ∀ f ∈ outputs.filter (fun e => e.2.value.isNone), e.1 = f.1 := by
    intro e he f hf
    obtain ⟨he, hne⟩ := List.mem_filter.mp he
    obtain ⟨hf, hnf⟩ := List.mem_filter.mp hf
    exact h.one_remainder e he f hf (Option.isNone_iff_eq_none.mp hne)
      (Option.isNone_iff_eq_none.mp hnf)
  generalize outputs.filter (fun e => e.2.value.isNone) = rest at hnodup hsame
  match rest with
  | [] | [_] => simp
  | e :: f :: _ =>
    have heq := hsame e List.mem_cons_self f (List.mem_cons_of_mem e List.mem_cons_self)
    have hne := (List.nodup_cons.mp hnodup).1
    exact absurd (heq ▸ List.mem_cons_self) hne

end Payments

/-! ## Sound wallets -/

/-- The draft can be worked on: its inputs spend what is recorded, one of its outputs at most takes
the remainder, and its timelocks are within their bounds. -/
structure Wallet.Sound (w : Wallet) : Prop where
  ledger : Ledger w.utxos w.draft.inputs
  payments : Payments w.draft.outputs
  inRange : w.draft.InRange

namespace Wallet.Sound

variable {g : Given} {w w' : Wallet}

theorem empty : Sound {} where
  ledger := ⟨List.nodup_nil, nofun, List.nodup_nil, nofun, nofun⟩
  payments := ⟨List.nodup_nil, nofun⟩
  inRange := ⟨nofun, nofun⟩

theorem change (h : w.Sound) (hc : Change g w w') : w'.Sound :=
  ⟨h.ledger.change hc, h.payments.change hc, h.inRange.change hc⟩

theorem added (h : w.Sound) {u : Utxo} (hu : u.txid.Lowercase) : (w.added u).Sound := by
  have hd := draft_added w u
  exact ⟨hd.symm ▸ h.ledger.added hu, hd.symm ▸ h.payments, hd.symm ▸ h.inRange⟩

end Wallet.Sound

/-- The id of an output that passes its check is accepted. -/
theorem Utxo.accepted_of_ofJson {fields : Json} {u : Utxo} (h : ofJson fields = .ok u) :
    u.txid.Accepted := by
  simp only [ofJson, Json.Check.report_eq_ok] at h
  cases fields with
  | obj entries =>
    simp only [check, Json.checkObject, Json.Check.seq_eq_pass, Json.Check.map_eq_pass] at h
    obtain ⟨_, _, ⟨_, _, ⟨_, _, ⟨txid, ht, rfl⟩, -, rfl⟩, -, rfl⟩, -, rfl⟩ := h
    simp only [Json.required, Json.Check.under_eq_pass] at ht
    split at ht
    · obtain ⟨x, -, hx⟩ := Json.checkHex_eq_pass.mp ht
      exact HexText.accepted_ofString hx
    · cases ht
  | _ => cases h

namespace Call

open Operation

variable {s : Session}

theorem keeps_sound_of_evolves {α : Type} {a : Operation α} (ha : Evolves .any a)
    (h : s.wallet.Sound) : (runOn a s).2.wallet.Sound :=
  Wallet.Changes.keeps Wallet.Sound.change (ha s) h

/-- A call leaves a sound wallet sound, whether it is refused or not. -/
theorem keeps_sound (c : Call) (h : s.wallet.Sound) : (c.perform.runOn s).2.wallet.Sound := by
  cases c with
  | importSecret given =>
    exact keeps_sound_of_evolves (evolves_importSecret fun _ _ => trivial).map h
  | importPublic key => exact keeps_sound_of_evolves (evolves_importPublic key).map h
  | importPreimage preimage =>
    exact keeps_sound_of_evolves (evolves_importPreimage trivial).map h
  | importImage digest => exact keeps_sound_of_evolves (evolves_importImage digest).map h
  | generateKeys count => exact keeps_sound_of_evolves (evolves_generateKeys count).map h
  | generateImages count => exact keeps_sound_of_evolves (evolves_generateImages count).map h
  | setKeyActive key active => exact keeps_sound_of_evolves (evolves_setKeyActive key active).map h
  | toggleKey key => exact keeps_sound_of_evolves (evolves_toggleKey key).map h
  | setImageActive digest active =>
    exact keeps_sound_of_evolves (evolves_setImageActive digest active).map h
  | toggleImage digest => exact keeps_sound_of_evolves (evolves_toggleImage digest).map h
  | setInbound text => exact keeps_sound_of_evolves (evolves_setInbound text).map h
  | fundInbound txid vout value =>
    have hany : ∀ {j : Json} n, Json.checkNatural j = .pass n → Given.any.number n :=
      fun _ _ => trivial
    exact keeps_sound_of_evolves (evolves_fundInbound txid hany hany).map h
  | record fields =>
    -- no change of the wallet: the descriptor need not be one that is read
    cases hu : Utxo.ofJson fields with
    | error report =>
      rw [perform, hu]
      exact h
    | ok u =>
      have hw : (runOn (perform (.record fields)) s).2.wallet =
          (runOn (addUtxo u) s).2.wallet := by
        rw [perform, hu]
        exact congrArg Session.wallet (runOn_map_snd (f := fun _ => ()))
      rw [hw]
      rcases wallet_addUtxo u s with hw | hw <;> rw [hw]
      · exact h
      · exact h.added (Utxo.accepted_of_ofJson hu).lowercase
  | addInput index utxoIndex =>
    exact keeps_sound_of_evolves (evolves_addInput trivial utxoIndex).map h
  | deleteInput index => exact keeps_sound_of_evolves (evolves_deleteInput index).map h
  | setSequence index height => exact keeps_sound_of_evolves (evolves_setSequence index height) h
  | disableSequence index => exact keeps_sound_of_evolves (evolves_disableSequence index) h
  | addOutput index text value =>
    exact keeps_sound_of_evolves (evolves_addOutput trivial text fun _ _ => trivial).map h
  | deleteOutput index => exact keeps_sound_of_evolves (evolves_deleteOutput index).map h
  | setLocktime height => exact keeps_sound_of_evolves (evolves_setLocktime height) h
  | clearLocktime => exact keeps_sound_of_evolves evolves_clearLocktime h
  | setFee fee => exact keeps_sound_of_evolves (evolves_setFee trivial) h
  | build => exact keeps_sound_of_evolves reads_build.evolves.map h
  | finalize txid chain =>
    have he : Evolves .any (Operation.finalize txid chain) :=
      fun s => takes_finalize txid chain fun _ _ => trivial
    exact keeps_sound_of_evolves he.map h

end Call

/-! ## Runs of calls -/

namespace Wallet

/-- Calls lead to the wallet from the empty one. A call that is refused counts as well, with what it
did before. -/
inductive Attained : Wallet → Prop
  | empty : Attained {}
  | step {s : Session} (h : Attained s.wallet) (c : Call) : Attained (c.perform.runOn s).2.wallet

variable {w : Wallet}

theorem Attained.sound (h : w.Attained) : w.Sound := by
  induction h with
  | empty => exact Sound.empty
  | step _ c ih => exact c.keeps_sound ih

theorem Attained.runAll {s : Session} (h : s.wallet.Attained) (calls : List Call) :
    (Call.runAll calls s).wallet.Attained := by
  induction calls generalizing s with
  | nil => exact h
  | cons c rest ih => exact ih (h.step c)

/-- Whatever is called, every input of the draft spends an output that is recorded, one output at
most leaves out its value, the fee is not negative, and the heights and the locktime are within
their bounds. -/
theorem Attained.draft_sound (h : w.Attained) :
    (∀ e ∈ w.draft.inputs, ∃ u ∈ w.utxos, e.2.utxo = some u) ∧
    w.draft.outputs.countP (fun e => e.2.value.isNone) ≤ 1 ∧
    0 ≤ (w.draft.fee : Int) ∧
    (∀ e ∈ w.draft.inputs, ∀ n, e.2.sequence = some n → n ≤ 65535) ∧
    (∀ n, w.draft.locktime = some n → n ≤ 499999999) := by
  have hs := h.sound
  refine ⟨hs.ledger.bound, hs.payments.countP_le_one, Int.natCast_nonneg _, hs.inRange.sequence, ?_⟩
  intro n hn
  exact Nat.le_of_lt_succ (hs.inRange.locktime n hn)

end Wallet

namespace OneRemainder

open TwoHeights (key keyOnly)

/-- A payment is spent behind a timelock to an output that takes the remainder. A second output of
that kind and a negative fee are refused. -/
def calls : List Call :=
  [.importPublic key, .setInbound keyOnly,
    .fundInbound (.str TwoPayments.firstText) (.int 0) (.int 60000), .addInput 0 0,
    .setSequence 0 7, .setLocktime 500000, .addOutput 0 keyOnly .null,
    .addOutput 1 keyOnly .null, .setFee 500, .setFee (-1)]

def wallet : Wallet where
  store := TwoPayments.store
  utxos := [TwoPayments.utxo TwoPayments.first]
  draft := {
    inputs := [(0, { utxo := some (TwoPayments.utxo TwoPayments.first), sequence := some 7 })]
    outputs := [(0, ⟨keyOnly, none⟩)]
    fee := 500
    locktime := some 500000 }

theorem runs : (Call.runAll calls { wallet := {} }).wallet = wallet := by
  decide +kernel

theorem workable : wallet.Attained ∧
    (∀ e ∈ wallet.draft.inputs, ∃ u ∈ wallet.utxos, e.2.utxo = some u) ∧
    wallet.draft.outputs.countP (fun e => e.2.value.isNone) ≤ 1 ∧
    0 ≤ (wallet.draft.fee : Int) ∧
    (∀ e ∈ wallet.draft.inputs, ∀ n, e.2.sequence = some n → n ≤ 65535) ∧
    (∀ n, wallet.draft.locktime = some n → n ≤ 499999999) := by
  have ha : wallet.Attained := runs ▸ Wallet.Attained.empty.runAll (s := { wallet := {} }) calls
  exact ⟨ha, ha.draft_sound⟩

end OneRemainder
end Taproot
