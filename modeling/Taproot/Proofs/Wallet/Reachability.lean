import Mathlib.Data.List.Nodup
import Taproot.Proofs.Wallet.Changes
import Taproot.Proofs.Wallet.Timelocks

/-! # Reachable wallets

What holds of every wallet that commands lead to from the empty one: outputs are recorded once, each
input of the draft spends a recorded output that no other input spends, and the timelocks of the
draft are within their bounds.
-/
namespace Taproot

/-! ## The ledger -/

/-- Outputs are recorded once and under texts in lower case, and each input spends a recorded output
that no other input spends. -/
structure Ledger (utxos : List Utxo) (inputs : Slots DraftInput) : Prop where
  recorded_once : (utxos.map Utxo.outpoint).Nodup
  lowercase : ∀ u ∈ utxos, u.txid.Lowercase
  indexed_once : (inputs.map Prod.fst).Nodup
  bound : ∀ e ∈ inputs, ∃ u ∈ utxos, e.2.utxo = some u
  spent_once : ∀ e ∈ inputs, ∀ f ∈ inputs, e.1 ≠ f.1 →
    e.2.utxo.map Utxo.outpoint ≠ f.2.utxo.map Utxo.outpoint

namespace Wallet

variable {w w' : Wallet}

theorem spentElsewhere_eq_false {index : Int} {outpoint : String} :
    w.spentElsewhere index outpoint = false ↔ ∀ e ∈ w.draft.inputs, e.1 ≠ index →
      e.2.utxo.map Utxo.outpoint ≠ some outpoint := by
  simp only [spentElsewhere, Operation.anyOther, List.any_eq_false]
  refine forall₂_congr fun e _ => ?_
  cases e.2.utxo <;> simp

end Wallet

namespace Ledger

variable {w : Wallet} {utxos : List Utxo} {inputs : Slots DraftInput}

theorem of_no_inputs (h : Ledger utxos inputs) : Ledger utxos [] :=
  ⟨h.recorded_once, h.lowercase, List.nodup_nil, nofun, nofun⟩

theorem filter (h : Ledger utxos []) (keeps : Utxo → Bool) : Ledger (utxos.filter keeps) [] where
  recorded_once := h.recorded_once.sublist (List.filter_sublist.map _)
  lowercase u hu := h.lowercase u (List.mem_of_mem_filter hu)
  indexed_once := List.nodup_nil
  bound := nofun
  spent_once := nofun

theorem added (h : Ledger w.utxos inputs) {u : Utxo} (ht : u.txid.Lowercase) :
    Ledger (w.added u).utxos inputs := by
  rcases w.added_cases u with ⟨ha, -⟩ | ⟨ha, hf⟩
  · rwa [ha]
  · rw [ha]
    refine ⟨?_, ?_, h.indexed_once, fun e he => ?_, h.spent_once⟩
    · rw [List.map_append, List.nodup_append]
      refine ⟨h.recorded_once, List.nodup_singleton _, fun a ha b hb => ?_⟩
      obtain ⟨v, hv, rfl⟩ := List.mem_map.mp ha
      obtain rfl := List.mem_singleton.mp hb
      exact hf v hv
    · intro v hv
      rcases List.mem_append.mp hv with hv | hv
      · exact h.lowercase v hv
      · obtain rfl := List.mem_singleton.mp hv
        exact ht
    · obtain ⟨v, hv, hb⟩ := h.bound e he
      exact ⟨v, List.mem_append_left _ hv, hb⟩

theorem remove (h : Ledger utxos inputs) (index : Int) : Ledger utxos (inputs.remove index) where
  recorded_once := h.recorded_once
  lowercase := h.lowercase
  indexed_once := Slots.nodup_remove h.indexed_once
  bound e he := h.bound e (List.mem_of_mem_filter he)
  spent_once e he f hf := h.spent_once e (List.mem_of_mem_filter he) f (List.mem_of_mem_filter hf)

/-- An input is set that spends what no input at another index spends. -/
theorem set (h : Ledger w.utxos w.draft.inputs) {index : Int} {i : DraftInput} {u : Utxo}
    (hi : i.utxo = some u) (hu : u ∈ w.utxos) (hs : w.spentElsewhere index u.outpoint = false) :
    Ledger w.utxos (w.draft.inputs.set index i) where
  recorded_once := h.recorded_once
  lowercase := h.lowercase
  indexed_once := Slots.nodup_set h.indexed_once
  bound e he := by
    rcases Slots.mem_set he with rfl | he
    · exact ⟨u, hu, hi⟩
    · exact h.bound e he
  spent_once e he f hf hne := by
    have hother := Wallet.spentElsewhere_eq_false.mp hs
    have ho : i.utxo.map Utxo.outpoint = some u.outpoint := by rw [hi]; rfl
    rcases Slots.mem_set_of_nodup h.indexed_once he with rfl | ⟨he, hei⟩
    · rcases Slots.mem_set_of_nodup h.indexed_once hf with rfl | ⟨hf, hfi⟩
      · exact absurd rfl hne
      · exact fun heq => hother f hf hfi (heq.symm.trans ho)
    · rcases Slots.mem_set_of_nodup h.indexed_once hf with rfl | ⟨hf, hfi⟩
      · exact fun heq => hother e he hei (heq.trans ho)
      · exact h.spent_once e he f hf hne

/-- A change of the wallet keeps the ledger. -/
theorem change {g : Given} {w' : Wallet} (h : Ledger w.utxos w.draft.inputs)
    (hc : Wallet.Change g w w') : Ledger w'.utxos w'.draft.inputs := by
  cases hc with
  | store | receive | close | pay | unpay | lock | charge => exact h
  | fund hi hu =>
    rw [Wallet.draft_added]
    exact added (w := { w with inbound := none }) h hu.txid.lowercase
  | record hd ht hu =>
    rw [Wallet.draft_added]
    exact added h hu.txid.lowercase
  | forget keeps hd =>
    have hi : w.draft.inputs = [] := by rw [hd]
    rw [hi] at h ⊢
    exact h.filter keeps
  | bind hi hu hs => exact h.set rfl hu hs
  | unbind index => exact h.remove index
  | @delay index i height hi hh =>
    -- the entry is replaced by one that spends the same output
    have hm := Slots.mem_of_get? hi
    obtain ⟨u, hu, hb⟩ := h.bound _ hm
    refine h.set hb hu (Wallet.spentElsewhere_eq_false.mpr fun e he hne => ?_)
    have hd := h.spent_once e he _ hm hne
    rwa [hb] at hd
  | reset => exact h.of_no_inputs

end Ledger

/-- A change of the wallet keeps the draft within its bounds. -/
theorem Draft.InRange.change {g : Given} {w w' : Wallet} (h : w.draft.InRange)
    (hc : Wallet.Change g w w') : w'.draft.InRange := by
  cases hc with
  | store | receive | close | forget | pay | unpay | charge => exact ⟨h.locktime, h.sequence⟩
  | fund hi hu =>
    rw [Wallet.draft_added]
    exact h
  | record hd ht hu =>
    rw [Wallet.draft_added]
    exact h
  | bind hi hu hs =>
    refine ⟨h.locktime, fun e he n hn => ?_⟩
    rcases Slots.mem_set he with rfl | he
    · cases hn
    · exact h.sequence e he n hn
  | unbind index => exact ⟨h.locktime, fun e he => h.sequence e (List.mem_of_mem_filter he)⟩
  | delay hi hh =>
    refine ⟨h.locktime, fun e he n hn => ?_⟩
    rcases Slots.mem_set he with rfl | he
    · exact hh n hn
    · exact h.sequence e he n hn
  | lock hh => exact ⟨hh, h.sequence⟩
  | reset => exact ⟨nofun, nofun⟩

/-! ## Runs of commands -/

namespace Wallet

/-- Commands lead to the wallet from the empty one. A command that is refused counts as well, with
what it did before. -/
inductive Reachable : Wallet → Prop
  | empty : Reachable {}
  | step {s : Session} (h : Reachable s.wallet) (network : Network) (c : CommandLine.Command) :
      Reachable ((c.perform network).runOn s).2.wallet

variable {w w' : Wallet} {P : Wallet → Prop}

theorem changes_perform {s : Session} (network : Network) (c : CommandLine.Command) :
    Changes .any s.wallet ((c.perform network).runOn s).2.wallet :=
  CommandLine.Command.takes_perform network (fun _ _ => trivial) fun _ _ => trivial

theorem Changes.keeps {g : Given} (hP : ∀ {w w'}, P w → Change g w w' → P w')
    (hc : Changes g w w') (h : P w) : P w' := by
  induction hc with
  | refl => exact h
  | tail _ hc ih => exact hP ih hc

/-- What holds of the empty wallet and is kept by every change holds of every reachable wallet. -/
theorem Reachable.invariant (hempty : P {}) (hP : ∀ {w w'}, P w → Change .any w w' → P w')
    (h : w.Reachable) : P w := by
  induction h with
  | empty => exact hempty
  | step _ network c ih => exact Changes.keeps hP (changes_perform network c) ih

theorem Reachable.ledger (h : w.Reachable) : Ledger w.utxos w.draft.inputs :=
  h.invariant (P := fun w => Ledger w.utxos w.draft.inputs)
    ⟨List.nodup_nil, nofun, List.nodup_nil, nofun, nofun⟩ Ledger.change

theorem Reachable.inRange (h : w.Reachable) : w.draft.InRange :=
  h.invariant ⟨nofun, nofun⟩ Draft.InRange.change

/-! ## Changes that a command makes -/

namespace Reachable

/-- A command that answers, as far as the rest of it only reads. -/
theorem of_answers {α : Type} {s t : Session} (h : s.wallet.Reachable) {c : CommandLine.Command}
    {a : Operation α} {x : α} {f : α → Operation (List String)}
    (hc : c.perform .regtest = a >>= f) (ha : Operation.Answers a s x t)
    (hf : Operation.Reads (f x)) : t.wallet.Reachable := by
  have hs := h.step .regtest c
  rw [hc, Operation.runOn_bind, ha] at hs
  rw [hf t]
  exact hs

theorem receive (h : w.Reachable) {text : String} {d : Descriptor}
    (hd : w.readDescriptor text = .ok d) : Reachable { w with inbound := some d.text } := by
  let s : Session := { wallet := w }
  have ha : ∃ t, Operation.Answers (Operation.setInbound text) s d t ∧
      t.wallet = { w with inbound := some d.text } := by
    simp only [Operation.setInbound, Operation.answers_bind, Operation.answers_readDescriptor,
      Operation.answers_edit, Operation.answers_inform, Operation.answers_pure]
    exact ⟨_, ⟨d, s, ⟨hd, rfl⟩, (), _, rfl, (), _, rfl, rfl, rfl⟩, rfl⟩
  obtain ⟨t, ha, ht⟩ := ha
  rw [← ht]
  exact of_answers (s := s) (c := .setInbound text) h rfl ha
    ((Operation.reads_addressOf _ d).bind fun _ => Operation.reads_pure _)

theorem fund (h : w.Reachable) {text x : String} {txid : HexText} (hi : w.inbound = some text)
    (hx : HexText.ofString x = .ok txid) {vout value : Nat}
    (hu : Utxo.Writable ⟨txid, vout, value, text⟩) (hp : w.PlacesWritable) :
    Reachable (added { w with inbound := none } ⟨txid, vout, value, text⟩) := by
  let s : Session := { wallet := w }
  let u : Utxo := ⟨txid, vout, value, text⟩
  obtain ⟨c, t, ha⟩ :=
    Operation.exists_answers_addUtxo (s := { s with wallet := { w with inbound := none } }) hu hp
  have hfields := Utxo.ofJson_eq_ok (u := u) |>.mpr
    ⟨⟨Json.checkHex_eq_pass.mpr ⟨x, rfl, hx⟩, Json.checkNatural_int.mpr rfl,
      Json.checkNatural_int.mpr rfl⟩, rfl⟩
  have hf : Operation.Answers (Operation.fundInbound (.str x) (.int vout) (.int value)) s c t := by
    rw [Operation.fundInbound, Operation.answers_bind]
    refine ⟨w, s, Operation.answers_wallet.mpr ⟨rfl, rfl⟩, ?_⟩
    rw [hi]
    exact (Operation.answers_ofExcept.mpr ⟨hfields, rfl⟩).bind
      ((Operation.answers_edit (x := ()).mpr rfl).bind ha)
  rw [← ha.wallet_addUtxo.1]
  exact of_answers (s := s) (c := .fundInbound x vout value) h rfl hf
    ((CommandLine.Command.reads_placeOf c).bind fun _ => Operation.reads_pure _)

theorem bind (h : w.Reachable) {index : Int} {j : Nat} {u : Utxo} (hu : w.utxos[j]? = some u)
    (hs : w.spentElsewhere index u.outpoint = false) (hi : Text.isWritable index = true)
    (hp : w.PlacesWritable) :
    Reachable (w.withInputs (w.draft.inputs.set index { utxo := some u })) := by
  let s : Session := { wallet := w }
  have hothers : ∀ e ∈ w.draft.inputs, ∀ v ∈ e.2.utxo, Text.isWritable v.vout = true := by
    intro e he v hv
    obtain ⟨v', hv', heq⟩ := h.ledger.bound e he
    obtain rfl := Option.some.inj (heq.symm.trans hv)
    exact hp v' hv'
  obtain ⟨old, t, ha, ht⟩ := Operation.exists_answers_addInput (s := s) (Int.natCast_nonneg j) hu hs
    (hp u (List.mem_of_getElem? hu)) hothers hi
  rw [← ht]
  exact of_answers (s := s) (c := .addInput index j) h rfl ha (Operation.reads_pure _)

theorem pay (h : w.Reachable) {text : String} {d : Descriptor}
    (hd : w.readDescriptor text = .ok d) {index : Int} {value : Nat}
    (hi : Text.isWritable index = true) (hv : Text.isWritable value = true) :
    Reachable (w.withOutputs (w.draft.outputs.set index ⟨d.text, some value⟩)) := by
  let s : Session := { wallet := w }
  have ho := DraftOutput.ofJson_eq_ok (o := ⟨d.text, some value⟩) |>.mpr
    ⟨Json.checkNullable_ofOption (m := some value) (v := some value) |>.mpr rfl, rfl⟩
  have hnumbers : ∀ n ∈ (Notice.outputPays index (some value) d.text).numbers,
      Text.isWritable n = true := by
    simpa [Notice.numbers] using ⟨hi, hv⟩
  have ha : Operation.Answers (Operation.addOutput index text (.int value)) s
      (w.draft.outputs.get? index)
      { s with
        wallet := w.withOutputs (w.draft.outputs.set index ⟨d.text, some value⟩)
        notices := s.notices ++ [.outputPays index (some value) d.text] } := by
    simp only [Operation.addOutput, Operation.answers_bind, Operation.answers_readDescriptor,
      Operation.answers_draft]
    refine ⟨d, s, ⟨hd, rfl⟩, _, s, ⟨rfl, rfl⟩, ?_⟩
    rw [if_neg (by simp [Json.isNull])]
    simp only [Operation.answers_bind, Operation.answers_ofExcept, Operation.answers_announce,
      Operation.answers_pure]
    exact ⟨_, s, ⟨ho, rfl⟩, (), _, Operation.answers_edit.mpr rfl, (), _, ⟨hnumbers, rfl⟩, rfl, rfl⟩
  exact of_answers (s := s) (c := .addOutput index text (some value)) h rfl ha
    (Operation.reads_pure _)

end Reachable

end Wallet
end Taproot
