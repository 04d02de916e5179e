import Taproot.Proofs.Wallet.Reachability

/-! # The outputs that a transaction spends

A transaction that is prepared from a reachable wallet spends outputs at different outpoints. They
are told apart as texts, so that this carries over to the transaction where no id has blanks.
-/
namespace Taproot

theorem toDigits_inj {m n : Nat} (h : Nat.toDigits 10 m = Nat.toDigits 10 n) : m = n := by
  have hm := Nat.ofDigitChars_ten_toDigits (n := m)
  rw [h, Nat.ofDigitChars_ten_toDigits] at hm
  exact hm.symm

/-- An outpoint tells the text of the id and the place among the outputs. -/
theorem Utxo.outpoint_inj {u v : Utxo} :
    u.outpoint = v.outpoint ↔ u.txid.text = v.txid.text ∧ u.vout = v.vout := by
  have hchars (x : Utxo) :
      x.outpoint.toList = x.txid.text.toList ++ ':' :: Nat.toDigits 10 x.vout := by
    simp only [outpoint, String.toList_append, List.append_assoc]
    rw [← Nat.toList_repr]
    rfl
  have hcolon : ':' ∉ Nat.toDigits 10 u.vout := by
    intro h
    have hd := Nat.isDigit_of_mem_toDigits (by decide) (by decide) h
    cases hd
  constructor
  · intro h
    have hl := congrArg String.toList h
    rw [hchars, hchars] at hl
    obtain ⟨ht, -, hv⟩ := (List.append_cons_inj_of_notMem u.txid.colon_notMem hcolon).mp hl
    exact ⟨String.toList_injective ht, toDigits_inj hv⟩
  · rintro ⟨ht, hv⟩
    rw [outpoint, outpoint, ht, hv]

namespace Ledger

variable {w : Wallet} {s : Spending}

/-- The spent outputs have different outpoints. -/
theorem nodup_spent (h : Ledger w.utxos w.draft.inputs) (hs : s.Resolves w) :
    (s.utxos.map Utxo.outpoint).Nodup := by
  have hkeys := List.pairwise_map.mp h.indexed_once
  have hdiffer : (w.draft.inputs.map fun e => e.2.utxo.map Utxo.outpoint).Nodup :=
    List.pairwise_map.mpr (hkeys.imp_of_mem fun he hf hne => h.spent_once _ he _ hf hne)
  -- the outputs are spent in the order of the indices, which is another order of the entries
  have hsorted : (w.draft.inputs.sorted.map fun e => e.2.utxo.map Utxo.outpoint).Nodup :=
    ((Slots.sorted_perm _).map _).nodup_iff.mpr hdiffer
  have heq : (w.draft.inputs.sorted.map fun e => e.2.utxo.map Utxo.outpoint) =
      (s.utxos.map Utxo.outpoint).map some := by
    rw [List.map_map]
    refine List.forall₂_eq_eq_eq ▸ ?_
    rw [List.forall₂_map_left_iff, List.forall₂_map_right_iff]
    exact hs.utxos.imp fun e u he => by rw [he]; rfl
  rw [heq] at hsorted
  exact hsorted.of_map some

/-- The spent outputs are recorded. -/
theorem mem_of_spent (h : Ledger w.utxos w.draft.inputs) (hs : s.Resolves w) {u : Utxo}
    (hu : u ∈ s.utxos) : u ∈ w.utxos := by
  obtain ⟨e, he, heu⟩ := forall₂_mem hs.utxos hu
  obtain ⟨v, hv, hev⟩ := h.bound e ((Slots.sorted_perm _).mem_iff.mp he)
  obtain rfl := Option.some.inj (heu.symm.trans hev)
  exact hv

end Ledger

namespace Operation

/-- No two inputs spend the same output, where the ids of the spent outputs have no blanks. -/
theorem inputs_spend_apart {s t : Session} {u : Unsigned} (hr : s.wallet.Reachable)
    (h : Answers prepare s u t) (hu : ∀ v ∈ u.spending.utxos, v.txid.Unspaced) :
    (u.transaction.inputs.map fun i => (i.txid, i.vout)).Nodup := by
  obtain ⟨-, hp⟩ := h.prepared
  have hledger := hr.ledger
  have hlower : ∀ v ∈ u.spending.utxos, v.txid.Lowercase :=
    fun v hv => hledger.lowercase v (hledger.mem_of_spent hp.resolves hv)
  have hinputs : (u.transaction.inputs.map fun i => (i.txid, i.vout)) =
      u.spending.utxos.map fun v => (v.txid.bytes, (v.vout : Int)) := by
    refine List.ext_getElem? fun i => ?_
    rw [List.getElem?_map, List.getElem?_map, hp.getElem?_inputs]
    cases u.spending.utxos[i]? <;> rfl
  rw [hinputs]
  refine List.pairwise_map.mpr ?_
  refine (List.pairwise_map.mp (hledger.nodup_spent hp.resolves)).imp_of_mem ?_
  intro v v' hv hv' hne heq
  obtain ⟨hbytes, hvout⟩ := Prod.mk.inj heq
  -- without blanks equal bytes have equal texts, which the ledger rules out
  have htext := HexText.text_inj (hlower v hv) (hu v hv) (hlower v' hv') (hu v' hv') hbytes
  have hvout : v.vout = v'.vout := by exact_mod_cast hvout
  exact hne (by rw [Utxo.outpoint, Utxo.outpoint, htext, hvout])

end Operation

/-! ## Two payments -/

namespace TwoPayments

open TwoHeights (key keyOnly)

def keyText : String := "f9308a019258c31049344f85f89d5229b531c845836f99b08601f113bce036f9"

def store : Store where
  keys := [{ publicKey := .ofBytes key }]

def descriptor : Descriptor := ⟨key, none⟩

def output : OutputKey where
  key := Bytes.ofNatBE 32 0x418c46636d9e1a683f58e35b42336e776fdcc3b2d4e39e7a0bf1ab0716e3c5fa
  odd := false

def commitment : Commitment := ⟨key, [], none, output⟩

/-- A payment to the key by the first output of a transaction. -/
def utxo (txid : HexText) : Utxo := ⟨txid, 0, 60000, keyOnly⟩

def draft (a b : HexText) : Draft where
  inputs := [(0, { utxo := some (utxo a) }), (1, { utxo := some (utxo b) })]
  outputs := [(0, ⟨keyOnly, some 119500⟩)]

def session (a b : HexText) : Session where
  wallet := { store, utxos := [utxo a, utxo b], draft := draft a b }

theorem imports : ((CommandLine.Command.perform .regtest (.importKey keyText true)).runOn
    { wallet := {} }).2.wallet = { store } := by
  decide +kernel

theorem text_eq : descriptor.text = keyOnly := by
  decide +kernel

theorem reads : Descriptor.read store keyOnly = .ok descriptor := by
  have h : (Descriptor.read store keyOnly).toOption.map
      (fun d => (d.internalKey, d.tree.isNone)) = some (key, true) := by
    decide +kernel
  obtain ⟨⟨k, tree⟩, hd, he⟩ := exists_of_map_toOption h
  obtain ⟨rfl, ht⟩ := Prod.mk.inj he
  obtain rfl := Option.isNone_iff_eq_none.mp ht
  exact hd

theorem commits : descriptor.commit = .ok commitment := by
  have h : PublicKey.tweak key none = .ok output := by
    simp only [PublicKey.tweak, tapTweak, HashTag.hash_eq_by]
    decide +kernel
  simp only [descriptor, Descriptor.commit, h]
  rfl

theorem writable (txid : HexText) : (utxo txid).Writable where
  vout := Text.isWritable_of_lt (by decide : 0 < 10 ^ 20)
  value := Text.isWritable_of_lt (by decide : 60000 < 10 ^ 20)

theorem both_writable (a b : HexText) : ∀ v ∈ [utxo a, utxo b], Text.isWritable v.vout = true :=
  List.forall_mem_cons.mpr ⟨(writable a).vout, List.forall_mem_singleton.mpr (writable b).vout⟩

/-- The key is set to receive a payment, which is then recorded. -/
theorem paid {w : Wallet} (h : w.Reachable) (hs : w.store = store) (hp : w.PlacesWritable)
    {txid : HexText} {x : String} (hx : HexText.ofString x = .ok txid)
    (hf : ∀ v ∈ w.utxos, v.outpoint ≠ (utxo txid).outpoint) :
    Wallet.Reachable { w with inbound := none, utxos := w.utxos ++ [utxo txid] } := by
  have hr := h.receive (Wallet.readDescriptor_eq_ok.mpr (hs ▸ reads))
  rw [text_eq] at hr
  have ha := Wallet.added_of_fresh (w := { w with inbound := none }) (u := utxo txid) hf
  rw [← ha]
  exact hr.fund rfl hx (writable txid) hp

/-- The key is imported, two payments to it are recorded, and a draft spends both. -/
theorem reachable {a b : HexText} {x y : String} (ha : HexText.ofString x = .ok a)
    (hb : HexText.ofString y = .ok b) (hne : (utxo a).outpoint ≠ (utxo b).outpoint) :
    (session a b).wallet.Reachable := by
  have himport : Wallet.Reachable { store } :=
    imports ▸ Wallet.Reachable.empty.step (s := { wallet := {} }) .regtest (.importKey keyText true)
  have hone : Wallet.Reachable { store, utxos := [utxo a] } := paid himport rfl nofun ha (by simp)
  have hfirst : Wallet.PlacesWritable { store, utxos := [utxo a] } :=
    List.forall_mem_singleton.mpr (writable a).vout
  have htwo : Wallet.Reachable { store, utxos := [utxo a, utxo b] } :=
    paid hone rfl hfirst hb (by simpa using hne)
  have hindex : Text.isWritable (0 : Nat) = true ∧ Text.isWritable (1 : Nat) = true :=
    ⟨Text.isWritable_of_lt (by decide), Text.isWritable_of_lt (by decide)⟩
  have hbound := (htwo.bind (j := 0) (u := utxo a) rfl rfl hindex.1 (both_writable a b)).bind (j := 1)
    (u := utxo b) rfl
    (Wallet.spentElsewhere_eq_false.mpr fun e he _ heq => by
      obtain rfl := List.mem_singleton.mp he
      exact hne (Option.some.inj heq)) hindex.2 (both_writable a b)
  have hpaid := hbound.pay (Wallet.readDescriptor_eq_ok.mpr reads) hindex.1
    (Text.isWritable_of_lt (by decide : 119500 < 10 ^ 20))
  rw [text_eq] at hpaid
  exact hpaid

variable (a b : HexText)

def spending : Spending where
  timelocks := ⟨false, none, [(0, none), (1, none)]⟩
  utxos := [utxo a, utxo b]
  inputs := [descriptor, descriptor]
  outputs := [descriptor]

def unsigned : Unsigned :=
  (spending a b).toUnsigned [119500] [commitment, commitment] [commitment]

theorem inputs_sorted : (draft a b).inputs.sorted = (draft a b).inputs := by
  simp [Slots.sorted, draft, List.mergeSort]

theorem outputs_sorted : (draft a b).outputs.sorted = (draft a b).outputs := by
  simp [Slots.sorted, draft]

theorem resolves : (spending a b).Resolves (session a b).wallet where
  timelocks := rfl
  indices := by
    simp only [Draft.checkIndices, Slots.firstGap, session, inputs_sorted, outputs_sorted]
    rfl
  utxos := by
    rw [session, inputs_sorted]
    exact .cons rfl (.cons rfl .nil)
  inputs := .cons reads (.cons reads .nil)
  outputs := by
    rw [session, outputs_sorted]
    exact .cons reads .nil

theorem values_found :
    (draft a b).outputValues (spending a b).available = .ok [119500] := by
  have hg : (draft a b).givenValues = [some 119500] := by
    rw [Draft.givenValues, outputs_sorted]
    rfl
  have hr : (draft a b).required = 119500 := by
    rw [Draft.required, hg]
    simp [draft]
  have ha : (spending a b).available = 120000 := by
    change (utxo a).value + ((utxo b).value + 0) = 120000
    have hv (txid : HexText) : (utxo txid).value = 60000 := rfl
    rw [hv, hv]
  have hone : ¬ 1 < [some 119500].count (none : Option Nat) := by decide
  have hcovered : ¬ ((120000 : Nat) : Int) < (119500 : Nat) := by omega
  rw [Draft.outputValues, hr, hg, ha, if_neg hone, if_neg hcovered]
  simp

theorem prepares : ∃ t, Operation.Answers Operation.prepare (session a b) (unsigned a b) t :=
  ⟨_, Operation.answers_prepare.mpr ⟨spending a b, [commitment, commitment], [commitment], [119500],
    resolves a b, .cons commits (.cons commits .nil), .cons commits .nil, values_found a b, rfl,
    rfl⟩⟩

def firstText : String := "0000000000000000000000000000000000000000000000000000000000000001"

def secondText : String := "0000000000000000000000000000000000000000000000000000000000000002"

/-- The first id with a blank behind its first byte. -/
def spacedText : String := "00 00000000000000000000000000000000000000000000000000000000000001"

def first : HexText := .ofBytes (Bytes.ofNatBE 32 1)

def second : HexText := .ofBytes (Bytes.ofNatBE 32 2)

def spaced : HexText := ⟨spacedText, by decide +kernel⟩

theorem accepted : HexText.ofString firstText = .ok first ∧
    HexText.ofString secondText = .ok second ∧ HexText.ofString spacedText = .ok spaced := by
  decide +kernel

/-- Payments of two transactions are spent apart. -/
theorem first_second_apart : (session first second).wallet.Reachable ∧
    (∃ t, Operation.Answers Operation.prepare (session first second) (unsigned first second) t) ∧
    (∀ v ∈ (unsigned first second).spending.utxos, v.txid.Unspaced) ∧
    ((unsigned first second).transaction.inputs.map fun i => (i.txid, i.vout)).Nodup := by
  have hr : (session first second).wallet.Reachable :=
    reachable accepted.1 accepted.2.1 (by decide +kernel)
  have hu : ∀ v ∈ (unsigned first second).spending.utxos, v.txid.Unspaced := by
    intro v hv
    rcases List.mem_cons.mp hv with rfl | hv
    · exact HexText.unspaced_ofBytes _
    · obtain rfl := List.mem_singleton.mp hv
      exact HexText.unspaced_ofBytes _
  obtain ⟨t, ht⟩ := prepares first second
  exact ⟨hr, ⟨t, ht⟩, hu, Operation.inputs_spend_apart hr ht hu⟩

/-- A payment that is recorded under two texts of one id is spent by two inputs. -/
theorem first_spaced_together : (session first spaced).wallet.Reachable ∧
    (∃ t, Operation.Answers Operation.prepare (session first spaced) (unsigned first spaced) t) ∧
    ¬ ((unsigned first spaced).transaction.inputs.map fun i => (i.txid, i.vout)).Nodup := by
  refine ⟨reachable accepted.1 accepted.2.2 (by decide +kernel),
    prepares first spaced, ?_⟩
  decide +kernel

end TwoPayments
end Taproot
