import Taproot.Proofs.Hash.Windows
import Taproot.Proofs.Miniscript.Wrapping
import Taproot.Proofs.Spend.SignedPaths
import Taproot.Proofs.Wallet.Preparation

/-! # Signatures of a built transaction

The digests that were signed are those of the transaction that is built: they do not cover its
witnesses, and they are made with the index and the spent outputs of all its inputs.
-/
namespace Taproot

/-! ## Digests and witnesses -/

theorem encodeAll_zipWith {α β : Type} {f : α → Except EncodingError Bytes} {g : α → β → α}
    (h : ∀ x y, f (g x y) = f x) {xs : List α} {ys : List β} (hl : xs.length = ys.length) :
    encodeAll f (List.zipWith g xs ys) = encodeAll f xs := by
  induction xs generalizing ys with
  | nil => rfl
  | cons x xs ih =>
    cases ys with
    | nil => cases hl
    | cons y ys =>
      rw [List.zipWith_cons_cons, encodeAll, encodeAll, h, ih (Nat.succ.inj hl)]

namespace Transaction

variable {tx : Transaction} {ws : List SpendWitness}

theorem length_withWitnesses (h : tx.inputs.length = ws.length) :
    (tx.withWitnesses ws).inputs.length = tx.inputs.length := by
  rw [withWitnesses, List.length_zipWith, h, Nat.min_self]

/-- No digest covers the witnesses. -/
theorem digest_withWitnesses (h : tx.inputs.length = ws.length) :
    (tx.withWitnesses ws).digest = tx.digest := by
  funext index spent type leaf
  have hm : (tx.withWitnesses ws).digestMessage index spent type leaf =
      tx.digestMessage index spent type leaf := by
    have ho := encodeAll_zipWith (f := TxIn.encodeOutpoint)
      (g := fun (i : TxIn) (w : SpendWitness) => { i with witness := w.items })
      (fun _ _ => rfl) h
    have hs := encodeAll_zipWith (f := TxIn.encodeSequence)
      (g := fun (i : TxIn) (w : SpendWitness) => { i with witness := w.items })
      (fun _ _ => rfl) h
    simp only [digestMessage, withWitnesses, ho, hs]
  rw [digest, digest, hm, length_withWitnesses h]

theorem getElem?_withWitnesses {i : Nat} {x : TxIn} {w : SpendWitness}
    (hx : tx.inputs[i]? = some x) (hw : ws[i]? = some w) :
    (tx.withWitnesses ws).inputs[i]? = some { x with witness := w.items } := by
  rw [withWitnesses, List.getElem?_zipWith, hx, hw]

end Transaction

/-! ## Signing the inputs -/

/-- The notice that is given of the path of an input. -/
def SpendWitness.pathNotice (w : SpendWitness) (index : Nat) : Notice :=
  match w.leaf with
  | none => .keyPath index
  | some leaf => .scriptPath index leaf

/-- The notice that is given of a built transaction. -/
def Built.notice (b : Built) : Notice :=
  .built b.txid.hex (Transaction.virtualSize b.weight) b.feeRate

/-- The transaction is the one that was prepared with the witnesses in it, and the rest is computed
from it. -/
structure Built.Completes (u : Unsigned) (b : Built) : Prop where
  transaction : b.transaction = u.transaction.withWitnesses b.witnesses
  txid : b.transaction.txid = .ok b.txid
  weight : b.transaction.weight = .ok b.weight
  encoded : b.transaction.encode = .ok b.encoded
  fee : b.fee = (totalValue u.spent - totalValue b.transaction.outputs).toNat
  feeRate : feeRate? b.fee (Transaction.virtualSize b.weight) = some b.feeRate

namespace Operation

variable {s t : Session} {u : Unsigned}

/-- The search that an input goes through. -/
def inputSearch (u : Unsigned) (store : Store) (index : Nat) (c : Commitment) : SpendSearch :=
  spend c store (u.spending.timelocks.forInput index) fun leaf =>
    u.transaction.digest index u.spent 0 leaf

theorem answers_signInput {index : Nat} {c : Commitment} {w : SpendWitness} :
    Answers (signInput u index c) s w t ↔
      (inputSearch u s.wallet.store index c).result = .ok w ∧
        t = { s with notices := s.notices ++ [w.pathNotice index] } := by
  simp only [signInput, answers_bind, answers_wallet, answers_ofExcept, answers_inform,
    answers_pure]
  constructor
  · rintro ⟨_, _, ⟨rfl, rfl⟩, _, _, ⟨hw, rfl⟩, _, _, rfl, rfl, rfl⟩
    exact ⟨hw, rfl⟩
  · rintro ⟨hw, rfl⟩
    exact ⟨_, _, ⟨rfl, rfl⟩, w, s, ⟨hw, rfl⟩, (), _, rfl, rfl, rfl⟩

theorem Answers.signInputs {index : Nat} {cs : List Commitment} {ws : List SpendWitness}
    (h : Answers (signInputs u index cs) s ws t) : SameBut s t ∧ cs.length = ws.length ∧
      ∀ (i : Nat) (c : Commitment) (w : SpendWitness), cs[i]? = some c → ws[i]? = some w →
        (inputSearch u s.wallet.store (index + i) c).result = .ok w := by
  induction cs generalizing s index ws with
  | nil =>
    rw [Operation.signInputs, answers_pure] at h
    obtain ⟨rfl, rfl⟩ := h
    exact ⟨⟨rfl, rfl⟩, rfl, fun i c w hc => by simp at hc⟩
  | cons c cs ih =>
    simp only [Operation.signInputs, answers_bind, answers_pure, answers_signInput] at h
    obtain ⟨w, _, ⟨hw, rfl⟩, ws', _, hws, rfl, rfl⟩ := h
    obtain ⟨ht, hl, hrest⟩ := ih hws
    refine ⟨ht, by rw [List.length_cons, List.length_cons, hl], fun i c' w' hc hw' => ?_⟩
    cases i with
    | zero =>
      obtain rfl : c = c' := by simpa using hc
      obtain rfl : w = w' := by simpa using hw'
      exact hw
    | succ i =>
      have h := hrest i c' w' (by simpa using hc) (by simpa using hw')
      rw [Nat.add_assoc, Nat.add_comm 1 i] at h
      exact h

theorem answers_build {b : Built} : Answers build s b t ↔ ∃ u r r', Answers prepare s u r ∧
    Answers (signInputs u 0 u.commitments) r b.witnesses r' ∧ b.Completes u ∧
    t = { r' with notices := r'.notices ++ [b.notice] } := by
  unfold build
  simp only [answers_bind, answers_ofExcept]
  constructor
  · rintro ⟨u, r, hu, ws, r', hws, txid, _, ⟨htxid, rfl⟩, weight, _, ⟨hweight, rfl⟩, encoded, _,
      ⟨hencoded, rfl⟩, h⟩
    split at h
    · exact absurd h not_answers_throw
    · rename_i feeRate hrate
      simp only [answers_bind, answers_inform, answers_pure] at h
      obtain ⟨_, _, rfl, rfl, rfl⟩ := h
      exact ⟨u, r, r', hu, hws, ⟨rfl, htxid, hweight, hencoded, rfl, hrate⟩, rfl⟩
  · rintro ⟨u, r, r', hu, hws, hb, rfl⟩
    have htx := hb.transaction
    have hrate := hb.feeRate
    rw [hb.fee, htx] at hrate
    refine ⟨u, r, hu, b.witnesses, r', hws, b.txid, r', ⟨htx ▸ hb.txid, rfl⟩, b.weight, r',
      ⟨htx ▸ hb.weight, rfl⟩, b.encoded, r', ⟨htx ▸ hb.encoded, rfl⟩, ?_⟩
    simp only [hrate, answers_bind, answers_inform, answers_pure]
    refine ⟨(), _, rfl, ?_, rfl⟩
    rw [← htx, ← hb.fee]

end Operation

/-! ## Coins -/

/-- What an input spends: a recorded output and the commitment of its descriptor. -/
structure Coin where
  utxo : Utxo
  commitment : Commitment

/-- The input of the draft names the utxo, whose descriptor has the commitment. -/
structure Coin.BoundTo (w : Wallet) (i : DraftInput) (c : Coin) : Prop where
  utxo : i.utxo = some c.utxo
  commitment : ∃ d, Descriptor.read w.store c.utxo.descriptor = .ok d ∧ d.commit = .ok c.commitment

/-- The value and the script of the output that is spent. -/
def Coin.output (c : Coin) : TxOut := ⟨c.utxo.value, c.commitment.outputScript⟩

theorem Coin.BoundTo.tweak {w : Wallet} {i : DraftInput} {c : Coin} (h : c.BoundTo w i) :
    PublicKey.tweak c.commitment.internalKey c.commitment.root = .ok c.commitment.output := by
  obtain ⟨d, -, hd⟩ := h.commitment
  obtain ⟨o, ho, he⟩ := Descriptor.commit_eq_ok hd
  rw [he]
  exact ho

/-- The coins of lists that run in parallel. -/
theorem exists_coins {w : Wallet} {es : List (Int × DraftInput)} {us : List Utxo}
    {ds : List Descriptor} {cs : List Commitment}
    (hu : List.Forall₂ (fun e u => e.2.utxo = some u) es us)
    (hd : List.Forall₂ (fun u d => Descriptor.read w.store u.descriptor = .ok d) us ds)
    (hc : List.Forall₂ (fun d c => d.commit = .ok c) ds cs) :
    ∃ coins : List Coin, coins.map Coin.utxo = us ∧ coins.map Coin.commitment = cs ∧
      List.Forall₂ (fun e c => c.BoundTo w e.2) es coins := by
  induction hu generalizing ds cs with
  | nil =>
    cases hd
    cases hc
    exact ⟨[], rfl, rfl, .nil⟩
  | @cons e u es us he _ ih =>
    cases hd with
    | cons hdu hd =>
      cases hc with
      | @cons _ c _ cs hcd hc =>
        obtain ⟨coins, hus, hcs, hb⟩ := ih hd hc
        refine ⟨⟨u, c⟩ :: coins, ?_, ?_, .cons ⟨he, _, hdu, hcd⟩ hb⟩
        · rw [List.map_cons, hus]
        · rw [List.map_cons, hcs]

theorem txOuts_coins (coins : List Coin) :
    Spending.txOuts ((coins.map Coin.utxo).map Utxo.value) (coins.map Coin.commitment) =
      coins.map Coin.output := by
  induction coins with
  | nil => rfl
  | cons c coins ih =>
    simp only [Spending.txOuts, List.map_cons, List.zipWith_cons_cons] at ih ⊢
    rw [ih]
    rfl

namespace Operation

/-! ## Built transactions -/

/-- Every signature of a built transaction verifies over the digest of that transaction for its
input, all the outputs that it spends, and the path of the input. -/
theorem signatures_verify {s t : Session} {b : Built} (h : Answers build s b t)
    (hs : s.wallet.store.Matches) :
    ∃ (coins : List Coin) (timelocks : Timelocks), s.wallet.draft.timelocks? = some timelocks ∧
      List.Forall₂ (fun e c => c.BoundTo s.wallet e.2) s.wallet.draft.inputs.sorted coins ∧
      b.transaction.inputs.length = coins.length ∧ b.witnesses.length = coins.length ∧
      ∀ (i : Nat) (c : Coin) (w : SpendWitness), coins[i]? = some c → b.witnesses[i]? = some w →
        (∃ x, b.transaction.inputs[i]? = some x ∧ x.txid = c.utxo.txid.bytes ∧
          x.vout = c.utxo.vout ∧ x.witness = w.items) ∧
        w.Signed c.commitment s.wallet.store (timelocks.forInput i) fun leaf =>
          b.transaction.digest i (coins.map Coin.output) 0 leaf := by
  obtain ⟨u, r, r', hu, hws, hbuilt, -⟩ := answers_build.mp h
  have hb := hbuilt.transaction
  obtain ⟨hr, hp⟩ := hu.prepared
  obtain ⟨-, hl, hsearch⟩ := hws.signInputs
  obtain ⟨coins, hus, hcs, hbound⟩ :=
    exists_coins hp.resolves.utxos hp.resolves.inputs hp.commitments
  have hspent : u.spent = coins.map Coin.output := by
    rw [hp.spent_eq, ← hus, ← hcs, txOuts_coins]
  have hcoins : u.commitments.length = coins.length := by rw [← hcs, List.length_map]
  have hinputs : u.transaction.inputs.length = b.witnesses.length := by
    rw [← hp.length_commitments, hl]
  refine ⟨coins, u.spending.timelocks, hp.resolves.timelocks, hbound, ?_, ?_, ?_⟩
  · rw [hb, Transaction.length_withWitnesses hinputs, hinputs, ← hl, hcoins]
  · rw [← hl, hcoins]
  · intro i c w hc hw
    have hutxo : u.spending.utxos[i]? = some c.utxo := by rw [← hus, List.getElem?_map, hc]; rfl
    have hcommit : u.commitments[i]? = some c.commitment := by
      rw [← hcs, List.getElem?_map, hc]
      rfl
    have hx := hp.getElem?_inputs i
    rw [hutxo, Option.map_some] at hx
    constructor
    · rw [hb]
      exact ⟨_, Transaction.getElem?_withWitnesses hx hw, rfl, rfl, rfl⟩
    · obtain ⟨e, -, he⟩ := forall₂_getElem? hbound hc
      have hres := hsearch i c.commitment w hcommit hw
      rw [Nat.zero_add, inputSearch, hr.1, hspent] at hres
      rw [hb, Transaction.digest_withWitnesses hinputs]
      exact signed_of_spend hs he.tweak hres

end Operation

namespace LeafSpend

def secret : Bytes := Bytes.ofNatBE 32 1

/-- The public key of the secret. -/
def key : Bytes :=
  Bytes.ofNatBE 32 0x79be667ef9dcbbac55a06295ce870b07029bfcdb2dce28d959f2815b16f81798

def internalKey : Bytes :=
  Bytes.ofNatBE 32 0xf9308a019258c31049344f85f89d5229b531c845836f99b08601f113bce036f9

def text : String := "tr(f9308a019258c31049344f85f89d5229b531c845836f99b08601f113bce036f9," ++
  "pk(79be667ef9dcbbac55a06295ce870b07029bfcdb2dce28d959f2815b16f81798))"

def utxo : Utxo := ⟨.ofBytes (Bytes.ofNatBE 32 1), 0, 60000, text⟩

def draft : Draft where
  inputs := [(0, ⟨some utxo, none⟩)]
  outputs := [(0, ⟨text, none⟩)]
  fee := 500

/-- The secret of the internal key is not known. -/
def store : Store where
  keys := [{ secret := some (.ofBytes secret), publicKey := .ofBytes key },
    { publicKey := .ofBytes internalKey }]

def session : Session where
  wallet := { store, draft }

theorem keys_known : Secret.publicKey secret = .ok key ∧ store.activeSecret? key = some secret ∧
    store.activeSecret? internalKey = none := by
  decide +kernel

theorem store_matches : store.Matches := by
  intro p hp s hs
  rcases List.mem_cons.mp hp with rfl | hp
  · obtain rfl := Option.some.inj hs
    rw [HexText.bytes_ofBytes, HexText.bytes_ofBytes]
    exact keys_known.1
  · obtain rfl := List.mem_singleton.mp hp
    cases hs

theorem activeSecret?_eq {k s : Bytes} (h : store.activeSecret? k = some s) : s = secret := by
  obtain ⟨p, hp, hs⟩ := Option.bind_eq_some_iff.mp h
  rcases List.mem_cons.mp (List.mem_of_find?_eq_some hp) with rfl | hm
  · exact (Option.some.inj hs).symm.trans (HexText.bytes_ofBytes secret)
  · obtain rfl := List.mem_singleton.mp hm
    cases hs

theorem inputs_sorted : draft.inputs.sorted = [(0, ⟨some utxo, none⟩)] := by
  simp [Slots.sorted, draft]

theorem outputs_sorted : draft.outputs.sorted = [(0, ⟨text, none⟩)] := by
  simp [Slots.sorted, draft]

def leaf : Miniscript.Typed := .checkedKey key

def descriptor : Descriptor := ⟨internalKey, some (.leaf leaf)⟩

/-- The key of a tree that is one leaf with a checked key. -/
def loneKey : ScriptTree → Option Bytes
  | .leaf ⟨.wrap .c (.key k), _, _⟩ => some k
  | _ => none

theorem eq_leaf_of_loneKey {t : ScriptTree} {k : Bytes} (h : loneKey t = some k) :
    t = .leaf (.checkedKey k) := by
  unfold loneKey at h
  split at h
  · cases h
    exact congrArg ScriptTree.leaf (Miniscript.Typed.eq_of_fragment rfl)
  · cases h

theorem reads : Descriptor.read store text = .ok descriptor := by
  have h : (Descriptor.read store text).toOption.map
      (fun d => (d.internalKey, d.tree.bind loneKey)) = some (internalKey, some key) := by
    decide +kernel
  obtain ⟨d, hd, he⟩ := exists_of_map_toOption h
  obtain ⟨k, tree⟩ := d
  obtain ⟨rfl, hk⟩ := Prod.mk.inj he
  obtain ⟨t, rfl, ht⟩ := Option.bind_eq_some_iff.mp hk
  rw [hd, eq_leaf_of_loneKey ht]
  rfl

def root : Bytes :=
  Bytes.ofNatBE 32 0x763e9da064b9dc0471fb0f3c8fa2c84b4b84d2ca992497c12d2274386795aa8e

def output : OutputKey where
  key := Bytes.ofNatBE 32 0x34a3ed9cf1f8d9a9c84f4ce417fbcd187785d0689f323a9341f72a1a0a69b10f
  odd := false

def leafPath : LeafPath := ⟨leaf, leaf.fragment.script.bytes, []⟩

def commitment : Commitment := ⟨internalKey, [leafPath], some root, output⟩

def spending : Spending where
  timelocks := ⟨false, none, [(0, none)]⟩
  utxos := [utxo]
  inputs := [descriptor]
  outputs := [descriptor]

def unsigned : Unsigned := spending.toUnsigned [59500] [commitment] [commitment]

def message : Bytes :=
  Bytes.ofNatBE 32 0x0fa7897c61d57e00352889b8c8705e55853ca2c3589c0d3707216a7df19a8155

def signature : Bytes :=
  Bytes.ofNatBE 32 0xf638cb7b30c7e74942895a9ff9007bdaadf4b452173c99546d29f460461139f2 ++
    Bytes.ofNatBE 32 0x1292898f403adf5dc37ccd149a191a509e0b7c27e5cbf87ab564d43e617eb8f8

def witness : SpendWitness where
  items := [signature, leafPath.script, commitment.controlBlock leafPath]
  leaf := some 0

def transaction : Transaction := unsigned.transaction.withWitnesses [witness]

theorem hashed : leafPath.hash = root ∧ PublicKey.tweak internalKey (some root) = .ok output := by
  simp only [LeafPath.hash, leafHash, PublicKey.tweak, tapTweak, HashTag.hash_eq_by]
  decide +kernel

theorem message_signed :
    unsigned.transaction.digest 0 unsigned.spent 0 (some root) = .ok message ∧
      Secret.sign secret message = .ok signature := by
  simp only [Transaction.digest, Transaction.digestMessage, Secret.sign, Secret.nonce, challenge,
    HashTag.hash_eq_by, sha256_eq_by]
  decide +kernel

theorem encoded : transaction.encode.toOption.isSome = true ∧
    transaction.txid.toOption.isSome = true ∧ transaction.weight = .ok 513 ∧
    (totalValue unsigned.spent - totalValue transaction.outputs).toNat = 500 ∧
    feeRate? 500 (Transaction.virtualSize 513) = some "3.88" := by
  decide +kernel

theorem commits : descriptor.commit = .ok commitment := by
  have h : leafHash tapscriptVersion leaf.fragment.script.bytes = root := hashed.1
  simp only [descriptor, Descriptor.commit, ScriptTree.commit, h, hashed.2]
  rfl

theorem resolves : spending.Resolves session.wallet where
  timelocks := rfl
  indices := by
    simp [Draft.checkIndices, Slots.firstGap, session, inputs_sorted, outputs_sorted,
      Slots.firstGapFrom]
    rfl
  utxos := by
    rw [session, inputs_sorted]
    exact .cons rfl .nil
  inputs := .cons reads .nil
  outputs := by
    rw [session, outputs_sorted]
    exact .cons reads .nil

theorem prepares : Operation.Answers Operation.prepare session unsigned
    (Operation.afterCommitments session [commitment, commitment]) := by
  refine Operation.answers_prepare.mpr ⟨spending, [commitment], [commitment], [59500], resolves,
    .cons commits .nil, .cons commits .nil, ?_, rfl, rfl⟩
  have hg : draft.givenValues = [none] := by
    rw [Draft.givenValues, outputs_sorted]
    rfl
  simp only [session, Draft.outputValues, Draft.required, hg]
  rfl

theorem leaf_satisfied (timelock : InputTimelock) (digest : Except TransactionError Bytes) :
    (leafPath.leaf.fragment.satisfy (leafMaterial store timelock digest)).witness =
      some [(signDigest secret digest).toOption.getD []] := by
  have h : leafPath.leaf.fragment = .wrap .c (.key key) := rfl
  simp only [h, Miniscript.Fragment.satisfy, Miniscript.Fragment.satisfyWrapped, leafMaterial,
    keys_known.2.1, Option.map_some]

theorem searches : (Operation.inputSearch unsigned store 0 commitment).result = .ok witness := by
  have hd : signDigest secret (unsigned.transaction.digest 0 unsigned.spent 0 (some leafPath.hash))
      = .ok signature := by
    rw [hashed.1]
    exact signDigest_eq_ok.mpr ⟨message, message_signed⟩
  have hs : leafPath.Signs store fun leaf =>
      unsigned.transaction.digest 0 unsigned.spent 0 leaf := by
    intro k s hk
    obtain rfl := activeSecret?_eq hk
    exact ⟨signature, hd⟩
  have ho : leafPath.opens store (unsigned.spending.timelocks.forInput 0) = true := by
    have h : leafPath.leaf.fragment = .wrap .c (.key key) := rfl
    rw [LeafPath.opens, h, Miniscript.Fragment.holds, Miniscript.Fragment.holds, granted,
      keys_known.2.1]
    rfl
  obtain ⟨w, hw, hr⟩ := spendLeaf_of_opens (c := commitment) [] [] 0 hs ho
  have hw' : w = [signature] := by
    rw [LeafPath.outcome, leaf_satisfied, hd] at hw
    exact (Option.some.inj hw).symm
  have hk : store.activeSecret? commitment.internalKey = none := keys_known.2.2
  rw [Operation.inputSearch, spend, hk]
  rw [hw'] at hr
  exact hr

def built : Built where
  transaction := transaction
  encoded := transaction.encode.toOption.get encoded.1
  txid := transaction.txid.toOption.get encoded.2.1
  weight := 513
  fee := 500
  feeRate := "3.88"
  witnesses := [witness]

theorem completes : built.Completes unsigned where
  transaction := rfl
  encoded := eq_ok_get encoded.1
  txid := eq_ok_get encoded.2.1
  weight := encoded.2.2.1
  fee := encoded.2.2.2.1.symm
  feeRate := encoded.2.2.2.2

theorem builds : ∃ t, Operation.Answers Operation.build session built t := by
  have hs : ∃ r, Operation.Answers (Operation.signInputs unsigned 0 unsigned.commitments)
      (Operation.afterCommitments session [commitment, commitment]) built.witnesses r := by
    have hc : unsigned.commitments = [commitment] := rfl
    simp only [hc, Operation.signInputs, Operation.answers_bind, Operation.answers_pure,
      Operation.answers_signInput]
    exact ⟨_, witness, _, ⟨searches, rfl⟩, [], _, ⟨rfl, rfl⟩, rfl, rfl⟩
  obtain ⟨r, hs⟩ := hs
  exact ⟨_, Operation.answers_build.mpr ⟨unsigned, _, r, prepares, hs, completes, rfl⟩⟩

/-- The signature of the leaf is made for the transaction that it stands in. -/
theorem signed : (∃ t, Operation.Answers Operation.build session built t) ∧ store.Matches ∧
    witness.Signed commitment store (spending.timelocks.forInput 0) fun leaf =>
      built.transaction.digest 0 [⟨60000, commitment.outputScript⟩] 0 leaf := by
  refine ⟨builds, store_matches, ?_⟩
  obtain ⟨t, ht⟩ := builds
  obtain ⟨coins, timelocks, htimelocks, hcoins, -, -, hsigned⟩ :=
    Operation.signatures_verify ht store_matches
  obtain rfl : spending.timelocks = timelocks := Option.some.inj htimelocks
  have hinputs : session.wallet.draft.inputs.sorted = [(0, ⟨some utxo, none⟩)] := inputs_sorted
  rw [hinputs] at hcoins
  obtain ⟨c, rest, hc, hrest, rfl⟩ := List.forall₂_cons_left_iff.mp hcoins
  cases hrest
  obtain ⟨u, commitment'⟩ := c
  obtain rfl : utxo = u := Option.some.inj hc.utxo
  obtain ⟨d, hd, hcommit⟩ := hc.commitment
  obtain rfl : descriptor = d := Except.ok.inj (reads.symm.trans hd)
  obtain rfl : commitment = commitment' := Except.ok.inj (commits.symm.trans hcommit)
  exact (hsigned 0 ⟨utxo, commitment⟩ witness rfl rfl).2

end LeafSpend
end Taproot
