import Taproot.Proofs.Store.Secrets
import Taproot.Proofs.Wallet.Calls

/-! # Secrets that belong to their keys

Whatever is done to a wallet, its store keeps what it has: no entry is lost, moved or renamed, and a
secret half that is there stays. Where what is imported has the right length, every secret half
belongs to the key or the image that it stands beside.
-/
namespace Taproot

namespace Wallet

/-- The store of the second wallet has grown from that of the first. -/
def StoreGrows (w w' : Wallet) : Prop := w.store.Grows w'.store

instance : IsTrans Wallet StoreGrows := ⟨fun _ _ _ => Store.Grows.trans⟩

instance : Std.Refl StoreGrows := ⟨fun w => Store.Grows.refl w.store⟩

def SameStore (w w' : Wallet) : Prop := w.store = w'.store

instance : IsTrans Wallet SameStore := ⟨fun _ _ _ => Eq.trans⟩

instance : Std.Refl SameStore := ⟨fun _ => rfl⟩

/-- The property holds of both stores or of neither. -/
def StoreAlike (Q : Store → Prop) (w w' : Wallet) : Prop := Q w'.store ↔ Q w.store

instance (Q : Store → Prop) : IsTrans Wallet (StoreAlike Q) := ⟨fun _ _ _ h h' => h'.trans h⟩

instance (Q : Store → Prop) : Std.Refl (StoreAlike Q) := ⟨fun _ => Iff.rfl⟩

end Wallet

namespace Operation

variable {α β : Type} {s t : Session}

/-- From every wallet the operation lets the store grow, whether it answers or is refused. -/
def Secures (a : Operation α) : Prop := ∀ s, Takes Wallet.StoreGrows a s

theorem Reads.secures {a : Operation α} (h : Reads a) : Secures a := fun _ => h.takes

theorem Secures.bind {a : Operation α} {f : α → Operation β} (ha : Secures a)
    (hf : ∀ x, Secures (f x)) : Secures (a >>= f) := fun s => (ha s).bind fun x t _ => hf x t

theorem Secures.map {a : Operation α} {f : α → β} (ha : Secures a) :
    Secures (a >>= fun x => pure (f x)) := ha.bind fun _ => (reads_pure _).secures

/-! ## Operations that leave the store as it is -/

/-- From every wallet the operation leaves the store as it is, whether it answers or is refused. -/
def KeepsStore (a : Operation α) : Prop := ∀ s, Takes Wallet.SameStore a s

theorem Reads.keepsStore {a : Operation α} (h : Reads a) : KeepsStore a := fun _ => h.takes

theorem KeepsStore.bind {a : Operation α} {f : α → Operation β} (ha : KeepsStore a)
    (hf : ∀ x, KeepsStore (f x)) : KeepsStore (a >>= f) := fun s => (ha s).bind fun x t _ => hf x t

theorem KeepsStore.map {a : Operation α} {f : α → β} (ha : KeepsStore a) :
    KeepsStore (a >>= fun x => pure (f x)) := ha.bind fun _ => (reads_pure _).keepsStore

theorem KeepsStore.secures {a : Operation α} (ha : KeepsStore a) : Secures a := by
  intro s
  have h : s.wallet.store = (runOn a s).2.wallet.store := ha s
  rw [Takes, Wallet.StoreGrows, ← h]
  exact Store.Grows.refl _

theorem keepsStore_edit {f : Wallet → Wallet} (h : ∀ w, (f w).store = w.store) :
    KeepsStore (edit f) := fun s => takes_edit (h s.wallet).symm

theorem keepsStore_throw_bind {e : WalletError} {f : α → Operation β} :
    KeepsStore (throw e >>= f) := fun _ => takes_throw_bind

theorem keepsStore_refuse_bind {e : WalletError} {f : α → Operation β} :
    KeepsStore (refuse e >>= f) := fun _ => takes_refuse_bind

theorem keepsStore_setInbound (text : String) : KeepsStore (setInbound text) := by
  refine (reads_readDescriptor text).keepsStore.bind fun d => ?_
  have hset : KeepsStore (edit fun w => { w with inbound := some d.text }) :=
    keepsStore_edit fun _ => rfl
  exact hset.bind fun _ => (reads_inform _).keepsStore.map

theorem keepsStore_addUtxo (u : Utxo) : KeepsStore (addUtxo u) := by
  intro s
  rw [Takes, Wallet.SameStore]
  rcases wallet_addUtxo u s with h | h <;> rw [h]
  exact (Wallet.store_added _ _).symm

theorem keepsStore_fundInbound (txid vout value : Json) :
    KeepsStore (fundInbound txid vout value) := by
  refine reads_wallet.keepsStore.bind fun w => ?_
  cases w.inbound with
  | none => exact (reads_throw _).keepsStore
  | some text =>
    have hfree : KeepsStore (edit fun w => { w with inbound := none }) :=
      keepsStore_edit fun _ => rfl
    exact (reads_ofExcept _ _).keepsStore.bind fun u => hfree.bind fun _ => keepsStore_addUtxo u

theorem keepsStore_editDraft (f : Draft → Draft) : KeepsStore (editDraft f) :=
  keepsStore_edit fun _ => rfl

theorem keepsStore_addInput (index utxoIndex : Int) : KeepsStore (addInput index utxoIndex) := by
  refine (reads_getUtxo utxoIndex).keepsStore.bind fun u => reads_draft.keepsStore.bind fun d => ?_
  refine (reads_findSame u _).keepsStore.bind fun found => ?_
  split
  · exact keepsStore_throw_bind
  · exact (keepsStore_editDraft _).bind fun _ => (reads_write _).keepsStore.bind fun _ =>
      (reads_announce _).keepsStore.map

theorem keepsStore_deleteInput (index : Int) : KeepsStore (deleteInput index) :=
  (reads_getInput index).keepsStore.bind fun _ =>
    (keepsStore_editDraft _).bind fun _ => reads_warnOfIdleLocktime.keepsStore.map

theorem keepsStore_setSequence (index height : Int) : KeepsStore (setSequence index height) := by
  unfold setSequence
  dsimp only
  split
  · exact keepsStore_refuse_bind
  · exact (reads_getInput index).keepsStore.bind fun _ =>
      (keepsStore_editDraft _).bind fun _ => (reads_announce _).keepsStore

theorem keepsStore_disableSequence (index : Int) : KeepsStore (disableSequence index) :=
  (reads_getInput index).keepsStore.bind fun _ => (keepsStore_editDraft _).bind fun _ =>
    (reads_announce _).keepsStore.bind fun _ => reads_warnOfIdleLocktime.keepsStore

theorem keepsStore_addOutput (index : Int) (text : String) (value : Json) :
    KeepsStore (addOutput index text value) := by
  refine (reads_readDescriptor text).keepsStore.bind fun d =>
    reads_draft.keepsStore.bind fun draft => ?_
  dsimp only
  split
  · exact keepsStore_throw_bind
  · exact (reads_ofExcept _ _).keepsStore.bind fun o =>
      (keepsStore_editDraft _).bind fun _ => (reads_announce _).keepsStore.map

theorem keepsStore_deleteOutput (index : Int) : KeepsStore (deleteOutput index) := by
  refine reads_draft.keepsStore.bind fun d => ?_
  cases d.outputs.get? index with
  | none => exact (reads_refuse _).keepsStore
  | some o => exact (keepsStore_editDraft _).map

theorem keepsStore_setLocktime (height : Int) : KeepsStore (setLocktime height) := by
  unfold setLocktime
  dsimp only
  split
  · exact keepsStore_refuse_bind
  · refine reads_draft.keepsStore.bind fun d => ?_
    split
    · exact keepsStore_throw_bind
    · exact (keepsStore_editDraft _).bind fun _ => (reads_announce _).keepsStore

theorem keepsStore_clearLocktime : KeepsStore clearLocktime := keepsStore_editDraft _

theorem keepsStore_setFee (fee : Int) : KeepsStore (setFee fee) := by
  unfold setFee
  dsimp only
  split
  · exact keepsStore_throw_bind
  · exact keepsStore_editDraft _

theorem keepsStore_recordOutputs (txid : Bytes) (index : Nat) (ps : List (Nat × Descriptor)) :
    KeepsStore (recordOutputs txid index ps) := by
  induction ps generalizing index with
  | nil => exact (reads_pure _).keepsStore
  | cons p ps ih => exact (keepsStore_addUtxo _).bind fun _ => (ih (index + 1)).map

theorem keepsStore_chainFirst (created : List Utxo) : KeepsStore (chainFirst created) := by
  cases created with
  | nil => exact (reads_pure _).keepsStore
  | cons c cs =>
    have hbind : KeepsStore (edit fun w =>
      { w with draft := { w.draft with inputs := [(0, { utxo := some c })] } }) :=
      keepsStore_edit fun _ => rfl
    exact hbind.bind fun _ => (reads_inform _).keepsStore

theorem keepsStore_book (u : Unsigned) (txid : Bytes) (chain : Bool) :
    KeepsStore (book u txid chain) := by
  have hfilter : KeepsStore (edit fun w =>
      { w with utxos := w.utxos.filter fun v => !u.spends v.outpoint }) := keepsStore_edit fun _ => rfl
  have hclear : KeepsStore (edit fun w => { w with draft := {} }) := keepsStore_edit fun _ => rfl
  refine hfilter.bind fun _ => (keepsStore_recordOutputs txid 0 _).bind fun created =>
    hclear.bind fun _ => ?_
  have hend : KeepsStore (do
      inform (.finalized txid.hex)
      return created) := (reads_inform _).keepsStore.map
  cases chain with
  | false => exact hend
  | true => exact (keepsStore_chainFirst created).bind fun _ => hend

theorem keepsStore_finalize (given : Option String) (chain : Bool) :
    KeepsStore (finalize given chain) := by
  rw [finalize_eq]
  refine reads_prepare.keepsStore.bind fun u => (reads_ofExcept _ _).keepsStore.bind fun txid => ?_
  exact (reads_checkTxid given txid).keepsStore.bind fun _ =>
    (reads_writePlaces u).keepsStore.bind fun _ => keepsStore_book u txid chain

/-! ## Keys and images -/

theorem IsHalf.coherent_key {secret : Option Bytes} {half : Option HexText} {k : Bytes}
    {active : Bool} (h : IsHalf secret half) (he : ∀ b ∈ secret, Secret.IsEvenFor b k) :
    (KeyPair.mk half (.ofBytes k) active).Coherent := by
  intro t ht
  obtain ⟨b, rfl, rfl, hb⟩ := h t ht
  rw [HexText.bytes_ofBytes]
  exact ⟨hb, k, he b rfl, rfl⟩

theorem IsHalf.coherent_image {preimage : Option Bytes} {half : Option HexText} {d : Bytes}
    {active : Bool} (h : IsHalf preimage half) (hd : ∀ b ∈ preimage, d = sha256 b) :
    (ImagePair.mk half (.ofBytes d) active).Coherent := by
  intro t ht
  obtain ⟨b, rfl, rfl, hb⟩ := h t ht
  rw [HexText.bytes_ofBytes, hd b rfl]
  exact ⟨hb, rfl⟩

theorem secures_importSecret {given : Bytes} (hg : given.length = 32) :
    Secures (importSecret given) := by
  refine fun s => takes_importSecret ?_ ?_
  · intro secret k half active hsecret hk _ hhalf _
    refine Store.grows_addKey (hhalf.coherent_key fun b hb => ?_)
    obtain rfl := Option.some.inj hb
    exact Secret.isEvenFor_of_normalize hsecret hk
  · intro secret k p hsecret hk hf hnone
    -- the entry had no secret, so that the one it gets takes the place of none
    refine Store.grows_updateKey hf ⟨rfl, fun old ho => nomatch hnone.symm.trans ho⟩ fun _ => ?_
    have hkey := Store.publicKey_of_findKey? hf
    obtain ⟨old, key, active⟩ := p
    obtain rfl : key = .ofBytes k := hkey
    exact KeyPair.coherent_of_secret (Secret.length_normalize hg hsecret)
      (Secret.isEvenFor_of_normalize hsecret hk)

theorem secures_importPublic (k : Bytes) : Secures (importPublic k) :=
  fun _ => takes_importPublic fun _ _ _ hhalf _ => Store.grows_addKey (hhalf.coherent_key nofun)

theorem secures_generateKeys (count : Int) : Secures (generateKeys count) := by
  refine fun s => takes_generateKeys (fun s => takes_generateKey ?_) count
  intro drawn secret k half active hsecret hk hhalf _
  refine Store.grows_addKey (hhalf.coherent_key fun b hb => ?_)
  obtain rfl := Option.some.inj hb
  exact Secret.isEvenFor_of_normalize hsecret hk

theorem secures_setKeyActive (k : Bytes) (active : Bool) : Secures (setKeyActive k active) :=
  fun _ => takes_setActive fun _ hp => Store.grows_updateKey hp ⟨rfl, fun _ => id⟩ id

theorem secures_toggleKey (k : Bytes) : Secures (toggleKey k) :=
  fun _ => takes_toggle fun _ _ hp => Store.grows_updateKey hp ⟨rfl, fun _ => id⟩ id

theorem secures_importPreimage {preimage : Bytes} (hp : preimage.length = 32) :
    Secures (importPreimage preimage) := by
  refine fun s => takes_importPreimage ?_ ?_
  · intro half active _ hhalf _
    refine Store.grows_addImage (hhalf.coherent_image fun b hb => ?_)
    obtain rfl := Option.some.inj hb
    rfl
  · intro p hf hnone
    refine Store.grows_updateImage hf ⟨rfl, fun old ho => nomatch hnone.symm.trans ho⟩ fun _ => ?_
    have himage := Store.image_of_findImage? hf
    obtain ⟨old, image, active⟩ := p
    obtain rfl : image = .ofBytes (sha256 preimage) := himage
    exact ImagePair.coherent_of_preimage hp

theorem secures_importImage (d : Bytes) : Secures (importImage d) :=
  fun _ => takes_importImage fun _ _ _ hhalf _ => Store.grows_addImage (hhalf.coherent_image nofun)

theorem secures_generateImages (count : Int) : Secures (generateImages count) := by
  refine fun s => takes_generateImages (fun s => takes_generateImage ?_) count
  intro preimage half active hhalf _
  refine Store.grows_addImage (hhalf.coherent_image fun b hb => ?_)
  obtain rfl := Option.some.inj hb
  rfl

theorem secures_setImageActive (d : Bytes) (active : Bool) : Secures (setImageActive d active) :=
  fun _ => takes_setActive fun _ hp => Store.grows_updateImage hp ⟨rfl, fun _ => id⟩ id

theorem secures_toggleImage (d : Bytes) : Secures (toggleImage d) :=
  fun _ => takes_toggle fun _ _ hp => Store.grows_updateImage hp ⟨rfl, fun _ => id⟩ id

end Operation

/-! ## Commands -/

namespace CommandLine.Command

open Operation

/-- Whatever command is performed, the store grows: what is typed for a key or an image has 32
bytes. -/
theorem secures_perform (network : Network) (c : Command) : Secures (c.perform network) := by
  cases c with
  | init force => exact (reads_pure _).secures
  | print secrets => exact (reads_summary network secrets).secures.map
  | generateKeys count => exact (secures_generateKeys count).map
  | importKey value isPublic =>
    cases isPublic with
    | true => exact (reads_typed _ _).secures.bind fun k => (secures_importPublic k).map
    | false =>
      refine fun s => (reads_typed _ _).takes.bind fun given t h => ?_
      have hl := length_readKeyText (answers_ofExcept.mp h).1
      exact (secures_importSecret hl).map t
  | setKeyActive key active =>
    exact (reads_typed _ _).secures.bind fun k => (secures_setKeyActive k active).map
  | toggleKey key => exact (reads_typed _ _).secures.bind fun k => (secures_toggleKey k).map
  | generateImages count => exact (secures_generateImages count).map
  | importImage value isImage =>
    cases isImage with
    | true => exact (reads_typed _ _).secures.bind fun d => (secures_importImage d).map
    | false =>
      refine fun s => (reads_typed _ _).takes.bind fun preimage t h => ?_
      have hl := length_readKeyText (answers_ofExcept.mp h).1
      exact (secures_importPreimage hl).map t
  | setImageActive image active =>
    exact (reads_typed _ _).secures.bind fun d => (secures_setImageActive d active).map
  | toggleImage image => exact (reads_typed _ _).secures.bind fun d => (secures_toggleImage d).map
  | compile descriptor => exact (reads_compileLines network descriptor).secures
  | setInbound descriptor =>
    exact (keepsStore_setInbound descriptor).secures.bind fun d =>
      (reads_addressOf network d).secures.map
  | fundInbound txid vout value =>
    exact (keepsStore_fundInbound _ _ _).secures.bind fun u => (reads_placeOf u).secures.map
  | listUtxos => exact reads_listUtxos.secures
  | addInput index utxo => exact (keepsStore_addInput index utxo).secures.map
  | deleteInput index => exact (keepsStore_deleteInput index).secures.map
  | setSequence index height => exact (keepsStore_setSequence index height).secures.map
  | disableSequence index => exact (keepsStore_disableSequence index).secures.map
  | addOutput index descriptor value => exact (keepsStore_addOutput index descriptor _).secures.map
  | deleteOutput index => exact (keepsStore_deleteOutput index).secures.map
  | setLocktime height =>
    cases height with
    | none => exact (reads_throw _).secures
    | some height => exact (keepsStore_setLocktime height).secures.map
  | clearLocktime => exact keepsStore_clearLocktime.secures.map
  | setFee fee => exact (keepsStore_setFee fee).secures.map
  | spend => exact reads_build.secures.map
  | finalize txid chain => exact (keepsStore_finalize txid chain).secures.map

end CommandLine.Command

theorem Store.coherent_empty : Coherent {} := ⟨nofun, nofun⟩

theorem Wallet.Reachable.coherent {w : Wallet} (h : w.Reachable) : w.store.Coherent := by
  induction h with
  | empty => exact Store.coherent_empty
  | step _ network c ih => exact (c.secures_perform network _).2 ih

/-! ## Calls -/

namespace Call

open Operation

/-- What is imported as a secret or as a preimage has 32 bytes. -/
def Sized : Call → Prop
  | importSecret given => given.length = 32
  | importPreimage preimage => preimage.length = 32
  | _ => True

/-- The call concerns keys or images. -/
def concernsStore : Call → Bool
  | importSecret _ | importPublic _ | importPreimage _ | importImage _ | generateKeys _
  | generateImages _ | setKeyActive _ _ | toggleKey _ | setImageActive _ _ | toggleImage _ => true
  | _ => false

theorem keepsStore_perform {c : Call} (hc : c.concernsStore = false) : KeepsStore c.perform := by
  cases c with
  | setInbound text => exact (keepsStore_setInbound text).map
  | fundInbound txid vout value => exact (keepsStore_fundInbound txid vout value).map
  | record fields => exact ((reads_ofExcept _ _).keepsStore.bind keepsStore_addUtxo).map
  | addInput index utxoIndex => exact (keepsStore_addInput index utxoIndex).map
  | deleteInput index => exact (keepsStore_deleteInput index).map
  | setSequence index height => exact keepsStore_setSequence index height
  | disableSequence index => exact keepsStore_disableSequence index
  | addOutput index text value => exact (keepsStore_addOutput index text value).map
  | deleteOutput index => exact (keepsStore_deleteOutput index).map
  | setLocktime height => exact keepsStore_setLocktime height
  | clearLocktime => exact keepsStore_clearLocktime
  | setFee fee => exact keepsStore_setFee fee
  | build => exact reads_build.keepsStore.map
  | finalize txid chain => exact (keepsStore_finalize txid chain).map
  | _ => cases hc

/-- A call keeps a property of the store without a condition. -/
theorem iff_of_alike {α : Type} {a : Operation α} {s : Session} {Q : Store → Prop}
    (ha : Takes (Wallet.StoreAlike Q) a s) :
    Q (runOn (quiet a) s).2.wallet.store ↔ Q s.wallet.store ∧ True := by
  rw [quiet, runOn_map_snd, and_true]
  exact ha

theorem iff_of_keepsStore {α : Type} {a : Operation α} (ha : KeepsStore a) (s : Session)
    (Q : Store → Prop) : Q (runOn a s).2.wallet.store ↔ Q s.wallet.store ∧ True := by
  have h : s.wallet.store = (runOn a s).2.wallet.store := ha s
  rw [h, and_true]

theorem secures_perform {c : Call} (hc : c.Sized) : Secures c.perform := by
  cases c with
  | importSecret given => exact (secures_importSecret hc).map
  | importPublic key => exact (secures_importPublic key).map
  | importPreimage preimage => exact (secures_importPreimage hc).map
  | importImage digest => exact (secures_importImage digest).map
  | generateKeys count => exact (secures_generateKeys count).map
  | generateImages count => exact (secures_generateImages count).map
  | setKeyActive key active => exact (secures_setKeyActive key active).map
  | toggleKey key => exact (secures_toggleKey key).map
  | setImageActive digest active => exact (secures_setImageActive digest active).map
  | toggleImage digest => exact (secures_toggleImage digest).map
  | _ => exact (keepsStore_perform rfl).secures

theorem grows_runAll {calls : List Call} (h : ∀ c ∈ calls, c.Sized) (s : Session) :
    s.wallet.store.Grows (runAll calls s).wallet.store := by
  induction calls generalizing s with
  | nil => exact Store.Grows.refl _
  | cons c rest ih =>
    have hc : s.wallet.store.Grows (c.perform.runOn s).2.wallet.store :=
      secures_perform (h c List.mem_cons_self) s
    exact hc.trans (ih (fun c hc => h c (List.mem_cons_of_mem _ hc)) _)

/-- After calls on an empty store, refused ones included, every secret is the even one of the key
beside it and every preimage is one of its image. Further calls keep all that is in the store. -/
theorem runAll_coherent_and_keeps {calls more : List Call} (hc : ∀ c ∈ calls, c.Sized)
    (hm : ∀ c ∈ more, c.Sized) {s : Session} (hs : s.wallet.store = {}) :
    (runAll calls s).wallet.store.Coherent ∧
      (runAll calls s).wallet.store.Keeps (runAll more (runAll calls s)).wallet.store := by
  have hcoherent := (grows_runAll hc s).2
  rw [hs] at hcoherent
  exact ⟨hcoherent Store.coherent_empty, (grows_runAll hm _).1⟩

end Call

namespace NegatedSecret

def secret : Bytes := Bytes.ofNatBE 32 1

def key : Bytes := xBytes Curve.generator

/-- The other secret of the key, whose point is odd. -/
def negated : Bytes := Bytes.ofNatBE 32 (Curve.n - 1)

def image : Bytes :=
  Bytes.ofNatBE 32 0xec4916dd28fc4c10d78e287ca5d9cc51ee1ae73cbfde08c6b37324cbfaac8bc5

/-- A key and an image get their secret halves, and the key is put out of use. -/
def calls : List Call :=
  [.importPublic key, .importImage image, .importSecret negated, .importPreimage secret,
    .toggleKey key]

/-- The secret is there already, and there are no random bytes for another one. -/
def more : List Call := [.importSecret secret, .generateKeys 1, .toggleKey key]

def store (active : Bool) : Store where
  keys := [⟨some (.ofBytes secret), .ofBytes key, active⟩]
  images := [⟨some (.ofBytes secret), .ofBytes image, true⟩]

theorem runs : (Call.runAll calls { wallet := {} }).wallet.store = store false ∧
    (Call.runAll more (Call.runAll calls { wallet := {} })).wallet.store = store true := by
  decide +kernel

/-- The odd secret is kept as the even one, which stays while the key goes out of use and back. -/
theorem coherent_and_keeps : (∀ c ∈ calls, c.Sized) ∧ (∀ c ∈ more, c.Sized) ∧
    (store false).Coherent ∧ (store false).Keeps (store true) := by
  have hcalls : ∀ c ∈ calls, c.Sized := by
    simp [calls, Call.Sized, negated, secret]
  have hmore : ∀ c ∈ more, c.Sized := by
    simp [more, Call.Sized, secret]
  have h := Call.runAll_coherent_and_keeps hcalls hmore (s := { wallet := {} }) rfl
  rw [runs.1, runs.2] at h
  exact ⟨hcalls, hmore, h⟩

end NegatedSecret
end Taproot
