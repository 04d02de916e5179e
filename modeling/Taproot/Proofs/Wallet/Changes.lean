import Mathlib.Logic.Relation
import Taproot.CommandLine.Execution
import Taproot.Proofs.Store.Growth
import Taproot.Proofs.Transaction.Encoding
import Taproot.Proofs.Wallet.Accounting
import Taproot.Proofs.Wallet.Booking
import Taproot.Proofs.Wallet.Records

/-! # What commands change

Every command takes the wallet along changes of a few kinds, and each kind carries the checks that
are made before it. A command that is refused has made the changes that come before the refusal.
-/
namespace Taproot

/-! ## Kinds of changes -/

/-- What may be given to operations: numbers, and secret halves for what the store knows already. -/
structure Given where
  number : Int → Prop
  half : Bytes → Prop
  number_of_lt : ∀ n : Nat, n < Bytes.bound 8 → number n
  half_of_length : ∀ b : Bytes, b.length = 32 → half b

/-- Nothing is ruled out. -/
def Given.any : Given := ⟨fun _ => True, fun _ => True, fun _ _ => trivial, fun _ _ => trivial⟩

/-- The id is one that is accepted, and the numbers are among those that may be given. -/
structure Utxo.Admitted (g : Given) (u : Utxo) : Prop where
  txid : u.txid.Accepted
  vout : g.number u.vout
  value : g.number u.value

namespace Wallet

def withInputs (w : Wallet) (inputs : Slots DraftInput) : Wallet :=
  { w with draft := { w.draft with inputs } }

def withOutputs (w : Wallet) (outputs : Slots DraftOutput) : Wallet :=
  { w with draft := { w.draft with outputs } }

/-- Some input at another index spends the outpoint. -/
def spentElsewhere (w : Wallet) (index : Int) (outpoint : String) : Bool :=
  Operation.anyOther index w.draft.inputs fun i => i.utxo.any fun v => v.outpoint == outpoint

/-- One step of an operation on the wallet. -/
inductive Change (g : Given) (w : Wallet) : Wallet → Prop
  | store {st : Store} (hs : w.store.Step g.half st) : Change g w { w with store := st }
  | receive {text : String} {d : Descriptor} (hd : w.readDescriptor text = .ok d) :
      Change g w { w with inbound := some d.text }
  | close : Change g w { w with inbound := none }
  | fund {u : Utxo} (hi : w.inbound = some u.descriptor) (hu : u.Admitted g) :
      Change g w ({ w with inbound := none }.added u)
  | record {u : Utxo} {text : String} {d : Descriptor} (hd : w.readDescriptor text = .ok d)
      (ht : u.descriptor = d.text) (hu : u.Admitted g) : Change g w (w.added u)
  | forget (keeps : Utxo → Bool) (hd : w.draft = {}) :
      Change g w { w with utxos := w.utxos.filter keeps }
  | bind {index : Int} {u : Utxo} (hi : g.number index) (hu : u ∈ w.utxos)
      (hs : w.spentElsewhere index u.outpoint = false) :
      Change g w (w.withInputs (w.draft.inputs.set index { utxo := some u }))
  | unbind (index : Int) : Change g w (w.withInputs (w.draft.inputs.remove index))
  | delay {index : Int} {i : DraftInput} {height : Option Nat}
      (hi : w.draft.inputs.get? index = some i) (hh : ∀ n ∈ height, n ≤ maxRelativeHeight) :
      Change g w (w.withInputs (w.draft.inputs.set index { i with sequence := height }))
  | pay {index : Int} {o : DraftOutput} {text : String} {d : Descriptor} (hi : g.number index)
      (hd : w.readDescriptor text = .ok d) (ho : o.descriptor = d.text)
      (hv : ∀ v ∈ o.value, g.number v)
      (hr : o.value = none →
        Operation.anyOther index w.draft.outputs (fun o => o.value.isNone) = false) :
      Change g w (w.withOutputs (w.draft.outputs.set index o))
  | unpay (index : Int) : Change g w (w.withOutputs (w.draft.outputs.remove index))
  | lock {height : Option Nat} (hh : ∀ n ∈ height, n < heightLimit) :
      Change g w { w with draft := { w.draft with locktime := height } }
  | charge {fee : Nat} (hf : g.number fee) : Change g w { w with draft := { w.draft with fee } }
  | reset : Change g w { w with draft := {} }

abbrev Changes (g : Given) : Wallet → Wallet → Prop := Relation.ReflTransGen (Change g)

end Wallet

namespace Operation

variable {g : Given} {α β ε : Type} {s t : Session}

/-- From every wallet the operation takes changes of those kinds only. -/
def Evolves (g : Given) (a : Operation α) : Prop := ∀ s, Takes (Wallet.Changes g) a s

theorem Reads.evolves {a : Operation α} (h : Reads a) : Evolves g a := fun _ => h.takes

theorem Evolves.bind {a : Operation α} {f : α → Operation β} (ha : Evolves g a)
    (hf : ∀ x, Evolves g (f x)) : Evolves g (a >>= f) := fun s => (ha s).bind fun x t _ => hf x t

theorem Evolves.map {a : Operation α} {f : α → β} (ha : Evolves g a) :
    Evolves g (a >>= fun x => pure (f x)) := ha.bind fun _ => (reads_pure _).evolves

theorem takes_change {f : Wallet → Wallet} (h : Wallet.Change g s.wallet (f s.wallet)) :
    Takes (Wallet.Changes g) (edit f) s := takes_edit (.single h)

/-! ## The store -/

/-- What is stored for a given half, if any, is the text of its 32 bytes. -/
def IsHalf (given : Option Bytes) (half : Option HexText) : Prop :=
  ∀ t ∈ half, ∃ b, given = some b ∧ t = .ofBytes b ∧ b.length = 32

theorem isHalf_of_checkHalf {field : String} {given : Option Bytes} {half : Option HexText}
    (h : checkHalf field given = .pass half) : IsHalf given half := by
  cases given with
  | none =>
    cases h
    exact nofun
  | some b =>
    obtain ⟨t, ht, rfl⟩ := Json.Check.map_eq_pass.mp h
    obtain ⟨hb, rfl⟩ := Json.checkBytes_eq_pass.mp ht
    rintro t ⟨⟩
    exact ⟨b, rfl, rfl, hb⟩

theorem IsHalf.accepted {given : Option Bytes} {half : Option HexText} (h : IsHalf given half) :
    ∀ t ∈ half, t.Accepted := by
  intro t ht
  obtain ⟨b, -, rfl, hb⟩ := h t ht
  exact HexText.accepted_ofBytes hb

theorem answers_store {st : Store} (h : Answers store s st t) : s.wallet.store = st ∧ s = t := by
  simp only [store, answers_bind, answers_wallet, answers_pure] at h
  obtain ⟨_, _, ⟨rfl, rfl⟩, rfl, rfl⟩ := h
  exact ⟨rfl, rfl⟩

theorem answers_lookUp {kind : EntryKind α} {name : Bytes} {entry : α}
    (h : Answers (lookUp kind name) s entry t) :
    kind.find? s.wallet.store name = some entry ∧ s = t := by
  obtain ⟨_, _, hs, h⟩ := answers_bind.mp h
  obtain ⟨rfl, rfl⟩ := answers_store hs
  split at h
  · rename_i found hfound
    obtain ⟨rfl, rfl⟩ := answers_pure.mp h
    exact ⟨hfound, rfl⟩
  · exact absurd h not_answers_throw

theorem reads_lookUp (kind : EntryKind α) (name : Bytes) : Reads (lookUp kind name) := by
  refine reads_store.bind fun st => ?_
  cases kind.find? st name with
  | some entry => exact reads_pure _
  | none => exact reads_throw _

theorem reads_drawSecretWithin (draws : Nat) : Reads (drawSecretWithin draws) := by
  induction draws with
  | zero => exact reads_throw _
  | succ n ih =>
    refine reads_draw.bind fun b => ?_
    split
    · exact reads_pure b
    · exact ih

theorem reads_drawSecret : Reads drawSecret := fun s => reads_drawSecretWithin _ s

/-! ### What an operation on the store comes to

A relation of wallets that holds along the steps an operation can take on the store holds along the
operation.
-/

section

variable {R : Wallet → Wallet → Prop} [IsTrans Wallet R] [Std.Refl R]

theorem Takes.noted {a : Operation α} (ha : Takes R a s) (n : Notice) (f : α → β) :
    Takes R (a >>= fun x => inform n >>= fun _ => pure (f x)) s :=
  ha.bind fun _ _ _ => ((reads_inform n).bind fun _ => reads_pure _).takes

theorem Takes.announced {a : Operation α} (ha : Takes R a s) (n : Notice) (f : α → β) :
    Takes R (a >>= fun x => announce n >>= fun _ => pure (f x)) s :=
  ha.bind fun _ _ _ => ((reads_announce n).bind fun _ => reads_pure _).takes

/-- A relation that holds where the entry of a key is added holds after the operation that checks
its halves. -/
theorem takes_addKey {secret : Option Bytes} {k : Bytes}
    (h : ∀ half active, IsHalf secret half → k.length = 32 →
      R s.wallet { s.wallet with store := s.wallet.store.addKey ⟨half, .ofBytes k, active⟩ }) :
    Takes R (addKey secret k) s := by
  refine (reads_ofExcept _ _).takes.bind fun p t ha => ?_
  obtain ⟨hp, rfl⟩ := answers_ofExcept.mp ha
  simp only [Json.Check.report_eq_ok, Json.Check.seq_eq_pass, Json.Check.map_eq_pass] at hp
  obtain ⟨_, active, ⟨_, key, ⟨half, hhalf, rfl⟩, hkey, rfl⟩, -, rfl⟩ := hp
  obtain ⟨hk, rfl⟩ := Json.checkBytes_eq_pass.mp hkey
  have hedit : Takes R (editStore (·.addKey ⟨half, .ofBytes k, active⟩)) s :=
    takes_edit (h half active (isHalf_of_checkHalf hhalf) hk)
  exact hedit.bind fun _ t _ => (reads_pure _).takes

theorem takes_addImage {preimage : Option Bytes} {d : Bytes}
    (h : ∀ half active, IsHalf preimage half → d.length = 32 →
      R s.wallet { s.wallet with store := s.wallet.store.addImage ⟨half, .ofBytes d, active⟩ }) :
    Takes R (addImage preimage d) s := by
  refine (reads_ofExcept _ _).takes.bind fun p t ha => ?_
  obtain ⟨hp, rfl⟩ := answers_ofExcept.mp ha
  simp only [Json.Check.report_eq_ok, Json.Check.seq_eq_pass, Json.Check.map_eq_pass] at hp
  obtain ⟨_, active, ⟨_, image, ⟨half, hhalf, rfl⟩, himage, rfl⟩, -, rfl⟩ := hp
  obtain ⟨hd, rfl⟩ := Json.checkBytes_eq_pass.mp himage
  have hedit : Takes R (editStore (·.addImage ⟨half, .ofBytes d, active⟩)) s :=
    takes_edit (h half active (isHalf_of_checkHalf hhalf) hd)
  exact hedit.bind fun _ t _ => (reads_pure _).takes

theorem takes_importSecret {given : Bytes}
    (hnew : ∀ secret k half active, Secret.normalize given = .ok secret →
      Secret.publicKey secret = .ok k → s.wallet.store.findKey? k = none →
      IsHalf (some secret) half → k.length = 32 →
      R s.wallet { s.wallet with store := s.wallet.store.addKey ⟨half, .ofBytes k, active⟩ })
    (hset : ∀ secret k p, Secret.normalize given = .ok secret → Secret.publicKey secret = .ok k →
      s.wallet.store.findKey? k = some p → p.secret = none →
      R s.wallet { s.wallet with
        store := s.wallet.store.updateKey k fun _ => { p with secret := some (.ofBytes secret) } }) :
    Takes R (importSecret given) s := by
  refine (reads_ofExcept _ _).takes.bind fun secret t h => ?_
  obtain ⟨hsecret, rfl⟩ := answers_ofExcept.mp h
  refine (reads_ofExcept _ _).takes.bind fun k t h => ?_
  obtain ⟨hk, rfl⟩ := answers_ofExcept.mp h
  refine reads_store.takes.bind fun st t h => ?_
  obtain ⟨rfl, rfl⟩ := answers_store h
  cases hf : s.wallet.store.findKey? k with
  | none =>
    refine Takes.noted (takes_addKey ?_) _ id
    exact fun half active => hnew secret k half active hsecret hk hf
  | some p =>
    dsimp only
    split
    · exact (reads_pure _).takes
    · rename_i hnone
      refine Takes.noted (takes_edit ?_) _ _
      exact hset secret k p hsecret hk hf (Option.not_isSome_iff_eq_none.mp hnone)

theorem takes_importPublic {k : Bytes}
    (hnew : ∀ half active, s.wallet.store.findKey? k = none → IsHalf none half → k.length = 32 →
      R s.wallet { s.wallet with store := s.wallet.store.addKey ⟨half, .ofBytes k, active⟩ }) :
    Takes R (importPublic k) s := by
  refine (reads_ofExcept _ _).takes.bind fun _ t h => ?_
  obtain ⟨-, rfl⟩ := answers_ofExcept.mp h
  refine reads_store.takes.bind fun st t h => ?_
  obtain ⟨rfl, rfl⟩ := answers_store h
  cases hf : s.wallet.store.findKey? k with
  | some p => exact (reads_pure _).takes
  | none => exact (takes_addKey fun half active => hnew half active hf).noted _ id

theorem takes_importPreimage {preimage : Bytes}
    (hnew : ∀ half active, s.wallet.store.findImage? (sha256 preimage) = none →
      IsHalf (some preimage) half → (sha256 preimage).length = 32 →
      R s.wallet { s.wallet with
        store := s.wallet.store.addImage ⟨half, .ofBytes (sha256 preimage), active⟩ })
    (hset : ∀ p, s.wallet.store.findImage? (sha256 preimage) = some p → p.preimage = none →
      R s.wallet { s.wallet with
        store := s.wallet.store.updateImage (sha256 preimage)
          fun _ => { p with preimage := some (.ofBytes preimage) } }) :
    Takes R (importPreimage preimage) s := by
  refine reads_store.takes.bind fun st t h => ?_
  obtain ⟨rfl, rfl⟩ := answers_store h
  cases hf : s.wallet.store.findImage? (sha256 preimage) with
  | none => exact (takes_addImage fun half active => hnew half active hf).noted _ id
  | some p =>
    dsimp only
    split
    · exact (reads_pure _).takes
    · rename_i hnone
      refine Takes.noted (takes_edit ?_) _ _
      exact hset p hf (Option.not_isSome_iff_eq_none.mp hnone)

theorem takes_importImage {d : Bytes}
    (hnew : ∀ half active, s.wallet.store.findImage? d = none → IsHalf none half → d.length = 32 →
      R s.wallet { s.wallet with store := s.wallet.store.addImage ⟨half, .ofBytes d, active⟩ }) :
    Takes R (importImage d) s := by
  refine reads_store.takes.bind fun st t h => ?_
  obtain ⟨rfl, rfl⟩ := answers_store h
  cases hf : s.wallet.store.findImage? d with
  | some p => exact (reads_pure _).takes
  | none => exact (takes_addImage fun half active => hnew half active hf).noted _ id

theorem takes_generateKey
    (h : ∀ drawn secret k half active, Secret.normalize drawn = .ok secret →
      Secret.publicKey secret = .ok k → IsHalf (some secret) half → k.length = 32 →
      R s.wallet { s.wallet with store := s.wallet.store.addKey ⟨half, .ofBytes k, active⟩ }) :
    Takes R generateKey s := by
  refine reads_drawSecret.takes.bind fun drawn t ht => ?_
  rw [← reads_drawSecret.wallet_eq ht] at h
  refine (reads_ofExcept _ _).takes.bind fun secret u hu => ?_
  obtain ⟨hsecret, rfl⟩ := answers_ofExcept.mp hu
  refine (reads_ofExcept _ _).takes.bind fun k u hu => ?_
  obtain ⟨hk, rfl⟩ := answers_ofExcept.mp hu
  exact takes_addKey fun half active => h drawn secret k half active hsecret hk

theorem takes_generateImage
    (h : ∀ preimage half active, IsHalf (some preimage) half → (sha256 preimage).length = 32 →
      R s.wallet { s.wallet with
        store := s.wallet.store.addImage ⟨half, .ofBytes (sha256 preimage), active⟩ }) :
    Takes R generateImage s := by
  refine reads_draw.takes.bind fun preimage t ht => ?_
  rw [← reads_draw.wallet_eq ht] at h
  exact takes_addImage (h preimage)

theorem takes_repeated {a : Operation α} (ha : ∀ s, Takes R a s) (n : Nat) :
    Takes R (repeated a n) s := by
  induction n generalizing s with
  | zero => exact (reads_pure _).takes
  | succ n ih =>
    exact (ha s).bind fun _ _ _ => ih.bind fun _ _ _ => (reads_pure _).takes

theorem takes_generateKeys (h : ∀ s, Takes R generateKey s) (count : Int) :
    Takes R (generateKeys count) s := (takes_repeated h _).announced _ id

theorem takes_generateImages (h : ∀ s, Takes R generateImage s) (count : Int) :
    Takes R (generateImages count) s := (takes_repeated h _).announced _ id

theorem takes_setActive {kind : EntryKind α} {name : Bytes} {active : Bool}
    (h : ∀ entry, kind.find? s.wallet.store name = some entry → R s.wallet { s.wallet with
      store := kind.update s.wallet.store name fun _ => kind.withActive entry active }) :
    Takes R (setActive kind name active) s := by
  refine (reads_lookUp kind name).takes.bind fun entry t ht => ?_
  obtain ⟨hentry, rfl⟩ := answers_lookUp ht
  exact Takes.noted (takes_edit (h entry hentry)) _ _

theorem takes_toggle {kind : EntryKind α} {name : Bytes}
    (h : ∀ entry active, kind.find? s.wallet.store name = some entry → R s.wallet { s.wallet with
      store := kind.update s.wallet.store name fun _ => kind.withActive entry active }) :
    Takes R (toggle kind name) s := by
  refine (reads_lookUp kind name).takes.bind fun entry t ht => ?_
  obtain ⟨-, rfl⟩ := answers_lookUp ht
  exact takes_setActive fun found => h found _

end

/-! ### Changes of the store -/

/-- A key of which each half is checked. -/
theorem change_addKey {secret : Option Bytes} {half : Option HexText} {k : Bytes} {active : Bool}
    (hhalf : IsHalf secret half) (hk : k.length = 32) : Wallet.Changes g s.wallet
      { s.wallet with store := s.wallet.store.addKey ⟨half, .ofBytes k, active⟩ } :=
  .single (.store (.addKey ⟨HexText.accepted_ofBytes hk, hhalf.accepted⟩))

theorem change_addImage {preimage : Option Bytes} {half : Option HexText} {d : Bytes}
    {active : Bool} (hhalf : IsHalf preimage half) (hd : d.length = 32) :
    Wallet.Changes g s.wallet
      { s.wallet with store := s.wallet.store.addImage ⟨half, .ofBytes d, active⟩ } :=
  .single (.store (.addImage ⟨HexText.accepted_ofBytes hd, hhalf.accepted⟩))

theorem evolves_importSecret {given : Bytes}
    (hg : ∀ secret, Secret.normalize given = .ok secret → g.half secret) :
    Evolves g (importSecret given) :=
  fun _ => takes_importSecret (fun _ _ _ _ _ _ _ => change_addKey)
    fun secret _ _ hs _ hf _ => .single (.store (.setKey hf rfl (.inr ⟨secret, hg secret hs, rfl⟩)))

theorem evolves_importPublic (k : Bytes) : Evolves g (importPublic k) :=
  fun _ => takes_importPublic fun _ _ _ => change_addKey

theorem evolves_importPreimage {preimage : Bytes} (hg : g.half preimage) :
    Evolves g (importPreimage preimage) :=
  fun _ => takes_importPreimage (fun _ _ _ => change_addImage)
    fun _ hf _ => .single (.store (.setImage hf rfl (.inr ⟨preimage, hg, rfl⟩)))

theorem evolves_importImage (d : Bytes) : Evolves g (importImage d) :=
  fun _ => takes_importImage fun _ _ _ => change_addImage

theorem evolves_generateKeys (count : Int) : Evolves g (generateKeys count) :=
  fun _ => takes_generateKeys (fun _ => takes_generateKey fun _ _ _ _ _ _ _ => change_addKey) count

theorem evolves_generateImages (count : Int) : Evolves g (generateImages count) :=
  fun _ => takes_generateImages (fun _ => takes_generateImage fun _ _ _ => change_addImage) count

theorem evolves_setKeyActive (k : Bytes) (active : Bool) : Evolves g (setKeyActive k active) :=
  fun _ => takes_setActive fun _ hp => .single (.store (.setKey hp rfl (.inl rfl)))

theorem evolves_toggleKey (k : Bytes) : Evolves g (toggleKey k) :=
  fun _ => takes_toggle fun _ _ hp => .single (.store (.setKey hp rfl (.inl rfl)))

theorem evolves_setImageActive (d : Bytes) (active : Bool) :
    Evolves g (setImageActive d active) :=
  fun _ => takes_setActive fun _ hp => .single (.store (.setImage hp rfl (.inl rfl)))

theorem evolves_toggleImage (d : Bytes) : Evolves g (toggleImage d) :=
  fun _ => takes_toggle fun _ _ hp => .single (.store (.setImage hp rfl (.inl rfl)))

/-! ## Funding -/

theorem answers_readDescriptor {text : String} {d : Descriptor} :
    Answers (readDescriptor text) s d t ↔ s.wallet.readDescriptor text = .ok d ∧ s = t := by
  simp only [readDescriptor, answers_bind, answers_wallet, answers_ofExcept]
  constructor
  · rintro ⟨_, _, ⟨rfl, rfl⟩, hd, rfl⟩
    exact ⟨hd, rfl⟩
  · rintro ⟨hd, rfl⟩
    exact ⟨_, _, ⟨rfl, rfl⟩, hd, rfl⟩

theorem evolves_setInbound (text : String) : Evolves g (setInbound text) := by
  refine fun s => (reads_readDescriptor text).takes.bind fun d t h => ?_
  obtain ⟨hd, rfl⟩ := answers_readDescriptor.mp h
  exact (takes_change (.receive hd)).bind fun _ t _ => (reads_inform _).evolves.map t

theorem evolves_fundInbound (txid : Json) {vout value : Json}
    (hv : ∀ n, Json.checkNatural vout = .pass n → g.number n)
    (hn : ∀ n, Json.checkNatural value = .pass n → g.number n) :
    Evolves g (fundInbound txid vout value) := by
  refine fun s => reads_wallet.takes.bind fun w t h => ?_
  obtain ⟨rfl, rfl⟩ := answers_wallet.mp h
  cases hi : s.wallet.inbound with
  | none => exact (reads_throw _).takes
  | some text =>
    refine (reads_ofExcept _ _).takes.bind fun u t h => ?_
    obtain ⟨hu, rfl⟩ := answers_ofExcept.mp h
    obtain ⟨⟨ht, hvout, hvalue⟩, rfl⟩ := Utxo.ofJson_eq_ok.mp hu
    obtain ⟨x, -, hx⟩ := Json.checkHex_eq_pass.mp ht
    have hfund := Wallet.Change.fund (g := g) hi
      ⟨HexText.accepted_ofString hx, hv _ hvout, hn _ hvalue⟩
    rw [Takes, runOn_bind, runOn_edit]
    dsimp only
    rcases wallet_addUtxo u { s with wallet := { s.wallet with inbound := none } } with h | h
    · rw [h]
      exact .single .close
    · rw [h]
      exact .single hfund

/-! ## The draft -/

theorem answers_getUtxo {index : Int} {u : Utxo} : Answers (getUtxo index) s u t ↔
    (0 ≤ index ∧ s.wallet.utxos[index.toNat]? = some u) ∧ s = t := by
  simp only [getUtxo, answers_bind, answers_wallet]
  constructor
  · rintro ⟨_, _, ⟨rfl, rfl⟩, h⟩
    split at h
    · obtain ⟨_, _, h, -⟩ := answers_bind.mp h
      exact absurd h not_answers_refuse
    · rename_i hi
      split at h
      · rename_i v hv
        obtain ⟨rfl, rfl⟩ := answers_pure.mp h
        exact ⟨⟨by omega, hv⟩, rfl⟩
      · exact absurd h not_answers_refuse
  · rintro ⟨⟨hi, hu⟩, rfl⟩
    refine ⟨_, _, ⟨rfl, rfl⟩, ?_⟩
    rw [if_neg (by omega)]
    simp only [hu]
    exact answers_pure.mpr ⟨rfl, rfl⟩

theorem answers_draft {d : Draft} : Answers draft s d t ↔ s.wallet.draft = d ∧ s = t := by
  simp only [draft, answers_bind, answers_wallet, answers_pure]
  constructor
  · rintro ⟨_, _, ⟨rfl, rfl⟩, rfl, rfl⟩
    exact ⟨rfl, rfl⟩
  · rintro ⟨rfl, rfl⟩
    exact ⟨_, _, ⟨rfl, rfl⟩, rfl, rfl⟩

theorem spentElsewhere_eq (w : Wallet) (index : Int) (u : Utxo) :
    w.spentElsewhere index u.outpoint =
      ((spentByOthers index w.draft.inputs).find? fun v => v.outpoint == u.outpoint).isSome := by
  rw [Wallet.spentElsewhere, anyOther, spentByOthers, Bool.eq_iff_iff, List.find?_isSome,
    List.any_eq_true]
  constructor
  · rintro ⟨⟨i, input⟩, he, h⟩
    cases hv : input.utxo with
    | none => simp [hv] at h
    | some v =>
      obtain ⟨hne, ho⟩ : i ≠ index ∧ v.outpoint = u.outpoint := by simpa [hv] using h
      exact ⟨v, List.mem_filterMap.mpr ⟨(i, input), he, by rw [if_neg hne, hv]⟩, by simpa using ho⟩
  · rintro ⟨v, hv, ho⟩
    obtain ⟨⟨i, input⟩, he, h⟩ := List.mem_filterMap.mp hv
    dsimp only at h
    split at h
    · cases h
    · rename_i hne
      exact ⟨(i, input), he, by simpa [hne, h] using ho⟩

theorem evolves_addInput {index : Int} (hi : g.number index) (utxoIndex : Int) :
    Evolves g (addInput index utxoIndex) := by
  refine fun s => (reads_getUtxo utxoIndex).takes.bind fun u t h => ?_
  obtain ⟨⟨-, hu⟩, rfl⟩ := answers_getUtxo.mp h
  refine reads_draft.takes.bind fun d r h => ?_
  obtain ⟨rfl, rfl⟩ := answers_draft.mp h
  refine (reads_findSame u _).takes.bind fun found r h => ?_
  obtain ⟨hfound, rfl⟩ := answers_findSame h
  split
  · exact takes_throw_bind
  · rename_i hs
    have hfree : s.wallet.spentElsewhere index u.outpoint = false := by
      rw [spentElsewhere_eq, hfound]
      exact Bool.eq_false_iff.mpr hs
    exact (takes_change (.bind hi (List.mem_of_getElem? hu) hfree)).bind fun _ r _ =>
      ((reads_write _).bind fun _ => (reads_announce _).bind fun _ => reads_pure _).evolves r

section

variable {index utxoIndex : Int} {u : Utxo} (h : 0 ≤ utxoIndex)
  (hu : s.wallet.utxos[utxoIndex.toNat]? = some u)
  (hs : s.wallet.spentElsewhere index u.outpoint = false)
  (hplace : Text.isWritable u.vout = true)
  (hothers : ∀ e ∈ s.wallet.draft.inputs, ∀ v ∈ e.2.utxo, Text.isWritable v.vout = true)

include h hu hs hplace hothers

/-- Where the place of what it spends and those of what other inputs spend can be written, an input
is bound before notice is given of it. -/
theorem runOn_addInput : runOn (addInput index utxoIndex) s =
    runOn (do
      announce (.inputSpends index u.outpoint)
      return s.wallet.draft.inputs.get? index) { s with
        wallet := s.wallet.withInputs (s.wallet.draft.inputs.set index { utxo := some u }) } := by
  have hspent : ∀ v ∈ spentByOthers index s.wallet.draft.inputs, Text.isWritable v.vout = true := by
    intro v hv
    obtain ⟨e, he, hev⟩ := List.mem_filterMap.mp hv
    split at hev
    · cases hev
    · exact hothers e he v hev
  have hget : Answers (getUtxo utxoIndex) s u s := answers_getUtxo.mpr ⟨⟨h, hu⟩, rfl⟩
  have hdraft : Answers draft s s.wallet.draft s := answers_draft.mpr ⟨rfl, rfl⟩
  have hsame := findSame_answers (s := s) hplace hspent
  have hplaces : ∀ n ∈ [u].map (fun u => (u.vout : Int)), Text.isWritable n = true := by
    simpa using hplace
  rw [spentElsewhere_eq] at hs
  rw [addInput, runOn_bind, hget]
  dsimp only
  rw [runOn_bind, hdraft]
  dsimp only
  rw [runOn_bind, hsame]
  dsimp only
  rw [if_neg (Bool.eq_false_iff.mp hs), runOn_bind, editDraft, runOn_edit]
  dsimp only
  rw [runOn_bind, writeOutpoints, answers_write (x := ()).mpr ⟨hplaces, rfl⟩]
  rfl

/-- An input is added, where its index can be written as well. -/
theorem exists_answers_addInput (hi : Text.isWritable index = true) :
    ∃ old t, Answers (addInput index utxoIndex) s old t ∧
      t.wallet = s.wallet.withInputs (s.wallet.draft.inputs.set index { utxo := some u }) := by
  have hindex : ∀ n ∈ (Notice.inputSpends index u.outpoint).numbers, Text.isWritable n = true := by
    simpa [Notice.numbers] using hi
  let bound : Session := { s with
    wallet := s.wallet.withInputs (s.wallet.draft.inputs.set index { utxo := some u }) }
  refine ⟨s.wallet.draft.inputs.get? index,
    { bound with notices := s.notices ++ [.inputSpends index u.outpoint] },
    (runOn_addInput h hu hs hplace hothers).trans ?_, rfl⟩
  exact (answers_announce (x := ()).mpr ⟨hindex, rfl⟩).bind (answers_pure.mpr ⟨rfl, rfl⟩)

end

theorem answers_getInput {index : Int} {i : DraftInput} (h : Answers (getInput index) s i t) :
    s.wallet.draft.inputs.get? index = some i ∧ s = t := by
  simp only [getInput, answers_bind, answers_draft] at h
  obtain ⟨_, _, ⟨rfl, rfl⟩, h⟩ := h
  split at h
  · rename_i j hj
    obtain ⟨rfl, rfl⟩ := answers_pure.mp h
    exact ⟨hj, rfl⟩
  · exact absurd h not_answers_refuse

theorem evolves_deleteInput (index : Int) : Evolves g (deleteInput index) := by
  refine (reads_getInput index).evolves.bind fun i => ?_
  have he : Evolves g (editDraft fun d => { d with inputs := d.inputs.remove index }) :=
    fun s => takes_change (.unbind index)
  exact he.bind fun _ => reads_warnOfIdleLocktime.evolves.map

/-- The relative timelock of an input is set or taken away. -/
theorem takes_delay {index : Int} {i : DraftInput} {height : Option Nat}
    (hi : s.wallet.draft.inputs.get? index = some i) (hh : ∀ n ∈ height, n ≤ maxRelativeHeight) :
    Takes (Wallet.Changes g) (editDraft fun d =>
      { d with inputs := d.inputs.set index { i with sequence := height } }) s :=
  takes_change (.delay hi hh)

theorem evolves_setSequence (index height : Int) : Evolves g (setSequence index height) := by
  intro s
  unfold setSequence
  dsimp only
  split
  · exact takes_refuse_bind
  · rename_i hh
    refine (reads_getInput index).takes.bind fun i t h => ?_
    obtain ⟨hi, rfl⟩ := answers_getInput h
    refine (takes_delay hi fun n hn => ?_).bind fun _ t _ => (reads_announce _).evolves t
    obtain rfl := Option.some.inj hn
    omega

theorem evolves_disableSequence (index : Int) : Evolves g (disableSequence index) := by
  refine fun s => (reads_getInput index).takes.bind fun i t h => ?_
  obtain ⟨hi, rfl⟩ := answers_getInput h
  have hh : ∀ n ∈ (none : Option Nat), n ≤ maxRelativeHeight := nofun
  exact (takes_delay hi hh).bind fun _ t _ =>
    (reads_announce _).evolves.bind (fun _ => reads_warnOfIdleLocktime.evolves) t

theorem evolves_addOutput {index : Int} (hi : g.number index) (text : String) {value : Json}
    (hg : ∀ v, Json.checkNullable Json.checkNatural value = .pass (some v) → g.number v) :
    Evolves g (addOutput index text value) := by
  refine fun s => (reads_readDescriptor text).takes.bind fun d t h => ?_
  obtain ⟨hd, rfl⟩ := answers_readDescriptor.mp h
  refine reads_draft.takes.bind fun draft t h => ?_
  obtain ⟨rfl, rfl⟩ := answers_draft.mp h
  dsimp only
  split
  · exact takes_throw_bind
  · rename_i hr
    refine (reads_ofExcept _ _).takes.bind fun o t h => ?_
    obtain ⟨ho, rfl⟩ := answers_ofExcept.mp h
    obtain ⟨hv, ht⟩ := DraftOutput.ofJson_eq_ok.mp ho
    have hone : o.value = none →
        anyOther index s.wallet.draft.outputs (fun o => o.value.isNone) = false := by
      intro hn
      rw [hn] at hv
      simpa [Json.isNull_of_checkNullable hv] using hr
    have hnumber : ∀ v ∈ o.value, g.number v := by
      intro v hm
      rw [Option.mem_def.mp hm] at hv
      exact hg v hv
    exact (takes_change (.pay hi hd ht.symm hnumber hone)).bind fun _ t _ =>
      (reads_announce _).evolves.map t

theorem evolves_deleteOutput (index : Int) : Evolves g (deleteOutput index) := by
  refine reads_draft.evolves.bind fun d => ?_
  cases d.outputs.get? index with
  | none => exact (reads_refuse _).evolves
  | some o =>
    have he : Evolves g (editDraft fun d => { d with outputs := d.outputs.remove index }) :=
      fun s => takes_change (.unpay index)
    exact he.map

theorem evolves_setLocktime (height : Int) : Evolves g (setLocktime height) := by
  intro s
  unfold setLocktime
  dsimp only
  split
  · exact takes_refuse_bind
  · rename_i hh
    refine reads_draft.takes.bind fun d t h => ?_
    obtain ⟨rfl, rfl⟩ := answers_draft.mp h
    split
    · exact takes_throw_bind
    · refine (takes_change (.lock fun n hn => ?_)).bind fun _ t _ => (reads_announce _).evolves t
      obtain rfl := Option.some.inj hn
      omega

theorem evolves_clearLocktime : Evolves g clearLocktime := fun _ => takes_change (.lock nofun)

theorem evolves_setFee {fee : Int} (hf : g.number fee) : Evolves g (setFee fee) := by
  intro s
  unfold setFee
  dsimp only
  split
  · exact takes_throw_bind
  · rename_i hn
    have he : ((fee.toNat : Nat) : Int) = fee := Int.toNat_of_nonneg (by omega)
    refine takes_change (.charge ?_)
    rwa [he]

end Operation

/-! ## Booking -/

namespace Wallet

variable {g : Given}

theorem changes_foldl_added {w : Wallet} {us : List Utxo}
    (h : ∀ u ∈ us, u.Admitted g ∧
      ∃ text d, w.readDescriptor text = .ok d ∧ u.descriptor = d.text) :
    Changes g w (us.foldl added w) := by
  induction us generalizing w with
  | nil => exact .refl
  | cons u us ih =>
    obtain ⟨ha, text, d, hd, hu⟩ := h u List.mem_cons_self
    refine .head (.record hd hu ha) (ih fun v hv => ?_)
    have hs : (w.added u).readDescriptor = w.readDescriptor := by
      unfold readDescriptor
      rw [store_added]
    rw [hs]
    exact h v (List.mem_cons_of_mem u hv)

end Wallet

namespace Unsigned

variable {g : Given} {w : Wallet} {u : Unsigned} {txid : Bytes}

/-- The values of a transaction that has an id fit their fields. -/
theorem value_lt_of_mem_payments (ht : u.transaction.txid = .ok txid) {p : Nat × Descriptor}
    (hp : p ∈ u.payments) : p.1 < Bytes.bound 8 := by
  obtain ⟨o, ho, hpo⟩ := List.mem_map.mp (List.of_mem_zip hp).1
  obtain ⟨-, -, houts, -⟩ := Transaction.exists_txid.mp ⟨txid, ht⟩
  have hv := houts o ho
  omega

theorem length_payments_le (u : Unsigned) : u.payments.length ≤ u.transaction.outputs.length := by
  rw [payments, List.length_zip, List.length_map]
  exact Nat.min_le_left _ _

theorem writable_of_mem_records (ht : u.transaction.txid = .ok txid)
    (hn : Text.isWritable u.transaction.outputs.length = true) {r : Utxo}
    (hr : r ∈ u.records txid) : r.Writable := by
  obtain ⟨hvout, p, hp, -, hvalue, -⟩ := mem_outputRecords hr
  have hle := u.length_payments_le
  refine ⟨Text.isWritable_of_le (by omega) hn, Text.isWritable_of_lt ?_⟩
  have hlt := value_lt_of_mem_payments ht hp
  have hbound : Bytes.bound 8 ≤ 10 ^ 20 := by decide
  omega

/-- A transaction that has an id is booked, where the places can be written. -/
theorem Bookable.exists_answers_book {s : Session} (h : u.Bookable s.wallet)
    (ht : u.transaction.txid = .ok txid) (chain : Bool) :
    ∃ created t, Operation.Answers (Operation.book u txid chain) s created t :=
  Operation.exists_answers_book (fun _ => writable_of_mem_records ht h.created) h.recorded

namespace Prepared

/-- What is recorded of a transaction is admitted, where the indices of its outputs were given. -/
theorem admitted_of_mem_records (h : u.Prepared w) (ht : u.transaction.txid = .ok txid)
    (hn : ∀ e ∈ w.draft.outputs, g.number e.1) {r : Utxo} (hr : r ∈ u.records txid) :
    r.Admitted g := by
  obtain ⟨hvout, p, hp, htxid, hvalue, -⟩ := mem_outputRecords hr
  have hlength : txid.length = 32 := by
    obtain ⟨b, -, rfl⟩ := map_eq_ok.mp ht
    rw [List.length_reverse, length_hash256]
  have hindex : r.vout < w.draft.outputs.length := by
    have ho := h.length_outputs
    rw [← h.resolves.outputs.length_eq, Slots.length_sorted] at ho
    have hle := u.length_payments_le
    omega
  refine ⟨htxid ▸ HexText.accepted_ofBytes hlength, ?_, ?_⟩
  · obtain ⟨o, he⟩ := Draft.exists_mem_outputs h.resolves.indices hindex
    exact hn _ he
  · rw [hvalue]
    exact g.number_of_lt p.1 (value_lt_of_mem_payments ht hp)

/-- What is recorded of a transaction pays to descriptors that are read. -/
theorem reads_of_mem_records (h : u.Prepared w) {r : Utxo} (hr : r ∈ u.records txid) :
    ∃ text d, w.readDescriptor text = .ok d ∧ r.descriptor = d.text := by
  obtain ⟨-, p, hp, -, -, hd⟩ := mem_outputRecords hr
  obtain ⟨e, -, he⟩ := forall₂_mem h.resolves.outputs (List.of_mem_zip hp).2
  exact ⟨e.2.descriptor, p.2, Wallet.readDescriptor_eq_ok.mpr he, hd⟩

end Prepared

end Unsigned

/-- A booking comes to the same as clearing the draft first. -/
theorem Wallet.Booked.changes {g : Given} {w w' : Wallet} {u : Unsigned} {txid : Bytes}
    {chain : Bool} {created : List Utxo} (h : w.Booked u txid chain created w')
    (hu : u.Prepared w) (ht : u.transaction.txid = .ok txid)
    (hn : ∀ e ∈ w.draft.outputs, g.number e.1) : Changes g w w' := by
  have hcleared : Changes g w { w.bookedRecords u txid with draft := {} } := by
    unfold bookedRecords
    rw [← foldl_added_withDraft]
    refine .head .reset (.head (.forget (fun v => !u.spends v.outpoint) rfl) ?_)
    exact changes_foldl_added fun r hr =>
      ⟨hu.admitted_of_mem_records ht hn hr, hu.reads_of_mem_records hr⟩
  rw [h.wallet]
  cases chain with
  | false => exact hcleared
  | true =>
    cases created with
    | nil => exact hcleared
    | cons c cs =>
      obtain ⟨r, -, hc, -⟩ := forall₂_mem h.recorded List.mem_cons_self
      rw [h.wallet] at hc
      have hb : Change g { w.bookedRecords u txid with draft := {} }
          { w.bookedRecords u txid with draft := Draft.chained (c :: cs) } :=
        @Change.bind g _ 0 c (g.number_of_lt 0 (by decide)) hc rfl
      exact hcleared.tail hb

namespace Operation

variable {g : Given} {s : Session}

theorem takes_finalize (given : Option String) (chain : Bool)
    (hn : ∀ e ∈ s.wallet.draft.outputs, g.number e.1) :
    Takes (Wallet.Changes g) (finalize given chain) s := by
  rw [finalize_eq]
  refine reads_prepare.takes.bind fun u t hu => ?_
  obtain ⟨⟨hw, -⟩, hp⟩ := hu.prepared
  rw [← hw] at hp hn
  refine (reads_ofExcept _ _).takes.bind fun txid t h => ?_
  obtain ⟨ht, rfl⟩ := answers_ofExcept.mp h
  refine (reads_checkTxid given txid).takes.bind fun _ r h => ?_
  rw [← (reads_checkTxid given txid).wallet_eq h] at hp hn
  refine (reads_writePlaces u).takes.bind fun _ r' h => ?_
  obtain ⟨hbookable, rfl⟩ := answers_writePlaces.mp h
  obtain ⟨cs, r', ha⟩ := hbookable.exists_answers_book ht chain
  exact takes_of_answers ha (ha.booked_wallet.changes hp ht hn)

end Operation

/-! ## Commands -/

theorem length_readKeyText {kind value : String} {b : Bytes} (h : readKeyText kind value = .ok b) :
    b.length = 32 := by
  unfold readKeyText at h
  split at h
  · rename_i x hx
    cases h
    exact HexText.length_bytes_ofString hx
  · cases h

theorem Secret.length_normalize {secret even : Bytes} (hs : secret.length = 32)
    (h : normalize secret = .ok even) : even.length = 32 := by
  unfold normalize at h
  split at h
  · cases h
  · cases h
    exact hs
  · cases h
    exact Bytes.length_ofNatBE 32 _

namespace CommandLine.Command

open Operation

/-- The numbers that are given to go into the wallet. -/
def numbers : Command → List Int
  | fundInbound _ vout value => [vout, value]
  | addInput index _ => [index]
  | addOutput index _ value => index :: value.toList
  | setFee fee => [fee]
  | _ => []

variable {g : Given} {s : Session} (network : Network)

theorem reads_typed (kind value : String) : Reads (typed kind value) := reads_ofExcept _ _

/-- What is typed for a key or an image has 32 bytes. -/
theorem half_of_typed {kind value : String} {b : Bytes} {t : Session}
    (h : Answers (typed kind value) s b t) : g.half b :=
  g.half_of_length b (length_readKeyText (answers_ofExcept.mp h).1)

theorem reads_compileLines (text : String) : Reads (compileLines network text) :=
  (reads_readDescriptor text).bind fun d => (reads_commit d).bind fun _ =>
    (reads_ofExcept _ _).bind fun _ => reads_pure _

theorem reads_placeOf (u : Utxo) : Reads (placeOf u) := reads_wallet.bind fun _ => reads_pure _

theorem takes_perform {c : Command} (hc : ∀ n ∈ c.numbers, g.number n)
    (hn : ∀ e ∈ s.wallet.draft.outputs, g.number e.1) :
    Takes (Wallet.Changes g) (c.perform network) s := by
  cases c with
  | init force => exact (reads_pure _).takes
  | print secrets => exact (reads_summary network secrets).evolves.map s
  | generateKeys count => exact (evolves_generateKeys count).map s
  | importKey value isPublic =>
    cases isPublic with
    | true => exact (reads_typed _ _).evolves.bind (fun k => (evolves_importPublic k).map) s
    | false =>
      refine (reads_typed _ _).takes.bind fun k t h => ?_
      have hk : ∀ secret, Secret.normalize k = .ok secret → g.half secret :=
        fun secret hn => g.half_of_length secret
          (Secret.length_normalize (length_readKeyText (answers_ofExcept.mp h).1) hn)
      exact (evolves_importSecret hk).map t
  | setKeyActive key active =>
    exact (reads_typed _ _).evolves.bind (fun k => (evolves_setKeyActive k active).map) s
  | toggleKey key =>
    exact (reads_typed _ _).evolves.bind (fun k => (evolves_toggleKey k).map) s
  | generateImages count => exact (evolves_generateImages count).map s
  | importImage value isImage =>
    cases isImage with
    | true => exact (reads_typed _ _).evolves.bind (fun d => (evolves_importImage d).map) s
    | false =>
      exact (reads_typed _ _).takes.bind fun p t h =>
        (evolves_importPreimage (half_of_typed h)).map t
  | setImageActive image active =>
    exact (reads_typed _ _).evolves.bind (fun d => (evolves_setImageActive d active).map) s
  | toggleImage image =>
    exact (reads_typed _ _).evolves.bind (fun d => (evolves_toggleImage d).map) s
  | compile descriptor => exact (reads_compileLines network descriptor).takes
  | setInbound descriptor =>
    exact (evolves_setInbound descriptor).bind (fun d => (reads_addressOf network d).evolves.map) s
  | fundInbound txid vout value =>
    obtain ⟨hvout, hvalue⟩ : g.number vout ∧ g.number value := by simpa [numbers] using hc
    have hv : ∀ n, Json.checkNatural (.int vout) = .pass n → g.number n :=
      fun n h => Json.checkNatural_int.mp h ▸ hvout
    have hw : ∀ n, Json.checkNatural (.int value) = .pass n → g.number n :=
      fun n h => Json.checkNatural_int.mp h ▸ hvalue
    exact (evolves_fundInbound _ hv hw).bind (fun u => (reads_placeOf u).evolves.map) s
  | listUtxos => exact reads_listUtxos.takes
  | addInput index utxo => exact (evolves_addInput (hc index List.mem_cons_self) utxo).map s
  | deleteInput index => exact (evolves_deleteInput index).map s
  | setSequence index height => exact (evolves_setSequence index height).map s
  | disableSequence index => exact (evolves_disableSequence index).map s
  | addOutput index descriptor value =>
    have hv : ∀ v, Json.checkNullable Json.checkNatural (.ofOption .int value) = .pass (some v) →
        g.number v := by
      intro v h
      obtain rfl := Json.checkNullable_ofOption.mp h
      exact hc v (List.mem_cons_of_mem index (List.mem_singleton.mpr rfl))
    exact (evolves_addOutput (hc index List.mem_cons_self) descriptor hv).map s
  | deleteOutput index => exact (evolves_deleteOutput index).map s
  | setLocktime height =>
    cases height with
    | none => exact (reads_throw _).takes
    | some height => exact (evolves_setLocktime height).map s
  | clearLocktime => exact evolves_clearLocktime.map s
  | setFee fee => exact (evolves_setFee (hc fee List.mem_cons_self)).map s
  | spend => exact reads_build.evolves.map s
  | finalize txid chain =>
    exact (takes_finalize txid chain hn).bind fun _ t _ => (reads_pure _).takes

end CommandLine.Command
end Taproot
