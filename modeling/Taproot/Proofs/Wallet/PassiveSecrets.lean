import Taproot.Proofs.Descriptor.KnownKeys
import Taproot.Proofs.Wallet.Building
import Taproot.Proofs.Wallet.Effects

/-! # Secrets that are not in use

Two wallets that differ in nothing but the secret halves of entries which are not in use build the
same transaction, or are refused for the same reason: the store is read through what it knows and
through what it has in use, and both are the same.
-/
namespace Taproot

/-! ## Alike stores -/

/-- The entries differ in nothing but a secret that is not in use. -/
structure KeyPair.Alike (p q : KeyPair) : Prop where
  publicKey : q.publicKey = p.publicKey
  active : q.active = p.active
  secret : p.active = true → q.secret = p.secret

/-- The entries differ in nothing but a preimage that is not in use. -/
structure ImagePair.Alike (p q : ImagePair) : Prop where
  image : q.image = p.image
  active : q.active = p.active
  preimage : p.active = true → q.preimage = p.preimage

/-- The same secret of the same key is in use. -/
structure KeyPair.Agrees (p q : KeyPair) : Prop where
  publicKey : q.publicKey = p.publicKey
  usableSecret : q.usableSecret = p.usableSecret

/-- The same preimage of the same image is in use. -/
structure ImagePair.Agrees (p q : ImagePair) : Prop where
  image : q.image = p.image
  usablePreimage : q.usablePreimage = p.usablePreimage

theorem KeyPair.Alike.agrees {p q : KeyPair} (h : p.Alike q) : p.Agrees q where
  publicKey := h.publicKey
  usableSecret := by
    unfold usableSecret
    rw [h.active]
    split
    · rename_i ha
      rw [h.secret ha]
    · rfl

theorem ImagePair.Alike.agrees {p q : ImagePair} (h : p.Alike q) : p.Agrees q where
  image := h.image
  usablePreimage := by
    unfold usablePreimage
    rw [h.active]
    split
    · rename_i ha
      rw [h.preimage ha]
    · rfl

theorem find?_of_forall₂ {α : Type} {R : α → α → Prop} {p : α → Bool} {xs ys : List α}
    (h : List.Forall₂ R xs ys) (hp : ∀ x y, R x y → p y = p x) :
    (xs.find? p = none ∧ ys.find? p = none) ∨
      ∃ x y, xs.find? p = some x ∧ ys.find? p = some y ∧ R x y := by
  induction h with
  | nil => exact .inl ⟨rfl, rfl⟩
  | @cons x y xs ys hxy _ ih =>
    have hsame := hp x y hxy
    by_cases hx : p x = true
    · exact .inr ⟨x, y, List.find?_cons_of_pos hx, List.find?_cons_of_pos (hsame.trans hx), hxy⟩
    · rwa [List.find?_cons_of_neg hx, List.find?_cons_of_neg (hsame ▸ hx)]

namespace Store

/-- The stores differ in nothing but secret halves that are not in use. -/
structure Alike (st st' : Store) : Prop where
  keys : List.Forall₂ KeyPair.Alike st.keys st'.keys
  images : List.Forall₂ ImagePair.Alike st.images st'.images

/-- The same keys and images are known, and the same secret halves are in use. -/
structure Agrees (st st' : Store) : Prop where
  keys : List.Forall₂ KeyPair.Agrees st.keys st'.keys
  images : List.Forall₂ ImagePair.Agrees st.images st'.images

variable {st st' : Store}

theorem Alike.agrees (h : st.Alike st') : st.Agrees st' where
  keys := h.keys.imp fun _ _ => KeyPair.Alike.agrees
  images := h.images.imp fun _ _ => ImagePair.Alike.agrees

namespace Agrees

theorem findKey? (h : st.Agrees st') (k : Bytes) :
    (st.findKey? k = none ∧ st'.findKey? k = none) ∨
      ∃ p q, st.findKey? k = some p ∧ st'.findKey? k = some q ∧ p.Agrees q :=
  find?_of_forall₂ h.keys fun p q hpq => by rw [isKey, isKey, hpq.publicKey]

theorem findImage? (h : st.Agrees st') (d : Bytes) :
    (st.findImage? d = none ∧ st'.findImage? d = none) ∨
      ∃ p q, st.findImage? d = some p ∧ st'.findImage? d = some q ∧ p.Agrees q :=
  find?_of_forall₂ h.images fun p q hpq => by rw [isImage, isImage, hpq.image]

theorem knowsSame (h : st.Agrees st') : st.KnowsSame st' where
  keys k := by
    rcases h.findKey? k with ⟨hp, hq⟩ | ⟨p, q, hp, hq, -⟩
    · rw [hp, hq]
    · rw [hp, hq]
      rfl
  images d := by
    rcases h.findImage? d with ⟨hp, hq⟩ | ⟨p, q, hp, hq, -⟩
    · rw [hp, hq]
    · rw [hp, hq]
      rfl

theorem activeSecret?_eq (h : st.Agrees st') : st'.activeSecret? = st.activeSecret? := by
  funext k
  unfold activeSecret?
  rcases h.findKey? k with ⟨hp, hq⟩ | ⟨p, q, hp, hq, hpq⟩
  · rw [hp, hq]
  · rw [hp, hq]
    exact hpq.usableSecret

theorem activePreimage?_eq (h : st.Agrees st') : st'.activePreimage? = st.activePreimage? := by
  funext d
  unfold activePreimage?
  rcases h.findImage? d with ⟨hp, hq⟩ | ⟨p, q, hp, hq, hpq⟩
  · rw [hp, hq]
  · rw [hp, hq]
    exact hpq.usablePreimage

/-! ## Paths -/

variable (timelock : InputTimelock)

theorem leafMaterial_eq (h : st.Agrees st') (digest : Except TransactionError Bytes) :
    leafMaterial st' timelock digest = leafMaterial st timelock digest := by
  unfold leafMaterial
  rw [h.activeSecret?_eq, h.activePreimage?_eq]

theorem isUnmet_eq (h : st.Agrees st') : isUnmet st' timelock = isUnmet st timelock := by
  funext r
  cases r with
  | sign k => rw [isUnmet, isUnmet, h.activeSecret?_eq]
  | preimage d => rw [isUnmet, isUnmet, h.activePreimage?_eq]
  | older | after => rfl

theorem signingSecrets_eq (h : st.Agrees st') (requests : List Miniscript.Request) :
    signingSecrets st' requests = signingSecrets st requests := by
  unfold signingSecrets
  rw [h.activeSecret?_eq]

variable (c : Commitment) (digestFor : DigestFor)

/-- The leaves are tried alike, with the same reports of those that fail. -/
theorem spendLeaf_eq (h : st.Agrees st') (attempts : List LeafAttempt)
    (digests : List (Option Bytes)) (index : Nat) (leaves : List LeafPath) :
    spendLeaf c st' timelock digestFor attempts digests index leaves =
      spendLeaf c st timelock digestFor attempts digests index leaves := by
  induction leaves generalizing attempts digests index with
  | nil => rfl
  | cons l rest ih =>
    simp only [spendLeaf, h.leafMaterial_eq, h.signingSecrets_eq, h.isUnmet_eq, ih]

theorem spend_eq (h : st.Agrees st') :
    spend c st' timelock digestFor = spend c st timelock digestFor := by
  unfold spend
  rw [h.activeSecret?_eq, h.spendLeaf_eq]

end Agrees
end Store

/-! ## Wallets -/

namespace Wallet

/-- The wallets differ in nothing but secret halves that are not in use. -/
structure Alike (w w' : Wallet) : Prop where
  store : w.store.Alike w'.store
  inbound : w'.inbound = w.inbound
  utxos : w'.utxos = w.utxos
  draft : w'.draft = w.draft

/-- The drafts are the same, and the stores agree. -/
structure Agrees (w w' : Wallet) : Prop where
  store : w.store.Agrees w'.store
  draft : w'.draft = w.draft

variable {w w' : Wallet}

theorem Alike.agrees (h : w.Alike w') : w.Agrees w' := ⟨h.store.agrees, h.draft⟩

theorem Agrees.readDescriptor_eq (h : w.Agrees w') : w'.readDescriptor = w.readDescriptor := by
  funext text
  unfold readDescriptor
  rw [Descriptor.read_congr h.store.knowsSame]

theorem Agrees.spending_eq (h : w.Agrees w') : w'.spending = w.spending := by
  unfold spending
  rw [h.draft, h.readDescriptor_eq]

end Wallet

namespace Operation

variable {α β ε : Type} {s : Session}

/-- In wallets that agree the operation does the same, and leaves them as they are. -/
def Blind (a : Operation α) : Prop := ∀ s w, s.wallet.Agrees w →
  runOn a { s with wallet := w } = ((runOn a s).1, { (runOn a s).2 with wallet := w })

/-- In sessions that differ in nothing but their wallets, what is answered is the same. -/
theorem Blind.answer_eq {a : Operation α} (ha : Blind a) {t : Session}
    (h : s.wallet.Agrees t.wallet) (ht : { s with wallet := t.wallet } = t) :
    (runOn a t).1 = (runOn a s).1 := by
  rw [← ht, ha s t.wallet h]

theorem blind_pure (x : α) : Blind (pure x) := fun _ _ _ => rfl

theorem blind_throw (e : WalletError) : Blind (throw e : Operation α) := fun _ _ _ => rfl

theorem blind_inform (n : Notice) : Blind (inform n) := fun _ _ _ => rfl

theorem blind_ofExcept (wrap : ε → WalletError) (x : Except ε α) : Blind (ofExcept wrap x) := by
  cases x with
  | error e => exact blind_throw _
  | ok a => exact blind_pure a

theorem Blind.bind {a : Operation α} {f : α → Operation β} (hr : Reads a) (ha : Blind a)
    (hf : ∀ x, Blind (f x)) : Blind (a >>= f) := by
  intro s w h
  rw [runOn_bind, runOn_bind, ha s w h]
  rcases hx : runOn a s with ⟨e | x, t⟩
  · rfl
  · -- the wallet is still the one before, so that both agree for the rest
    have hw : t.wallet = s.wallet := hr.wallet_eq hx
    exact hf x t w (hw ▸ h)

/-- What is done with the wallet is the same with another one that agrees. -/
theorem blind_wallet_bind {f : Wallet → Operation α} (hsame : ∀ w w', w.Agrees w' → f w' = f w)
    (hf : ∀ w, Blind (f w)) : Blind (wallet >>= f) := by
  intro s w h
  rw [runOn_bind, runOn_bind, runOn_wallet, runOn_wallet]
  dsimp only
  rw [hsame s.wallet w h]
  exact hf s.wallet s w h

theorem Blind.mapM {f : α → Operation β} (hr : ∀ x, Reads (f x)) (hf : ∀ x, Blind (f x))
    (xs : List α) : Blind (xs.mapM f) := by
  induction xs with
  | nil => exact blind_pure []
  | cons x xs ih =>
    rw [List.mapM_cons]
    exact .bind (hr x) (hf x) fun _ => .bind (Reads.mapM hr xs) ih fun _ => blind_pure _

theorem blind_commit (d : Descriptor) : Blind (commit d) :=
  .bind (reads_ofExcept _ _) (blind_ofExcept _ _) fun _ =>
    .bind (reads_inform _) (blind_inform _) fun _ => blind_pure _

theorem blind_prepare : Blind prepare := by
  refine blind_wallet_bind (fun w w' h => ?_) fun w => ?_
  · rw [h.spending_eq, h.draft]
  · have hcommits : ∀ ds : List Descriptor, Blind (ds.mapM commit) :=
      Blind.mapM reads_commit blind_commit
    exact .bind (reads_ofExcept _ _) (blind_ofExcept _ _) fun s =>
      .bind (Reads.mapM reads_commit _) (hcommits _) fun _ =>
        .bind (Reads.mapM reads_commit _) (hcommits _) fun _ =>
          .bind (reads_ofExcept _ _) (blind_ofExcept _ _) fun _ => blind_pure _

theorem blind_signInput (u : Unsigned) (index : Nat) (c : Commitment) :
    Blind (signInput u index c) := by
  refine blind_wallet_bind (fun w w' h => ?_) fun w => ?_
  · simp only [h.store.spend_eq]
  · exact .bind (reads_ofExcept _ _) (blind_ofExcept _ _) fun _ =>
      .bind (reads_inform _) (blind_inform _) fun _ => blind_pure _

theorem blind_signInputs (u : Unsigned) (index : Nat) (cs : List Commitment) :
    Blind (signInputs u index cs) := by
  induction cs generalizing index with
  | nil => exact blind_pure []
  | cons c cs ih =>
    exact .bind (reads_signInput u index c) (blind_signInput u index c) fun _ =>
      .bind (reads_signInputs u (index + 1) cs) (ih (index + 1)) fun _ => blind_pure _

theorem blind_build : Blind build := by
  refine .bind reads_prepare blind_prepare fun u => ?_
  refine .bind (reads_signInputs u 0 _) (blind_signInputs u 0 _) fun ws => ?_
  refine .bind (reads_ofExcept _ _) (blind_ofExcept _ _) fun txid => ?_
  refine .bind (reads_ofExcept _ _) (blind_ofExcept _ _) fun weight => ?_
  refine .bind (reads_ofExcept _ _) (blind_ofExcept _ _) fun encoded => ?_
  dsimp only
  split
  · exact blind_throw _
  · exact .bind (reads_inform _) (blind_inform _) fun _ => blind_pure _

/-- A secret half that is not in use has no influence on what is built: with it, without it or with
another one the same transaction comes out at the same fee, or the same error with the same report
of the paths that cannot be taken. -/
theorem build_ignores_passive {w : Wallet} (h : s.wallet.Alike w) :
    runOn build { s with wallet := w } =
      ((runOn build s).1, { (runOn build s).2 with wallet := w }) := blind_build s w h.agrees

end Operation

namespace LeafSpend

/-- The key of the leaf is in use and the internal key is not. -/
def passive (secret? : Option HexText) : Session where
  wallet :=
    { store :=
        { keys := [{ secret := some (.ofBytes secret), publicKey := .ofBytes key },
            { secret := secret?, publicKey := .ofBytes internalKey, active := false }] }
      draft }

def internalSecret : Bytes := Bytes.ofNatBE 32 3

theorem agrees_passive : session.wallet.Agrees (passive none).wallet where
  store := ⟨.cons ⟨rfl, rfl⟩ (.cons ⟨rfl, rfl⟩ .nil), .nil⟩
  draft := rfl

theorem alike_passive (secret? secret'? : Option HexText) :
    (passive secret?).wallet.Alike (passive secret'?).wallet where
  store := ⟨.cons ⟨rfl, rfl, fun _ => rfl⟩ (.cons ⟨rfl, rfl, nofun⟩ .nil), .nil⟩
  inbound := rfl
  utxos := rfl
  draft := rfl

/-- The secret of the internal key, which is not in use, leaves the leaf to be spent. -/
theorem builds_passive :
    (passive none).wallet.Alike (passive (some (.ofBytes internalSecret))).wallet ∧
    Secret.publicKey internalSecret = .ok internalKey ∧
    (Operation.runOn Operation.build (passive none)).1 = .ok built ∧
    (Operation.runOn Operation.build (passive (some (.ofBytes internalSecret)))).1 = .ok built := by
  have hkey : Secret.publicKey internalSecret = .ok internalKey := by decide +kernel
  have hnone : (Operation.runOn Operation.build (passive none)).1 = .ok built := by
    obtain ⟨t, ht⟩ := builds
    rw [Operation.blind_build.answer_eq agrees_passive rfl, ht]
  have halike := alike_passive none (some (.ofBytes internalSecret))
  have hsame := Operation.build_ignores_passive (s := passive none) halike
  -- on the closed sessions a projection would be compared by running `build`
  have hfst : ∀ {p : Except WalletError Built × Session} {x t}, p = (x, t) → p.1 = x :=
    fun h => h ▸ rfl
  exact ⟨halike, hkey, hnone, (hfst hsame).trans hnone⟩

end LeafSpend
end Taproot
