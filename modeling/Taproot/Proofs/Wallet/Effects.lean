import Mathlib.Order.Defs.Unbundled
import Taproot.Proofs.Wallet.Preparation
import Taproot.Wallet.Editing
import Taproot.Wallet.Secrets
import Taproot.Wallet.Summary

/-! # Operations and the wallet

How the wallet after an operation is related to the one before it, whether the operation answers or
is refused. Operations that prepare, build or show something leave the wallet as it is.
-/
namespace Taproot.Operation

variable {α β ε : Type} {R : Wallet → Wallet → Prop} {s t : Session}

theorem runOn_map_snd {a : Operation α} {f : α → β} :
    (runOn (a >>= fun x => pure (f x)) s).2 = (runOn a s).2 := by
  rw [runOn_bind]
  rcases runOn a s with ⟨e | x, t⟩ <;> rfl

/-- Whether it answers or is refused, the operation takes the wallet to a related one. -/
def Takes (R : Wallet → Wallet → Prop) (a : Operation α) (s : Session) : Prop :=
  R s.wallet (runOn a s).2.wallet

theorem Takes.answers {a : Operation α} {x : α} (h : Takes R a s) (ha : Answers a s x t) :
    R s.wallet t.wallet := by
  rw [Takes, ha] at h
  exact h

theorem takes_of_answers {a : Operation α} {x : α} (ha : Answers a s x t)
    (h : R s.wallet t.wallet) : Takes R a s := by
  rw [Takes, ha]
  exact h

theorem Takes.bind [IsTrans Wallet R] {a : Operation α} {f : α → Operation β} (ha : Takes R a s)
    (hf : ∀ x t, Answers a s x t → Takes R (f x) t) : Takes R (a >>= f) s := by
  unfold Takes at ha ⊢
  rw [runOn_bind]
  rcases h : runOn a s with ⟨e | x, t⟩
  · rw [h] at ha
    exact ha
  · rw [h] at ha
    exact IsTrans.trans _ _ _ ha (hf x t h)

theorem takes_edit {f : Wallet → Wallet} (h : R s.wallet (f s.wallet)) : Takes R (edit f) s := h

/-- The wallet stays as it is. -/
def Reads (a : Operation α) : Prop := ∀ s, Takes Eq a s

theorem Reads.takes [Std.Refl R] {a : Operation α} (h : Reads a) : Takes R a s := by
  unfold Takes
  rw [← h s]
  exact Std.Refl.refl _

theorem Reads.wallet_eq {a : Operation α} {x : α} (h : Reads a) (ha : Answers a s x t) :
    t.wallet = s.wallet := ((h s).answers ha).symm

theorem takes_throw_bind [Std.Refl R] {e : WalletError} {f : α → Operation β} :
    Takes R (throw e >>= f) s := by
  rw [Takes, runOn_bind, runOn_throw]
  exact Std.Refl.refl _

theorem reads_pure (x : α) : Reads (pure x) := fun _ => rfl

theorem reads_throw (e : WalletError) : Reads (throw e : Operation α) := fun _ => rfl

theorem reads_wallet : Reads wallet := fun _ => rfl

theorem reads_inform (n : Notice) : Reads (inform n) := fun _ => rfl

theorem reads_write (ns : List Int) : Reads (write ns) := by
  unfold write
  split
  · exact reads_pure ()
  · exact reads_throw _

theorem reads_ofExcept (wrap : ε → WalletError) (x : Except ε α) : Reads (ofExcept wrap x) := by
  cases x with
  | error e => exact fun _ => rfl
  | ok a => exact fun _ => rfl

theorem Reads.bind {a : Operation α} {f : α → Operation β} (ha : Reads a) (hf : ∀ x, Reads (f x)) :
    Reads (a >>= f) := fun s => (ha s).bind fun x t _ => hf x t

theorem reads_announce (n : Notice) : Reads (announce n) :=
  (reads_write _).bind fun _ => reads_inform n

theorem reads_refuse (e : WalletError) : Reads (refuse e : Operation α) :=
  (reads_write _).bind fun _ => reads_throw e

/-- Nothing comes after a refusal. -/
theorem takes_refuse_bind [IsTrans Wallet R] [Std.Refl R] {e : WalletError} {f : α → Operation β} :
    Takes R (refuse e >>= f) s :=
  (reads_refuse e).takes.bind fun _ _ h => absurd h not_answers_refuse

theorem Reads.mapM {f : α → Operation β} (h : ∀ x, Reads (f x)) (xs : List α) :
    Reads (xs.mapM f) := by
  induction xs with
  | nil => exact reads_pure []
  | cons x xs ih =>
    rw [List.mapM_cons]
    exact (h x).bind fun _ => ih.bind fun _ => reads_pure _

theorem reads_draw : Reads draw := by
  intro s
  obtain ⟨w, entropy, notices⟩ := s
  cases entropy <;> rfl

/-! ## Operations that leave the wallet as it is -/

theorem reads_draft : Reads draft := reads_wallet.bind fun _ => reads_pure _

theorem reads_store : Reads store := reads_wallet.bind fun _ => reads_pure _

theorem reads_readDescriptor (text : String) : Reads (readDescriptor text) :=
  reads_wallet.bind fun _ => reads_ofExcept _ _

theorem reads_findSame (u : Utxo) (vs : List Utxo) : Reads (findSame u vs) := by
  induction vs with
  | nil => exact reads_pure none
  | cons v vs ih =>
    refine (reads_write _).bind fun _ => ?_
    split
    · exact reads_pure (some v)
    · exact ih

theorem reads_getUtxo (index : Int) : Reads (getUtxo index) := by
  refine reads_wallet.bind fun w => ?_
  split
  · exact fun s => takes_refuse_bind
  · dsimp only
    cases w.utxos[index.toNat]? with
    | some u => exact reads_pure u
    | none => exact reads_refuse _

theorem reads_getInput (index : Int) : Reads (getInput index) := by
  refine reads_draft.bind fun d => ?_
  cases d.inputs.get? index with
  | some i => exact reads_pure i
  | none => exact reads_refuse _

theorem reads_warnOfIdleLocktime : Reads warnOfIdleLocktime := by
  refine reads_draft.bind fun d => ?_
  split
  · exact reads_inform _
  · exact reads_pure _

theorem reads_commit (d : Descriptor) : Reads (commit d) :=
  (reads_ofExcept _ _).bind fun _ => (reads_inform _).bind fun _ => reads_pure _

theorem reads_prepare : Reads prepare :=
  reads_wallet.bind fun _ => (reads_ofExcept _ _).bind fun _ =>
    (Reads.mapM reads_commit _).bind fun _ => (Reads.mapM reads_commit _).bind fun _ =>
      (reads_ofExcept _ _).bind fun _ => reads_pure _

theorem reads_signInput (u : Unsigned) (index : Nat) (c : Commitment) :
    Reads (signInput u index c) :=
  reads_wallet.bind fun _ => (reads_ofExcept _ _).bind fun _ => (reads_inform _).bind fun _ =>
    reads_pure _

theorem reads_signInputs (u : Unsigned) (index : Nat) (cs : List Commitment) :
    Reads (signInputs u index cs) := by
  induction cs generalizing index with
  | nil => exact reads_pure _
  | cons c cs ih =>
    exact (reads_signInput u index c).bind fun _ => (ih (index + 1)).bind fun _ => reads_pure _

theorem reads_build : Reads build := by
  refine reads_prepare.bind fun u => (reads_signInputs u 0 _).bind fun _ =>
    (reads_ofExcept _ _).bind fun _ => (reads_ofExcept _ _).bind fun _ =>
      (reads_ofExcept _ _).bind fun _ => ?_
  dsimp only
  split
  · exact reads_throw _
  · exact (reads_inform _).bind fun _ => reads_pure _

theorem reads_addressOf (network : Network) (d : Descriptor) : Reads (addressOf network d) :=
  (reads_commit d).bind fun _ => reads_pure _

theorem reads_listUtxos : Reads listUtxos :=
  reads_wallet.bind fun _ => (reads_write _).bind fun _ => reads_pure _

theorem reads_summary (network : Network) (secrets : Bool) : Reads (summary network secrets) := by
  refine Reads.bind (reads_wallet.bind fun w => ?_) fun _ => reads_wallet.bind fun _ =>
    reads_listUtxos.bind fun _ => (reads_write _).bind fun _ => reads_pure _
  cases w.inbound with
  | none => exact reads_pure _
  | some text =>
    exact (reads_readDescriptor text).bind fun d => (reads_addressOf network d).bind fun _ =>
      reads_pure _

end Taproot.Operation
