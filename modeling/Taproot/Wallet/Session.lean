import Taproot.Wallet.Error
import Taproot.Wallet.Notice

/-! # Sessions

An operation works on a wallet, draws from a supply of random bytes and leaves notices. What it did
before it is refused stays done.
-/
namespace Taproot

structure Session where
  wallet : Wallet
  /-- The draws of random bytes that are still to come. -/
  entropy : List Bytes := []
  notices : List Notice := []

abbrev Operation := ExceptT WalletError (StateM Session)

namespace Operation

variable {α β : Type}

/-- The answer of an operation and the session after it. -/
def runOn (a : Operation α) (s : Session) : Except WalletError α × Session := a.run s

@[simp] theorem runOn_pure (x : α) (s : Session) : runOn (pure x) s = (.ok x, s) := rfl

@[simp] theorem runOn_throw (e : WalletError) (s : Session) :
    runOn (throw e : Operation α) s = (.error e, s) := rfl

/-- After a refusal nothing more is done. -/
theorem runOn_bind (a : Operation α) (f : α → Operation β) (s : Session) :
    runOn (a >>= f) s =
      match runOn a s with
      | (.ok x, t) => runOn (f x) t
      | (.error e, t) => (.error e, t) := by
  unfold runOn
  rw [ExceptT.run_bind]
  change StateT.bind (ExceptT.run a) _ s = _
  unfold StateT.bind
  change (match ExceptT.run a s with | (r, t) => _) = _
  generalize ExceptT.run a s = r
  rcases r with ⟨x | x, t⟩ <;> rfl

def ofExcept {ε : Type} (wrap : ε → WalletError) : Except ε α → Operation α
  | .ok x => pure x
  | .error e => throw (wrap e)

@[simp] theorem runOn_ofExcept_ok {ε : Type} (wrap : ε → WalletError) (x : α) (s : Session) :
    runOn (ofExcept wrap (.ok x)) s = (.ok x, s) := rfl

@[simp] theorem runOn_ofExcept_error {ε : Type} (wrap : ε → WalletError) (e : ε) (s : Session) :
    runOn (ofExcept wrap (.error e) : Operation α) s = (.error (wrap e), s) := rfl

def wallet : Operation Wallet := return (← get).wallet

@[simp] theorem runOn_wallet (s : Session) : runOn wallet s = (.ok s.wallet, s) := rfl

def edit (f : Wallet → Wallet) : Operation Unit := modify fun s => { s with wallet := f s.wallet }

@[simp] theorem runOn_edit (f : Wallet → Wallet) (s : Session) :
    runOn (edit f) s = (.ok (), { s with wallet := f s.wallet }) := rfl

def inform (n : Notice) : Operation Unit := modify fun s => { s with notices := s.notices ++ [n] }

@[simp] theorem runOn_inform (n : Notice) (s : Session) :
    runOn (inform n) s = (.ok (), { s with notices := s.notices ++ [n] }) := rfl

/-- Integers are written to be shown. -/
def write (ns : List Int) : Operation Unit :=
  if ns.all Text.isWritable then return else throw .unwritable

/-- Gives notice, where its integers can be written. -/
def announce (n : Notice) : Operation Unit := do
  write n.numbers
  inform n

/-- The message of the error is written first. -/
def refuse (e : WalletError) : Operation α := do
  write e.numbers
  throw e

/-- The next random bytes. -/
def draw : Operation Bytes := do
  match (← get).entropy with
  | [] => throw .entropyExhausted
  | b :: rest =>
    modify fun s => { s with entropy := rest }
    return b

end Operation
end Taproot
