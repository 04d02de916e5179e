import Taproot.Commitment
import Taproot.Draft.Timelock
import Taproot.Key.Signature
import Taproot.Miniscript.Satisfaction
import Taproot.Transaction.Error

/-! # Choosing a spending path

The key path is taken where the secret of the internal key is in use, and else the first leaf that
can be satisfied. A leaf that cannot be is reported with the requests that were not met.
-/
namespace Taproot

open Miniscript

/-- The message that is signed for the key path or for a leaf of a given hash. -/
abbrev DigestFor := Option Bytes → Except TransactionError Bytes

structure SpendWitness where
  items : List Bytes
  /-- The index of the leaf; the key path has none. -/
  leaf : Option Nat
  deriving DecidableEq, Repr

/-- A request that a leaf made in vain. -/
def Miniscript.Request.blockerMessage : Request → String
  | .sign key => "pk(" ++ key.hex ++ "): missing active key"
  | .preimage image => "sha256(" ++ image.hex ++ "): missing active preimage"
  | .older height => s!"older({height}): relative timelock unmet"
  | .after height => s!"after({height}): absolute timelock unmet"

/-- A leaf that cannot be satisfied. -/
structure LeafAttempt where
  index : Nat
  miniscript : String
  blockers : List Request
  deriving DecidableEq, Repr

def LeafAttempt.message (a : LeafAttempt) : String :=
  let reasons :=
    if a.blockers.isEmpty then "not satisfiable"
    else "; ".intercalate (a.blockers.map Request.blockerMessage)
  s!"leaf #{a.index} {a.miniscript}: {reasons}"

/-- No path of an input can be taken. -/
structure NoPath where
  input : Int
  internalKey : Bytes
  attempts : List LeafAttempt
  deriving DecidableEq, Repr

def NoPath.message (e : NoPath) : String :=
  "\n".intercalate
    (s!"No satisfying spend path for input #{e.input}" ::
      s!"  key path: internal key {e.internalKey.hex}: missing active key" ::
      e.attempts.map fun a => "  " ++ a.message)

inductive SpendError
  | key (e : KeyError)
  | digest (e : TransactionError)
  | noPath (e : NoPath)
  deriving DecidableEq, Repr

def signDigest (secret : Bytes) (digest : Except TransactionError Bytes) : Except SpendError Bytes :=
  match digest with
  | .error e => .error (.digest e)
  | .ok m =>
    match Secret.sign secret m with
    | .error e => .error (.key e)
    | .ok signature => .ok signature

/-- What the store and the timelocks offer to a leaf with the given digest. -/
def leafMaterial (store : Store) (timelock : InputTimelock)
    (digest : Except TransactionError Bytes) : Material where
  sign key := (store.activeSecret? key).map fun secret => (signDigest secret digest).toOption.getD []
  preimage image := store.activePreimage? image
  older := timelock.olderMet
  after := timelock.afterMet

/-- The store or the timelocks do not grant the request. -/
def isUnmet (store : Store) (timelock : InputTimelock) : Request → Bool
  | .sign key => (store.activeSecret? key).isNone
  | .preimage image => (store.activePreimage? image).isNone
  | .older height => !timelock.olderMet height
  | .after height => !timelock.afterMet height

/-- The secrets that requests sign with, in order. -/
def signingSecrets (store : Store) (requests : List Request) : List Bytes :=
  requests.filterMap fun
    | .sign key => store.activeSecret? key
    | _ => none

/-- The first reason for which a signature over a digest cannot be made. -/
def signingFault (digest : Except TransactionError Bytes) : List Bytes → Except SpendError Unit
  | [] => .ok ()
  | secret :: rest =>
    match signDigest secret digest with
    | .error e => .error e
    | .ok _ => signingFault digest rest

/-- The result of a search for a path, with the hashes for which a digest was made. -/
structure SpendSearch where
  result : Except SpendError SpendWitness
  digests : List (Option Bytes)

/-- Tries the leaves from an index on. -/
def spendLeaf (c : Commitment) (store : Store) (timelock : InputTimelock) (digestFor : DigestFor)
    (attempts : List LeafAttempt) (digests : List (Option Bytes)) :
    (index : Nat) → List LeafPath → SpendSearch
  | _, [] => ⟨.error (.noPath ⟨timelock.index, c.internalKey, attempts⟩), digests⟩
  | index, l :: rest =>
    let digest := digestFor (some l.hash)
    let outcome := l.leaf.fragment.satisfy (leafMaterial store timelock digest)
    let secrets := signingSecrets store outcome.requests
    let digests := if secrets.isEmpty then digests else digests ++ [some l.hash]
    match signingFault digest secrets with
    | .error e => ⟨.error e, digests⟩
    | .ok () =>
      match outcome.witness with
      | some w => ⟨.ok ⟨w ++ [l.script, c.controlBlock l], some index⟩, digests⟩
      | none =>
        let attempt : LeafAttempt :=
          ⟨index, l.leaf.fragment.text, outcome.requests.filter (isUnmet store timelock)⟩
        spendLeaf c store timelock digestFor (attempts ++ [attempt]) digests (index + 1) rest

def spend (c : Commitment) (store : Store) (timelock : InputTimelock) (digestFor : DigestFor) :
    SpendSearch :=
  match store.activeSecret? c.internalKey with
  | none => spendLeaf c store timelock digestFor [] [] 0 c.leaves
  | some secret =>
    match Secret.tweak secret c.root with
    | .error e => ⟨.error (.key e), []⟩
    | .ok tweaked =>
      match signDigest tweaked (digestFor none) with
      | .error e => ⟨.error e, [none]⟩
      | .ok signature => ⟨.ok ⟨[signature], none⟩, [none]⟩

end Taproot
