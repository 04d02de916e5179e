import Taproot.Draft.Basic

/-! # Timelocks of a draft

A locktime is enforced only where some input has a relative timelock, so that both are resolved
together. An input answers whether it has come to a height.
-/
namespace Taproot

/-- The sequence number of a final input. -/
def finalSequence : Nat := 0xffffffff

/-- The sequence number of an input that has no relative timelock and is not final. -/
def locktimeSequence : Nat := 0xfffffffe

/-- The least locktime that is a time and no block height. -/
def heightLimit : Nat := 500000000

/-- The timelocks as one input sees them. -/
structure InputTimelock where
  index : Int
  relativeHeight : Option Nat
  active : Bool
  locktime : Option Nat
  deriving DecidableEq, Repr

namespace InputTimelock

def olderMet (t : InputTimelock) (height : Int) : Bool :=
  t.active && match t.relativeHeight with
    | some h => decide (height ≤ h)
    | none => false

def afterMet (t : InputTimelock) (height : Int) : Bool :=
  t.active && match t.locktime with
    | some h => decide (height ≤ h)
    | none => false

end InputTimelock

structure Timelocks where
  /-- Some input has a relative timelock. -/
  active : Bool
  locktime : Option Nat
  relativeHeights : Slots (Option Nat)
  deriving DecidableEq, Repr

namespace Timelocks

def heightOf (t : Timelocks) (index : Int) : Option Nat := (t.relativeHeights.get? index).join

def forInput (t : Timelocks) (index : Int) : InputTimelock :=
  ⟨index, t.heightOf index, t.active, t.locktime⟩

def sequence (t : Timelocks) (index : Int) : Nat :=
  match t.heightOf index with
  | some h => h
  | none => if t.active then locktimeSequence else finalSequence

def nLockTime (t : Timelocks) : Nat := if t.active then t.locktime.getD 0 else 0

end Timelocks

/-- `none` where the draft has a locktime that nothing enforces. -/
def Draft.timelocks? (d : Draft) : Option Timelocks :=
  if d.locktime.isSome ∧ d.hasRelativeTimelock = false then none
  else some ⟨d.hasRelativeTimelock, d.locktime, d.inputs.mapValues DraftInput.sequence⟩

end Taproot
