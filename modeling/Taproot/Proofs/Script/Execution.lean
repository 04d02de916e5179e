import Taproot.Hash.Sha256
import Taproot.Proofs.Script.NumberValue

/-! # Running tapscript

The meaning of the opcodes that leaves use, on a stack with its top first. A condition is exactly
empty or exactly one, an empty signature is false and any other must be good. The limits on sizes, of
scripts, stacks, items and numbers, are left out.
-/
namespace Taproot

/-- What a script can see of the input that it guards. -/
structure ScriptContext where
  version : Nat
  lockTime : Nat
  sequence : Nat
  verifies : (key signature : Bytes) → Bool

namespace ScriptContext

/-- The locktime has come to `n`: both are heights or both are times, and the input is not final. -/
def lockTimeReached (c : ScriptContext) (n : Int) : Bool :=
  decide (0 ≤ n ∧ (n < 500000000 ↔ c.lockTime < 500000000) ∧ n ≤ c.lockTime ∧
    c.sequence ≠ 0xffffffff)

/-- The sequence number has come to `n`, which with its bit 31 asks for nothing. Bit 22 tells times
from heights; either is counted in the low 16 bits. -/
def sequenceReached (c : ScriptContext) (n : Int) : Bool :=
  decide (0 ≤ n) && (n.toNat.testBit 31 ||
    (decide (2 ≤ c.version) && !c.sequence.testBit 31 &&
      n.toNat.testBit 22 == c.sequence.testBit 22 &&
      decide (n.toNat % 65536 ≤ c.sequence % 65536)))

/-- Keys of another length than 32 bytes are kept for later use and pass any signature. -/
def checks (c : ScriptContext) (key signature : Bytes) : Option Bool :=
  if key = [] then none
  else if signature = [] then some false
  else if key.length = 32 ∧ c.verifies key signature = false then none
  else some true

end ScriptContext

def boolItem (b : Bool) : Bytes := if b then [1] else []

theorem boolItem_eq_encode (b : Bool) : boolItem b = ScriptNumber.encode (if b then 1 else 0) := by
  cases b
  · exact ScriptNumber.encode_zero.symm
  · exact ScriptNumber.encode_one.symm

/-- Neither zero nor negative zero. -/
def isTrue (item : Bytes) : Bool := ScriptNumber.decode item != 0

@[simp] theorem isTrue_boolItem (b : Bool) : isTrue (boolItem b) = b := by
  rw [isTrue, boolItem_eq_encode, ScriptNumber.decode_encode]
  cases b <;> rfl

theorem isTrue_encode {n : Int} (h : n ≠ 0) : isTrue (ScriptNumber.encode n) = true := by
  simpa [isTrue] using h

/-- `branches` holds the open conditionals, the innermost first; true where the branch is taken. -/
structure Machine where
  stack : List Bytes
  alt : List Bytes
  branches : List Bool
  deriving DecidableEq, Repr

namespace Machine

def start (witness : List Bytes) : Machine := ⟨witness.reverse, [], []⟩

def executing (m : Machine) : Bool := m.branches.all id

def openBranch (onTrue : Bool) (m : Machine) : Option Machine :=
  if m.executing then
    match m.stack with
    | [] => none
    | x :: s =>
      if x = boolItem true then some ⟨s, m.alt, onTrue :: m.branches⟩
      else if x = boolItem false then some ⟨s, m.alt, (!onTrue) :: m.branches⟩
      else none
  else some { m with branches := false :: m.branches }

def turnBranch (m : Machine) : Option Machine :=
  match m.branches with
  | [] => none
  | b :: rest => some { m with branches := (!b) :: rest }

def closeBranch (m : Machine) : Option Machine :=
  match m.branches with
  | [] => none
  | _ :: rest => some { m with branches := rest }

def toAlt (m : Machine) : Option Machine :=
  match m.stack with
  | [] => none
  | x :: s => some ⟨s, x :: m.alt, m.branches⟩

def fromAlt (m : Machine) : Option Machine :=
  match m.alt with
  | [] => none
  | x :: a => some ⟨x :: m.stack, a, m.branches⟩

end Machine

/-! ## Opcodes that only touch the stack -/

namespace StackOp

def verify : List Bytes → Option (List Bytes)
  | x :: s => if isTrue x then some s else none
  | [] => none

def ifDup : List Bytes → Option (List Bytes)
  | x :: s => some (if isTrue x then x :: x :: s else x :: s)
  | [] => none

def dup : List Bytes → Option (List Bytes)
  | x :: s => some (x :: x :: s)
  | [] => none

def swap : List Bytes → Option (List Bytes)
  | x :: y :: s => some (y :: x :: s)
  | _ => none

def size : List Bytes → Option (List Bytes)
  | x :: s => some (ScriptNumber.encode x.length :: x :: s)
  | [] => none

def equal : List Bytes → Option (List Bytes)
  | x :: y :: s => some (boolItem (x == y) :: s)
  | _ => none

def hash : List Bytes → Option (List Bytes)
  | x :: s => some (sha256 x :: s)
  | [] => none

def notEqualZero : List Bytes → Option (List Bytes)
  | x :: s => some (boolItem (ScriptNumber.decode x != 0) :: s)
  | [] => none

def add : List Bytes → Option (List Bytes)
  | x :: y :: s =>
    some (ScriptNumber.encode (ScriptNumber.decode y + ScriptNumber.decode x) :: s)
  | _ => none

/-- A relation between two numbers. -/
def compare (r : Int → Int → Bool) : List Bytes → Option (List Bytes)
  | x :: y :: s => some (boolItem (r (ScriptNumber.decode y) (ScriptNumber.decode x)) :: s)
  | _ => none

def checkSig (c : ScriptContext) : List Bytes → Option (List Bytes)
  | key :: signature :: s => (c.checks key signature).map fun b => boolItem b :: s
  | _ => none

def checkSigAdd (c : ScriptContext) : List Bytes → Option (List Bytes)
  | key :: n :: signature :: s => (c.checks key signature).map fun b =>
    ScriptNumber.encode (ScriptNumber.decode n + if b then 1 else 0) :: s
  | _ => none

/-- A number that must have been reached; it stays. -/
def checkReached (reached : Int → Bool) : List Bytes → Option (List Bytes)
  | x :: s => if reached (ScriptNumber.decode x) then some (x :: s) else none
  | [] => none

end StackOp

namespace ScriptContext

open StackOp in
def onStack (c : ScriptContext) (code : Opcode) (s : List Bytes) : Option (List Bytes) :=
  if code = Opcode.zero then some ([] :: s)
  else if code = Opcode.negativeOne then some (ScriptNumber.encode (-1) :: s)
  else if 0x51 ≤ code ∧ code ≤ 0x60 then some (ScriptNumber.encode (code.toNat - 0x50) :: s)
  else if code = Opcode.verify then verify s
  else if code = Opcode.ifDup then ifDup s
  else if code = Opcode.dup then dup s
  else if code = Opcode.swap then swap s
  else if code = Opcode.size then size s
  else if code = Opcode.equal then equal s
  else if code = Opcode.equalVerify then (equal s).bind verify
  else if code = Opcode.notEqualZero then notEqualZero s
  else if code = Opcode.add then add s
  else if code = Opcode.boolAnd then compare (fun x y => x != 0 && y != 0) s
  else if code = Opcode.boolOr then compare (fun x y => x != 0 || y != 0) s
  else if code = Opcode.numEqual then compare (· == ·) s
  else if code = Opcode.numEqualVerify then (compare (· == ·) s).bind verify
  else if code = Opcode.sha256 then hash s
  else if code = Opcode.checkSig then checkSig c s
  else if code = Opcode.checkSigVerify then (checkSig c s).bind verify
  else if code = Opcode.checkSigAdd then checkSigAdd c s
  else if code = Opcode.checkLockTimeVerify then checkReached c.lockTimeReached s
  else if code = Opcode.checkSequenceVerify then checkReached c.sequenceReached s
  else none

def step (c : ScriptContext) : Element → Machine → Option Machine
  | .push d, m => some (if m.executing then { m with stack := d :: m.stack } else m)
  | .op code, m =>
    if code = Opcode.ifOp then m.openBranch true
    else if code = Opcode.notIf then m.openBranch false
    else if code = Opcode.elseOp then m.turnBranch
    else if code = Opcode.endIf then m.closeBranch
    else if m.executing = false then some m
    else if code = Opcode.toAltStack then m.toAlt
    else if code = Opcode.fromAltStack then m.fromAlt
    else (c.onStack code m.stack).map fun s => { m with stack := s }

def run (c : ScriptContext) (script : Script) (m : Machine) : Option Machine :=
  script.foldlM (fun m e => c.step e m) m

variable {c : ScriptContext} {X Y Z : Script} {s s' s'' : List Bytes}

theorem run_append (m : Machine) : c.run (X ++ Y) m = (c.run X m).bind (c.run Y) := by
  simp only [run, List.foldlM_append]
  rfl

theorem run_cons (e : Element) (m : Machine) :
    c.run (e :: X) m = (c.step e m).bind (c.run X) := rfl

theorem run_singleton (e : Element) (m : Machine) : c.run [e] m = c.step e m := by
  simp [run]

theorem step_ifOp (m : Machine) : c.step (.op .ifOp) m = m.openBranch true := rfl

theorem step_notIf (m : Machine) : c.step (.op .notIf) m = m.openBranch false := rfl

theorem step_elseOp (m : Machine) : c.step (.op .elseOp) m = m.turnBranch := rfl

theorem step_toAltStack {m : Machine} (hm : m.executing = true) :
    c.step (.op .toAltStack) m = m.toAlt := by
  change (if m.executing = false then some m else m.toAlt) = _
  simp [hm]

theorem step_fromAltStack {m : Machine} (hm : m.executing = true) :
    c.step (.op .fromAltStack) m = m.fromAlt := by
  change (if m.executing = false then some m else m.fromAlt) = _
  simp [hm]

/-! ## Branches that are not taken -/

/-- The script is passed over in a branch that is not taken. -/
def Skips (c : ScriptContext) (X : Script) : Prop :=
  ∀ m : Machine, m.executing = false → c.run X m = some m

/-- No conditional is opened, turned or closed. -/
def isPlain : Element → Bool
  | .push _ => true
  | .op code => code != Opcode.ifOp && code != Opcode.notIf && code != Opcode.elseOp &&
    code != Opcode.endIf

theorem step_of_not_executing {e : Element} (he : isPlain e = true) {m : Machine}
    (hm : m.executing = false) : c.step e m = some m := by
  cases e with
  | push d => simp [step, hm]
  | op code =>
    simp only [isPlain, Bool.and_eq_true, bne_iff_ne] at he
    obtain ⟨⟨⟨h₁, h₂⟩, h₃⟩, h₄⟩ := he
    simp [step, hm, h₁, h₂, h₃, h₄]

theorem Skips.nil : c.Skips [] := fun _ _ => rfl

theorem Skips.append (hX : c.Skips X) (hY : c.Skips Y) : c.Skips (X ++ Y) := by
  intro m hm
  rw [run_append, hX m hm, Option.bind_some, hY m hm]

theorem Skips.plain {e : Element} (he : isPlain e = true) : c.Skips [e] := by
  intro m hm
  rw [run_singleton, step_of_not_executing he hm]

theorem Skips.cons {e : Element} (he : isPlain e = true) (hX : c.Skips X) : c.Skips (e :: X) :=
  (Skips.plain he).append hX

/-- A branch inside a branch that is not taken is not taken either. -/
theorem Skips.inside (hX : c.Skips X) (b : Bool) {m : Machine} (hm : m.executing = false) :
    c.run X { m with branches := b :: m.branches } = some { m with branches := b :: m.branches } :=
  hX _ (by simp only [Machine.executing, List.all_cons] at hm ⊢; simp [hm])

/-- A conditional that is passed over opens a branch that is not taken. -/
theorem Skips.opened {code : Opcode} (hc : code = Opcode.ifOp ∨ code = Opcode.notIf) {m : Machine}
    (hm : m.executing = false) :
    c.step (.op code) m = some { m with branches := false :: m.branches } := by
  have hopen (onTrue : Bool) :
      m.openBranch onTrue = some { m with branches := false :: m.branches } := by
    simp [Machine.openBranch, hm]
  rcases hc with rfl | rfl
  · rw [step_ifOp, hopen]
  · rw [step_notIf, hopen]

theorem Skips.conditional {code : Opcode} (hc : code = Opcode.ifOp ∨ code = Opcode.notIf)
    (hX : c.Skips X) : c.Skips (Element.op code :: (X ++ [Element.op .endIf])) := by
  intro m hm
  rw [run_cons, Skips.opened hc hm, Option.bind_some, run_append, hX.inside false hm]
  rfl

theorem Skips.conditionalElse {code : Opcode} (hc : code = Opcode.ifOp ∨ code = Opcode.notIf)
    (hX : c.Skips X) (hY : c.Skips Y) :
    c.Skips (Element.op code :: (X ++ Element.op .elseOp :: (Y ++ [Element.op .endIf]))) := by
  intro m hm
  have ht : c.step (.op .elseOp) { m with branches := false :: m.branches } =
      some { m with branches := true :: m.branches } := rfl
  rw [run_cons, Skips.opened hc hm, Option.bind_some,
    run_append, hX.inside false hm, Option.bind_some, run_cons, ht,
    Option.bind_some, run_append, hY.inside true hm]
  rfl

/-! ## Branches that are taken -/

/-- Wherever it is executed, the script takes the one stack to the other and leaves all else. -/
def Runs (c : ScriptContext) (X : Script) (s s' : List Bytes) : Prop :=
  ∀ a b, b.all id = true → c.run X ⟨s, a, b⟩ = some ⟨s', a, b⟩

theorem Runs.nil : c.Runs [] s s := fun _ _ _ => rfl

theorem Runs.append (hX : c.Runs X s s') (hY : c.Runs Y s' s'') : c.Runs (X ++ Y) s s'' := by
  intro a b hb
  rw [run_append, hX a b hb, Option.bind_some, hY a b hb]

theorem Runs.push (d : Bytes) : c.Runs [.push d] s (d :: s) := by
  intro a b hb
  simp [run_singleton, step, Machine.executing, hb]

/-- The opcode is neither about conditionals nor about the second stack. -/
def isStackOp (code : Opcode) : Bool :=
  isPlain (.op code) && code != Opcode.toAltStack && code != Opcode.fromAltStack

theorem step_stackOp {code : Opcode} (hc : isStackOp code = true) {a : List Bytes} {b : List Bool}
    (hb : b.all id = true) :
    c.step (.op code) ⟨s, a, b⟩ = (c.onStack code s).map fun s => ⟨s, a, b⟩ := by
  simp only [isStackOp, isPlain, Bool.and_eq_true, bne_iff_ne] at hc
  obtain ⟨⟨⟨⟨⟨h₁, h₂⟩, h₃⟩, h₄⟩, h₅⟩, h₆⟩ := hc
  simp [step, Machine.executing, hb, h₁, h₂, h₃, h₄, h₅, h₆]

theorem Runs.op {code : Opcode} (hs : c.onStack code s = some s') (hc : isStackOp code = true := by rfl) :
    c.Runs [.op code] s s' := by
  intro a b hb
  rw [run_singleton, step_stackOp hc hb, hs]
  rfl

theorem onStack_small {n : Int} (hn : 1 ≤ n ∧ n ≤ 16) :
    isStackOp (.small n.toNat) = true ∧
      c.onStack (.small n.toNat) s = some (ScriptNumber.encode n :: s) := by
  have h : ∀ k < 17, 1 ≤ k → isStackOp (.small k) = true ∧ (Opcode.small k).toNat = 0x50 + k ∧
      0x51 ≤ Opcode.small k ∧ Opcode.small k ≤ 0x60 ∧ Opcode.small k ≠ Opcode.zero ∧
      Opcode.small k ≠ Opcode.negativeOne := by decide
  obtain ⟨h₁, h₂, h₃, h₄, h₅, h₆⟩ := h n.toNat (by omega) (by omega)
  have hv : ((Opcode.small n.toNat).toNat : Int) - 0x50 = n := by omega
  exact ⟨h₁, by simp only [onStack, h₅, h₆, h₃, h₄, and_self, ↓reduceIte, hv]⟩

/-- However a number is pushed, its bytes come on the stack. -/
theorem Runs.pushInt (n : Int) : c.Runs [.ofInt n] s (ScriptNumber.encode n :: s) := by
  unfold Element.ofInt
  split
  · subst n
    rw [ScriptNumber.encode_zero]
    exact Runs.op rfl
  · split
    · subst n
      exact Runs.op rfl
    · split
      · rename_i hn
        have h := onStack_small (c := c) (s := s) hn
        exact Runs.op h.2 h.1
      · exact Runs.push _

theorem Runs.aside (x : Bytes) (hX : c.Runs X s s') :
    c.Runs (Element.op .toAltStack :: (X ++ [Element.op .fromAltStack])) (x :: s) (x :: s') := by
  intro a b hb
  have h₁ : c.step (.op .toAltStack) ⟨x :: s, a, b⟩ = some ⟨s, x :: a, b⟩ := step_toAltStack hb
  have h₂ : c.step (.op .fromAltStack) ⟨s', x :: a, b⟩ = some ⟨x :: s', a, b⟩ :=
    step_fromAltStack hb
  rw [run_cons, h₁, Option.bind_some, run_append, hX _ _ hb, Option.bind_some,
    run_singleton, h₂]

/-- The code that opens a branch for a condition of the given truth. -/
def opener (b : Bool) : Opcode := if b then .ifOp else .notIf

theorem step_opener (t x : Bool) {a : List Bytes} {b : List Bool} (hb : b.all id = true) :
    c.step (.op (opener t)) ⟨boolItem x :: s, a, b⟩ = some ⟨s, a, (x == t) :: b⟩ := by
  have ht : c.step (.op (opener t)) ⟨boolItem x :: s, a, b⟩ =
      Machine.openBranch t ⟨boolItem x :: s, a, b⟩ := by
    cases t
    · exact step_notIf _
    · exact step_ifOp _
  rw [ht]
  cases x <;> simp [Machine.openBranch, Machine.executing, hb, boolItem]

theorem Runs.taken (t : Bool) (hX : c.Runs X s s') :
    c.Runs (Element.op (opener t) :: (X ++ [Element.op .endIf])) (boolItem t :: s) s' := by
  intro a b hb
  rw [run_cons, step_opener t t hb, Option.bind_some, run_append,
    hX _ _ (by simp [hb])]
  rfl

theorem Runs.passed (t : Bool) (hX : c.Skips X) :
    c.Runs (Element.op (opener t) :: (X ++ [Element.op .endIf])) (boolItem (!t) :: s) s := by
  intro a b hb
  rw [run_cons, step_opener t (!t) hb, Option.bind_some, run_append,
    hX _ (by cases t <;> simp [Machine.executing])]
  rfl

theorem Runs.takenElse (t : Bool) (hX : c.Runs X s s') (hY : c.Skips Y) :
    c.Runs (Element.op (opener t) :: (X ++ Element.op .elseOp :: (Y ++ [Element.op .endIf])))
      (boolItem t :: s) s' := by
  intro a b hb
  have hs : c.step (.op .elseOp) ⟨s', a, (t == t) :: b⟩ = some ⟨s', a, false :: b⟩ := by
    rw [step_elseOp]
    simp [Machine.turnBranch]
  rw [run_cons, step_opener t t hb,
    Option.bind_some, run_append, hX _ _ (by simp [hb]), Option.bind_some, run_cons, hs,
    Option.bind_some, run_append, hY _ (by simp [Machine.executing])]
  rfl

theorem Runs.passedElse (t : Bool) (hX : c.Skips X) (hY : c.Runs Y s s') :
    c.Runs (Element.op (opener t) :: (X ++ Element.op .elseOp :: (Y ++ [Element.op .endIf])))
      (boolItem (!t) :: s) s' := by
  intro a b hb
  have hs : c.step (.op .elseOp) ⟨s, a, ((!t) == t) :: b⟩ = some ⟨s, a, true :: b⟩ := by
    rw [step_elseOp]
    simp [Machine.turnBranch]
  rw [run_cons, step_opener t (!t) hb,
    Option.bind_some, run_append, hX _ (by simp [Machine.executing]), Option.bind_some, run_cons, hs,
    Option.bind_some, run_append, hY _ _ (by simp [hb])]
  rfl

end ScriptContext
end Taproot
