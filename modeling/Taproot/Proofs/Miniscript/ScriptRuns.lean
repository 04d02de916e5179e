import Taproot.Miniscript.Fragment
import Taproot.Proofs.Miniscript.Typing
import Taproot.Proofs.Script.Execution

/-! # Scripts of fragments at work

A fragment's script leaves a branch that is not taken as it is, so that conditionals around it keep
their ends. A last opcode in its verifying form does what `OP_VERIFY` behind the plain one does.
-/
namespace Taproot.Miniscript

open ScriptContext

variable {c : ScriptContext}

theorem step_verifyForm {code v : Opcode} (h : code.verifyForm? = some v) (machine : Machine) :
    c.step (.op v) machine = (c.step (.op code) machine).bind (c.step (.op .verify)) := by
  obtain ⟨s, a, b⟩ := machine
  have hy : isStackOp .verify = true := rfl
  have key (hc : isStackOp code = true) (hv : isStackOp v = true)
      (ho : c.onStack v s = (c.onStack code s).bind StackOp.verify) :
      c.step (.op v) ⟨s, a, b⟩ = (c.step (.op code) ⟨s, a, b⟩).bind (c.step (.op .verify)) := by
    by_cases hb : b.all id = true
    · rw [step_stackOp hv hb, step_stackOp hc hb, ho]
      cases c.onStack code s with
      | none => rfl
      | some s' => exact (step_stackOp hy hb).symm
    · have hm : Machine.executing ⟨s, a, b⟩ = false := by simpa [Machine.executing] using hb
      have plain {code : Opcode} (h : isStackOp code = true) : isPlain (.op code) = true := by
        simp only [isStackOp, Bool.and_eq_true] at h
        exact h.1.1
      rw [step_of_not_executing (plain hv) hm, step_of_not_executing (plain hc) hm,
        Option.bind_some, step_of_not_executing rfl hm]
  unfold Opcode.verifyForm? at h
  split at h
  · subst code; cases h; exact key rfl rfl rfl
  · split at h
    · subst code; cases h; exact key rfl rfl rfl
    · split at h
      · subst code; cases h; exact key rfl rfl rfl
      · cases h

/-- A last opcode that verifies by itself does what `OP_VERIFY` behind it does. -/
theorem run_verified (X : Script) (machine : Machine) :
    c.run (verified X) machine = c.run (X ++ [.op .verify]) machine := by
  unfold verified
  split
  · rename_i code hl
    split
    · rename_i v hv
      have hX := List.dropLast_append_getLast? _ hl
      conv => rhs; rw [← hX]
      rw [run_append, run_append, run_append, Option.bind_assoc]
      congr 1
      funext machine'
      rw [run_singleton, run_singleton, step_verifyForm hv]
      congr 1
      funext machine''
      rw [run_singleton]
    · rfl
  · rfl

theorem runs_verified {X : Script} {s s' : List Bytes} {v : Bytes} (hv : isTrue v = true)
    (h : c.Runs X s (v :: s')) : c.Runs (verified X) s s' := by
  intro a b hb
  rw [run_verified]
  have hs : c.onStack .verify (v :: s') = some s' := by
    change (if isTrue v then some s' else none) = some s'
    simp [hv]
  exact (h.append (Runs.op hs)) a b hb

theorem skips_verified {X : Script} (h : c.Skips X) : c.Skips (verified X) := by
  intro machine hm
  rw [run_verified]
  exact (h.append (Skips.plain rfl)) machine hm

theorem isPlain_ofInt (n : Int) : isPlain (.ofInt n) = true := by
  unfold Element.ofInt
  split
  · rfl
  · split
    · rfl
    · split
      · rename_i hn
        have h := (onStack_small (c := ⟨0, 0, 0, fun _ _ => false⟩) (s := []) hn).1
        simp only [isStackOp, Bool.and_eq_true] at h
        exact h.1.1
      · rfl

theorem skips_wrapScript {X : Script} (w : Wrapper) (h : c.Skips X) : c.Skips (wrapScript w X) := by
  cases w with
  | a => exact ((Skips.plain rfl).append h).append (Skips.plain rfl)
  | s => exact (Skips.plain rfl).append h
  | c | n => exact h.append (Skips.plain rfl)
  | d => exact (Skips.plain rfl).append (Skips.conditional (Or.inl rfl) h)
  | v => exact skips_verified h
  | j =>
    exact .cons rfl (.cons rfl (Skips.conditional (Or.inl rfl) h))

theorem skips_multiScript (k : Int) (keys : List Bytes) : c.Skips (multiScript k keys) := by
  have hk : c.Skips [.ofInt k, .op .numEqual] := .cons (isPlain_ofInt k) (.cons rfl .nil)
  have ha (keys : List Bytes) :
      c.Skips (keys.flatMap fun key => [.push key, .op .checkSigAdd]) := by
    induction keys with
    | nil => exact .nil
    | cons key keys ih => exact .cons rfl (.cons rfl ih)
  cases keys with
  | nil => exact hk
  | cons key keys => exact (Skips.append (.cons rfl (.cons rfl .nil)) (ha keys)).append hk

theorem skips_summands {xs : List Fragment} (h : ∀ x ∈ xs, c.Skips x.script) :
    c.Skips (Fragment.summands xs) := by
  induction xs with
  | nil => exact Skips.nil
  | cons x xs ih =>
    exact ((h x List.mem_cons_self).append (Skips.plain rfl)).append
      (ih fun y hy => h y (List.mem_cons_of_mem x hy))

theorem skips_script (f : Fragment) : c.Skips f.script := by
  induction f with
  | just value => cases value <;> exact .plain rfl
  | key => exact .plain rfl
  | image h =>
    exact .cons rfl (.cons (isPlain_ofInt 32) (.cons rfl (.cons rfl (.cons rfl (.plain rfl)))))
  | after n | older n => exact .cons (isPlain_ofInt n) (.plain rfl)
  | multi k keys => exact skips_multiScript k keys
  | andV x y ihx ihy => exact ihx.append ihy
  | andB x y ihx ihy | orB x y ihx ihy => exact (ihx.append ihy).append (Skips.plain rfl)
  | orC x z ihx ihz =>
    simp only [Fragment.script, List.append_assoc, List.singleton_append]
    exact ihx.append (Skips.conditional (Or.inr rfl) ihz)
  | orD x z ihx ihz =>
    simp only [Fragment.script, List.append_assoc, List.cons_append, List.nil_append]
    exact ihx.append (.cons rfl (Skips.conditional (Or.inr rfl) ihz))
  | orI x z ihx ihz =>
    simp only [Fragment.script, List.append_assoc, List.singleton_append]
    exact Skips.conditionalElse (Or.inl rfl) ihx ihz
  | andOr x y z ihx ihy ihz =>
    simp only [Fragment.script, List.append_assoc, List.singleton_append]
    exact ihx.append (Skips.conditionalElse (Or.inr rfl) ihz ihy)
  | thresh k xs ih =>
    have hk : c.Skips [.ofInt k, .op .equal] := .cons (isPlain_ofInt k) (.plain rfl)
    cases xs with
    | nil => exact hk
    | cons x xs =>
      exact ((ih x List.mem_cons_self).append
        (skips_summands fun y hy => ih y (List.mem_cons_of_mem x hy))).append
        hk
  | wrap w x ih => exact skips_wrapScript w ih

end Taproot.Miniscript
