import Taproot.Proofs.Miniscript.Predicates
import Taproot.Proofs.Miniscript.ScriptRuns
import Taproot.Proofs.Miniscript.WitnessShape

/-! # What base types promise

A script that runs on a witness of its fragment leaves what the base type of the fragment says, for
what satisfies and what dissatisfies alike and whatever stack lies below. Here the promise is kept
from the parts of a script to the whole.
-/
namespace Taproot.Miniscript

open ScriptContext
open Element (op)

variable {c : ScriptContext} {X Y Z : Script} {b b₁ b₂ u u' : Bool} {w wx wy wz : Witness}
variable {base : BaseType}

/-- The item that a fragment leaves: true where it is satisfied, and exactly one with `u`; empty
where it is dissatisfied. -/
def Verdict (u b : Bool) (item : Bytes) : Prop :=
  if b then isTrue item = true ∧ (u = true → item = boolItem true) else item = boolItem false

namespace Verdict

variable {item : Bytes}

theorem isTrue_eq (h : Verdict u b item) : isTrue item = b := by
  cases b
  · rw [show item = boolItem false from h, isTrue_boolItem]
  · exact h.1

theorem eq_boolItem (h : Verdict true b item) : item = boolItem b := by
  cases b
  · exact h
  · exact h.2 rfl

theorem of_boolItem (u b : Bool) : Verdict u b (boolItem b) := by
  cases b
  · rfl
  · exact ⟨isTrue_boolItem true, fun _ => rfl⟩

theorem mono (h : Verdict u b item) (hu : u' = true → u = true) : Verdict u' b item := by
  cases b
  · exact h
  · exact ⟨h.1, fun h' => h.2 (hu h')⟩

end Verdict

/-- The promise of a base type. A `W` script works below the item on top, and leaves its own item on
either side of it. -/
def Behaves (c : ScriptContext) (base : BaseType) (u : Bool) (X : Script) (b : Bool) (w : Witness) :
    Prop :=
  match base with
  | .B => ∃ item, Verdict u b item ∧ ∀ s, c.Runs X (w.reverse ++ s) (item :: s)
  | .V => b = true ∧ ∀ s, c.Runs X (w.reverse ++ s) s
  | .K => ∃ key item, c.checks key item = some b ∧ ∀ s, c.Runs X (w.reverse ++ s) (key :: item :: s)
  | .W => ∃ item, Verdict u b item ∧
    ((∀ x s, c.Runs X (x :: (w.reverse ++ s)) (x :: item :: s)) ∨
      ∀ x s, c.Runs X (x :: (w.reverse ++ s)) (item :: x :: s))

namespace Behaves

/-- A script that does what another one does, on a witness of its own. -/
theorem transfer (hb : base ≠ .W) (h : Behaves c base u X b wx)
    (hr : ∀ s s', c.Runs X (wx.reverse ++ s) s' → c.Runs Y (wy.reverse ++ s) s') :
    Behaves c base u Y b wy := by
  cases base with
  | B =>
    obtain ⟨item, hv, hx⟩ := h
    exact ⟨item, hv, fun s => hr s _ (hx s)⟩
  | V => exact ⟨h.1, fun s => hr s _ (h.2 s)⟩
  | K =>
    obtain ⟨key, item, hk, hx⟩ := h
    exact ⟨key, item, hk, fun s => hr s _ (hx s)⟩
  | W => exact absurd rfl hb

theorem mono (h : Behaves c base u X b w) (hu : u' = true → u = true) :
    Behaves c base u' X b w := by
  cases base with
  | B =>
    obtain ⟨item, hv, hx⟩ := h
    exact ⟨item, hv.mono hu, hx⟩
  | V => exact h
  | K => exact h
  | W =>
    obtain ⟨item, hv, hx⟩ := h
    exact ⟨item, hv.mono hu, hx⟩

theorem run_one (h : Behaves c .B true X b w) (s : List Bytes) :
    c.Runs X (w.reverse ++ s) (boolItem b :: s) := by
  obtain ⟨item, hv, hx⟩ := h
  rw [← hv.eq_boolItem]
  exact hx s

theorem of_run_one (h : ∀ s, c.Runs X (w.reverse ++ s) (boolItem b :: s)) :
    Behaves c .B u X b w := ⟨boolItem b, Verdict.of_boolItem u b, h⟩

/-! ## Two results that are combined -/

/-- An opcode that combines two truth values, in whatever order they lie, combines the results of a
`B` and a `W` script. -/
theorem combine {r : Bool → Bool → Bool} (hr : ∀ x y, r x y = r y x) {code : Opcode}
    (hp : isStackOp code = true)
    (hc : ∀ x y s, c.onStack code (x :: y :: s) = some (boolItem (r (isTrue y) (isTrue x)) :: s))
    (hx : Behaves c .B u X b₁ wx) (hy : Behaves c .W u' Y b₂ wy) :
    Behaves c .B true (X ++ Y ++ [op code]) (r b₁ b₂) (wy ++ wx) := by
  obtain ⟨v₁, hv₁, hx⟩ := hx
  obtain ⟨v₂, hv₂, hy⟩ := hy
  refine of_run_one fun s => ?_
  rw [List.reverse_append, List.append_assoc wx.reverse]
  rcases hy with hy | hy
  · have h := hc v₁ v₂ s
    rw [hv₁.isTrue_eq, hv₂.isTrue_eq, hr] at h
    exact ((hx _).append (hy v₁ s)).append (Runs.op h hp)
  · have h := hc v₂ v₁ s
    rw [hv₁.isTrue_eq, hv₂.isTrue_eq] at h
    exact ((hx _).append (hy v₁ s)).append (Runs.op h hp)

theorem andV (hb : base ≠ .W) (hx : Behaves c .V u' X true wx) (hy : Behaves c base u Y b wy) :
    Behaves c base u (X ++ Y) b (wy ++ wx) := by
  refine hy.transfer hb fun s s' h => ?_
  rw [List.reverse_append, List.append_assoc]
  exact (hx.2 _).append h

theorem andB (hx : Behaves c .B u X b wx) (hy : Behaves c .W u' Y b wy) :
    Behaves c .B true (X ++ Y ++ [op .boolAnd]) b (wy ++ wx) := by
  have h : Behaves c .B true (X ++ Y ++ [op .boolAnd]) (b && b) (wy ++ wx) :=
    combine Bool.and_comm rfl (fun _ _ _ => rfl) hx hy
  rwa [Bool.and_self] at h

theorem orB (hx : Behaves c .B u X b₁ wx) (hz : Behaves c .W u' Z b₂ wz) :
    Behaves c .B true (X ++ Z ++ [op .boolOr]) (b₁ || b₂) (wz ++ wx) :=
  combine Bool.or_comm rfl (fun _ _ _ => rfl) hx hz

/-! ## Conditionals -/

theorem orCFirst (hx : Behaves c .B true X true wx) (hz : c.Skips Z) :
    Behaves c .V u (X ++ op .notIf :: (Z ++ [op .endIf])) true wx :=
  ⟨rfl, fun s => (hx.run_one s).append (Runs.passed false hz)⟩

theorem orCSecond (hx : Behaves c .B true X false wx) (hz : Behaves c .V u' Z true wz) :
    Behaves c .V u (X ++ op .notIf :: (Z ++ [op .endIf])) true (wz ++ wx) := by
  refine ⟨rfl, fun s => ?_⟩
  rw [List.reverse_append, List.append_assoc]
  exact (hx.run_one _).append (Runs.taken false (hz.2 s))

theorem orDFirst (hx : Behaves c .B true X true wx) (hz : c.Skips Z) :
    Behaves c .B u (X ++ op .ifDup :: op .notIf :: (Z ++ [op .endIf])) true wx := by
  refine of_run_one fun s => ?_
  have hd : c.Runs [op .ifDup] (boolItem true :: s) (boolItem true :: boolItem true :: s) :=
    Runs.op rfl
  exact (hx.run_one s).append (hd.append (Runs.passed false hz))

theorem orDSecond (hx : Behaves c .B true X false wx) (hz : Behaves c .B u Z b wz) :
    Behaves c .B u (X ++ op .ifDup :: op .notIf :: (Z ++ [op .endIf])) b (wz ++ wx) := by
  refine hz.transfer (by simp) fun s s' h => ?_
  have hd : c.Runs [op .ifDup] (boolItem false :: (wz.reverse ++ s))
      (boolItem false :: (wz.reverse ++ s)) := Runs.op rfl
  rw [List.reverse_append, List.append_assoc]
  exact (hx.run_one _).append (hd.append (Runs.taken false h))

theorem orIFirst (hb : base ≠ .W) (hx : Behaves c base u X b wx) (hz : c.Skips Z) :
    Behaves c base u (op .ifOp :: (X ++ op .elseOp :: (Z ++ [op .endIf]))) b
      (wx ++ [trueItem]) := by
  refine hx.transfer hb fun s s' h => ?_
  rw [List.reverse_append]
  exact Runs.takenElse true h hz

theorem orISecond (hb : base ≠ .W) (hx : c.Skips X) (hz : Behaves c base u Z b wz) :
    Behaves c base u (op .ifOp :: (X ++ op .elseOp :: (Z ++ [op .endIf]))) b
      (wz ++ [falseItem]) := by
  refine hz.transfer hb fun s s' h => ?_
  rw [List.reverse_append]
  exact Runs.passedElse true hx h

theorem andOrThen (hb : base ≠ .W) (hx : Behaves c .B true X true wx)
    (hy : Behaves c base u Y b wy) (hz : c.Skips Z) :
    Behaves c base u (X ++ op .notIf :: (Z ++ op .elseOp :: (Y ++ [op .endIf]))) b
      (wy ++ wx) := by
  refine hy.transfer hb fun s s' h => ?_
  rw [List.reverse_append, List.append_assoc]
  exact (hx.run_one _).append (Runs.passedElse false hz h)

theorem andOrElse (hb : base ≠ .W) (hx : Behaves c .B true X false wx) (hy : c.Skips Y)
    (hz : Behaves c base u Z b wz) :
    Behaves c base u (X ++ op .notIf :: (Z ++ op .elseOp :: (Y ++ [op .endIf]))) b
      (wz ++ wx) := by
  refine hz.transfer hb fun s s' h => ?_
  rw [List.reverse_append, List.append_assoc]
  exact (hx.run_one _).append (Runs.takenElse false h hy)

/-! ## Wrappers -/

theorem wrapA (hx : Behaves c .B u X b w) : Behaves c .W u (wrapScript .a X) b w := by
  obtain ⟨item, hv, hx⟩ := hx
  exact ⟨item, hv, Or.inl fun x s => Runs.aside x (hx s)⟩

/-- The item that a swapped script takes is the one below. -/
theorem wrapS (hw : w.length = 1) (hx : Behaves c .B u X b w) :
    Behaves c .W u (wrapScript .s X) b w := by
  obtain ⟨item, hv, hx⟩ := hx
  obtain ⟨i, rfl⟩ := List.length_eq_one_iff.mp hw
  refine ⟨item, hv, Or.inr fun x s => ?_⟩
  have hs : c.Runs [op .swap] (x :: i :: s) (i :: x :: s) := Runs.op rfl
  exact hs.append (hx (x :: s))

theorem wrapC (hx : Behaves c .K u X b w) : Behaves c .B true (wrapScript .c X) b w := by
  obtain ⟨key, item, hk, hx⟩ := hx
  refine of_run_one fun s => (hx s).append (Runs.op ?_)
  change (c.checks key item).map (fun b => boolItem b :: s) = _
  rw [hk]
  rfl

/-- The script in the branch takes nothing, so that the condition stays below. -/
theorem wrapD (hw : w = []) (hx : Behaves c .V u X true w) :
    Behaves c .B true (wrapScript .d X) true (w ++ [trueItem]) := by
  subst hw
  refine of_run_one fun s => ?_
  have hd : c.Runs [op .dup] (trueItem :: s) (boolItem true :: trueItem :: s) := Runs.op rfl
  exact hd.append (Runs.taken true (hx.2 (trueItem :: s)))

theorem wrapD_not (hx : c.Skips X) : Behaves c .B u (wrapScript .d X) false [falseItem] := by
  refine of_run_one fun s => ?_
  have hd : c.Runs [op .dup] (falseItem :: s) (boolItem false :: falseItem :: s) := Runs.op rfl
  exact hd.append (Runs.passed true hx)

theorem wrapV (hx : Behaves c .B u X true w) : Behaves c .V u' (wrapScript .v X) true w := by
  obtain ⟨item, hv, hx⟩ := hx
  exact ⟨rfl, fun s => runs_verified hv.isTrue_eq (hx s)⟩

/-- The size of the item on top opens the branch if it is not zero. -/
theorem runs_sizeCondition (top : Bytes) (s : List Bytes) :
    c.Runs [op .size, op .notEqualZero] (top :: s) (boolItem (top.length != 0) :: top :: s) := by
  have h₁ : c.Runs [op .size] (top :: s) (ScriptNumber.encode top.length :: top :: s) := Runs.op rfl
  refine h₁.append (Runs.op ?_)
  change some (boolItem (ScriptNumber.decode (ScriptNumber.encode top.length) != 0) :: top :: s) = _
  rw [ScriptNumber.decode_encode]
  congr 3
  rw [Bool.eq_iff_iff]
  simp

theorem wrapJ (hw : HasTop w) (hx : Behaves c .B u X true w) :
    Behaves c .B u (wrapScript .j X) true w := by
  refine hx.transfer (by simp) fun s s' h => ?_
  obtain ⟨below, top, rfl, ht⟩ := hw
  have hs := runs_sizeCondition (c := c) top (below.reverse ++ s)
  rw [show (top.length != 0) = true by simpa using ht] at hs
  rw [List.reverse_append] at h ⊢
  exact hs.append (Runs.taken true h)

theorem wrapJ_not (hx : c.Skips X) : Behaves c .B u (wrapScript .j X) false [falseItem] :=
  of_run_one fun s => (runs_sizeCondition falseItem s).append (Runs.passed true hx)

theorem wrapN (hx : Behaves c .B u X b w) : Behaves c .B true (wrapScript .n X) b w := by
  obtain ⟨item, hv, hx⟩ := hx
  refine of_run_one fun s => (hx s).append (Runs.op ?_)
  change some (boolItem (isTrue item) :: s) = _
  rw [hv.isTrue_eq]

end Behaves
end Taproot.Miniscript
