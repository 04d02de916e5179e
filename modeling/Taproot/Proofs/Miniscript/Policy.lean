import Taproot.Miniscript.Typed
import Taproot.Proofs.Miniscript.WitnessShape

/-! # Policies

The plain reading of a fragment as a formula over what it asks for, and that a well-typed fragment is
satisfied exactly where the formula is true: what a satisfied part leaves out can be left out.
-/
namespace Taproot.Miniscript

/-- What is granted. -/
def Material.grants (m : Material) : Request → Bool
  | .sign key => (m.sign key).isSome
  | .preimage image => (m.preimage image).isSome
  | .older n => m.older n
  | .after n => m.after n

namespace Fragment

mutual

/-- The formula of a fragment; wrappers do not count. -/
def holds (granted : Request → Bool) : Fragment → Bool
  | just value => value
  | key k => granted (.sign k)
  | image h => granted (.preimage h)
  | after n => granted (.after n)
  | older n => granted (.older n)
  | multi k keys => decide (k ≤ keys.countP fun key => granted (.sign key))
  | andV x y | andB x y => holds granted x && holds granted y
  | orB x z | orC x z | orD x z | orI x z => holds granted x || holds granted z
  | andOr x y z => holds granted x && holds granted y || holds granted z
  | thresh k xs => decide (k ≤ countHolding granted xs)
  | wrap _ x => holds granted x

def countHolding (granted : Request → Bool) : List Fragment → Nat
  | [] => 0
  | x :: xs => countHolding granted xs + if holds granted x then 1 else 0

end

theorem countHolding_eq (granted : Request → Bool) (xs : List Fragment) :
    countHolding granted xs = xs.countP (holds granted) := by
  induction xs with
  | nil => rfl
  | cons x xs ih => rw [countHolding, List.countP_cons, ih]

end Fragment

variable {m : Material}

/-! ## Signatures of several keys -/

theorem missing_signEach (missing : Nat) (keys : List Bytes) :
    (signEach m missing keys).2.1 = missing - keys.countP fun key => (m.sign key).isSome := by
  fun_induction signEach m missing keys with
  | case1 => rfl
  | case2 key keys items left asked he ih =>
    rw [he] at ih
    rw [Nat.zero_sub] at ih ⊢
    exact ih
  | case3 n key keys signature hs items left asked he ih =>
    rw [he] at ih
    rw [List.countP_cons_of_pos (by simp [hs]), ih]
    omega
  | case4 n key keys hs items left asked he ih =>
    rw [he] at ih
    rw [List.countP_cons_of_neg (by simp [hs]), ih]

theorem isSome_satisfyMulti (k : Int) (keys : List Bytes) :
    (satisfyMulti m k keys).witness.isSome =
      decide (k ≤ keys.countP fun key => (m.sign key).isSome) := by
  have hl := missing_signEach (m := m) k.toNat keys
  rw [Bool.eq_iff_iff, decide_eq_true_iff]
  unfold satisfyMulti
  split
  · rename_i items asked he
    rw [he] at hl
    change 0 = _ at hl
    simp only [Option.isSome_some, true_iff]
    omega
  · rename_i items left asked hn he
    have hz : left ≠ 0 := hn
    rw [he] at hl
    change left = _ at hl
    simp only [Option.isSome_none, Bool.false_eq_true, false_iff]
    omega

/-! ## Branches of a threshold -/

namespace Threshold

/-- The branch can be satisfied. -/
def canSatisfy (b : Branch) : Bool := b.satisfied.witness.isSome

theorem count_le_of_assemble {bs : List Branch} {cs : List Bool} {w : Witness}
    (h : assemble bs cs = some w) (hl : cs.length = bs.length) :
    cs.count true ≤ bs.countP canSatisfy := by
  induction bs generalizing cs w with
  | nil =>
    obtain rfl := List.length_eq_zero_iff.mp hl
    exact Nat.le_refl _
  | cons b bs ih =>
    cases cs with
    | nil => simp at hl
    | cons c cs =>
      obtain ⟨below, above, hb, ha, -⟩ := under_eq_some.mp h
      have hr := ih hb (by simpa using hl)
      cases c with
      | false =>
        rw [List.count_cons_of_ne (by simp)]
        rw [List.countP_cons]
        omega
      | true =>
        have hc : canSatisfy b = true := by
          simp only [↓reduceIte] at ha
          rw [canSatisfy, ha]
          rfl
        rw [List.count_cons_self, List.countP_cons_of_pos hc]
        exact Nat.succ_le_succ hr

theorem exists_assemble {bs : List Branch} (hd : ∀ b ∈ bs, b.dissatisfied.isSome = true) {k : Nat}
    (hk : k ≤ bs.countP canSatisfy) :
    ∃ cs : List Bool, cs.length = bs.length ∧ cs.count true = k ∧ (assemble bs cs).isSome = true := by
  induction bs generalizing k with
  | nil => exact ⟨[], rfl, by simp at hk; simp [hk], rfl⟩
  | cons b bs ih =>
    have ih {k : Nat} := @ih (fun b' hb' => hd b' (List.mem_cons_of_mem b hb')) k
    have hb := hd b List.mem_cons_self
    by_cases hr : k ≤ bs.countP canSatisfy
    · obtain ⟨cs, hl, hc, ha⟩ := ih hr
      refine ⟨false :: cs, by simp [hl], by simp [hc], ?_⟩
      rw [assemble, isSome_under, ha]
      simpa using hb
    · -- Too few of the others can be satisfied, so that this one is chosen.
      have hs : canSatisfy b = true := by
        by_contra hs
        rw [List.countP_cons_of_neg hs] at hk
        exact hr hk
      rw [List.countP_cons_of_pos hs] at hk
      obtain ⟨cs, hl, hc, ha⟩ := ih (k := k - 1) (by omega)
      refine ⟨true :: cs, by simp [hl], by rw [List.count_cons_self]; omega, ?_⟩
      rw [assemble, isSome_under, ha]
      simpa [canSatisfy] using hs

end Threshold

theorem isSome_satisfyThreshold {k : Int} {bs : List Branch}
    (hd : ∀ b ∈ bs, b.dissatisfied.isSome = true) :
    (satisfyThreshold k bs).witness.isSome = decide (k ≤ bs.countP Threshold.canSatisfy) := by
  rw [Bool.eq_iff_iff, decide_eq_true_iff]
  constructor
  · intro h
    obtain ⟨w, hw⟩ := Option.isSome_iff_exists.mp h
    obtain ⟨cs, hl, hc, ha⟩ := exists_of_satisfyThreshold hw
    have := Threshold.count_le_of_assemble ha hl
    omega
  · intro hk
    obtain ⟨cs, hl, hc, ha⟩ := Threshold.exists_assemble hd (k := k.toNat) (by omega)
    by_contra hn
    have hn := assemble_of_satisfyThreshold_none (by simpa using hn) hl hc
    rw [hn] at ha
    cases ha

/-! ## All fragments -/

namespace Fragment

theorem mem_branches {xs : List Fragment} {b : Branch} (hb : b ∈ branches m xs) :
    ∃ x ∈ xs, b = ⟨x.satisfy m, x.dissatisfy⟩ := by
  induction xs with
  | nil => cases hb
  | cons x xs ih =>
    rcases List.mem_cons.mp hb with rfl | hb
    · exact ⟨x, List.mem_cons_self, rfl⟩
    · obtain ⟨y, hy, rfl⟩ := ih hb
      exact ⟨y, List.mem_cons_of_mem x hy, rfl⟩

theorem countP_branches {xs : List Fragment}
    (h : ∀ x ∈ xs, (x.satisfy m).witness.isSome = x.holds m.grants) :
    (branches m xs).countP Threshold.canSatisfy = xs.countP (holds m.grants) := by
  induction xs with
  | nil => rfl
  | cons x xs ih =>
    rw [branches, List.countP_cons, List.countP_cons,
      ih fun y hy => h y (List.mem_cons_of_mem x hy), ← h x List.mem_cons_self]
    rfl

theorem HasType.isSome_satisfy {f : Fragment} {t : ExprType} (ht : HasType f t) :
    (f.satisfy m).witness.isSome = f.holds m.grants := by
  induction ht with
  | just value => cases value <;> rfl
  | key | image => simp [satisfy, holds, Material.grants]
  | after n =>
    rw [satisfy, holds, Material.grants]
    cases m.after n <;> rfl
  | older n =>
    rw [satisfy, holds, Material.grants]
    cases m.older n <;> rfl
  | multi => exact isSome_satisfyMulti _ _
  | andV _ _ _ ihx ihy | andB _ _ _ ihx ihy =>
    rw [satisfy, holds, Outcome.witness_both, isSome_under, ihx, ihy, Bool.and_comm]
  | orB hx hz h ihx ihz =>
    obtain ⟨⟨-, hdx⟩, ⟨-, hdz⟩, -⟩ := ExprType.orB_eq_ok h
    rw [satisfy, holds, Outcome.witness_orElse, Option.isSome_or, Outcome.above, Outcome.below,
      isSome_under, isSome_under, hx.isSome_dissatisfy, hz.isSome_dissatisfy, ihx, ihz, hdx, hdz,
      Bool.true_and, Bool.and_true]
  | orC hx hz h ihx ihz =>
    obtain ⟨⟨-, hd, -⟩, -, -⟩ := ExprType.orC_eq_ok h
    rw [satisfy, holds, Outcome.witness_orElse, Option.isSome_or, Outcome.below, isSome_under,
      hx.isSome_dissatisfy, ihx, ihz, hd, Bool.and_true]
  | orD hx hz h ihx ihz =>
    obtain ⟨⟨-, hd, -⟩, -, -⟩ := ExprType.orD_eq_ok h
    rw [satisfy, holds, Outcome.witness_orElse, Option.isSome_or, Outcome.below, isSome_under,
      hx.isSome_dissatisfy, ihx, ihz, hd, Bool.and_true]
  | orI _ _ _ ihx ihz =>
    rw [satisfy, holds, Outcome.witness_orElse, Option.isSome_or, Outcome.below, Outcome.below,
      isSome_under, isSome_under, ihx, ihz]
    simp
  | andOr hx hy hz h ihx ihy ihz =>
    obtain ⟨⟨-, hd, -⟩, -, -⟩ := ExprType.andOr_eq_ok h
    rw [satisfy, holds, Outcome.witness_orElse, Option.isSome_or, Outcome.witness_andThen,
      Outcome.below, isSome_under, isSome_under, hx.isSome_dissatisfy, ihx, ihy, ihz, hd,
      Bool.and_true, Bool.and_comm (holds _ _)]
  | @thresh k bs t hb h ih =>
    have hd : ∀ b ∈ Fragment.branches m (bs.map Prod.fst), b.dissatisfied.isSome = true := by
      intro b hm
      obtain ⟨x, hx, rfl⟩ := mem_branches hm
      obtain ⟨p, hp, rfl⟩ := List.mem_map.mp hx
      exact (hb p hp).isSome_dissatisfy.trans (branches_d h p.2 (List.mem_map_of_mem hp))
    have hs : ∀ x ∈ bs.map Prod.fst, (x.satisfy m).witness.isSome = x.holds m.grants := by
      intro x hx
      obtain ⟨p, hp, rfl⟩ := List.mem_map.mp hx
      exact ih p hp
    rw [satisfy, holds, isSome_satisfyThreshold hd, countP_branches hs, countHolding_eq]
  | @wrap letter x _ _ _ _ ih =>
    rw [holds, ← ih, satisfy]
    cases letter with
    | d => simp [satisfyWrapped, Outcome.below, isSome_under]
    | a | s | c | v | j | n => rfl

end Fragment

/-- A well-typed fragment is satisfied exactly where its formula is true. -/
theorem Typed.isSome_satisfy (x : Typed) :
    (x.fragment.satisfy m).witness.isSome = x.fragment.holds m.grants :=
  (Fragment.HasType.of_type? x.typed).isSome_satisfy

end Taproot.Miniscript
