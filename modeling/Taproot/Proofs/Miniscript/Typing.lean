import Mathlib.Data.List.Forall2
import Taproot.Miniscript.Fragment
import Taproot.Proofs.Result

/-! # Derivations of types

Induction on fragments, and the rules by which a fragment gets its type as a relation.
-/
namespace Taproot.Miniscript

namespace ExprType

variable {x y z t : ExprType} {ts : List ExprType} {k : Int} {keys : List Bytes} {w : Wrapper}

theorem isCondition_iff : x.isCondition = true ↔ x.base = .B ∧ x.d = true ∧ x.u = true := by
  simp [isCondition, and_assoc]

theorem isSummand_iff : x.isSummand = true ↔ x.base = .W ∧ x.d = true ∧ x.u = true := by
  simp [isSummand, and_assoc]

theorem multi_eq_ok (h : multi k keys = .ok t) :
    (1 ≤ k ∧ k ≤ keys.length) ∧ keys.Nodup ∧ t = { base := .B, d := true, u := true } := by
  obtain ⟨hk, h⟩ := ite_error_eq_ok.mp h
  obtain ⟨hkeys, h⟩ := ite_error_eq_ok.mp h
  cases h
  exact ⟨not_not.mp hk, not_not.mp hkeys, rfl⟩

theorem multi_ne_nil (h : multi k keys = .ok t) : keys ≠ [] := by
  rintro rfl
  obtain ⟨hk, -⟩ := multi_eq_ok h
  rw [List.length_nil] at hk
  omega

theorem andV_eq_ok (h : andV x y = .ok t) :
    x.base = .V ∧ y.base ≠ .W ∧ t = {
      base := y.base
      z := x.z && y.z
      o := (x.z && y.o) || (x.o && y.z)
      n := x.n || (x.z && y.n)
      u := y.u } := by
  obtain ⟨hx, h⟩ := ite_error_eq_ok.mp h
  obtain ⟨hy, h⟩ := ite_error_eq_ok.mp h
  cases h
  exact ⟨not_not.mp hx, hy, rfl⟩

theorem andB_eq_ok (h : andB x y = .ok t) :
    x.base = .B ∧ y.base = .W ∧ t = {
      base := .B
      z := x.z && y.z
      o := (x.z && y.o) || (x.o && y.z)
      n := x.n || (x.z && y.n)
      d := x.d && y.d
      u := true } := by
  obtain ⟨hx, h⟩ := ite_error_eq_ok.mp h
  obtain ⟨hy, h⟩ := ite_error_eq_ok.mp h
  cases h
  exact ⟨not_not.mp hx, not_not.mp hy, rfl⟩

theorem orB_eq_ok (h : orB x z = .ok t) :
    (x.base = .B ∧ x.d = true) ∧ (z.base = .W ∧ z.d = true) ∧ t = {
      base := .B
      z := x.z && z.z
      o := (x.z && z.o) || (x.o && z.z)
      d := true
      u := true } := by
  obtain ⟨hx, h⟩ := ite_error_eq_ok.mp h
  obtain ⟨hz, h⟩ := ite_error_eq_ok.mp h
  cases h
  exact ⟨not_not.mp hx, not_not.mp hz, rfl⟩

theorem orC_eq_ok (h : orC x z = .ok t) :
    (x.base = .B ∧ x.d = true ∧ x.u = true) ∧ z.base = .V ∧
      t = { base := .V, z := x.z && z.z, o := x.o && z.z } := by
  obtain ⟨hx, h⟩ := ite_error_eq_ok.mp h
  obtain ⟨hz, h⟩ := ite_error_eq_ok.mp h
  cases h
  exact ⟨isCondition_iff.mp (eq_true_of_ne_false hx), not_not.mp hz, rfl⟩

theorem orD_eq_ok (h : orD x z = .ok t) :
    (x.base = .B ∧ x.d = true ∧ x.u = true) ∧ z.base = .B ∧
      t = { base := .B, z := x.z && z.z, o := x.o && z.z, d := z.d, u := z.u } := by
  obtain ⟨hx, h⟩ := ite_error_eq_ok.mp h
  obtain ⟨hz, h⟩ := ite_error_eq_ok.mp h
  cases h
  exact ⟨isCondition_iff.mp (eq_true_of_ne_false hx), not_not.mp hz, rfl⟩

theorem orI_eq_ok (h : orI x z = .ok t) :
    (x.base = z.base ∧ x.base ≠ .W) ∧
      t = { base := x.base, o := x.z && z.z, u := x.u && z.u, d := x.d || z.d } := by
  obtain ⟨hx, h⟩ := ite_error_eq_ok.mp h
  cases h
  exact ⟨not_not.mp hx, rfl⟩

theorem andOr_eq_ok (h : andOr x y z = .ok t) :
    (x.base = .B ∧ x.d = true ∧ x.u = true) ∧ (y.base = z.base ∧ y.base ≠ .W) ∧ t = {
      base := y.base
      z := x.z && y.z && z.z
      o := (x.z && y.o && z.o) || (x.o && y.z && z.z)
      u := y.u && z.u
      d := z.d } := by
  obtain ⟨hx, h⟩ := ite_error_eq_ok.mp h
  obtain ⟨hy, h⟩ := ite_error_eq_ok.mp h
  cases h
  exact ⟨isCondition_iff.mp (eq_true_of_ne_false hx), not_not.mp hy, rfl⟩

/-- The types that consume something. -/
def consuming (ts : List ExprType) : List ExprType := ts.filter fun t => !t.z

theorem thresh_eq_ok (h : thresh k ts = .ok t) :
    (1 ≤ k ∧ k ≤ ts.length) ∧ (∃ first others, ts = first :: others ∧
      (first.base = .B ∧ first.d = true ∧ first.u = true) ∧
      ∀ s ∈ others, s.base = .W ∧ s.d = true ∧ s.u = true) ∧ t = {
      base := .B
      z := (consuming ts).isEmpty
      o := match consuming ts with
        | [s] => s.o
        | _ => false
      d := true
      u := true } := by
  obtain ⟨hk, h⟩ := ite_error_eq_ok.mp h
  cases ts with
  | nil => cases h
  | cons first others =>
    obtain ⟨hfirst, h⟩ := ite_error_eq_ok.mp h
    obtain ⟨hothers, h⟩ := ite_error_eq_ok.mp h
    cases h
    refine ⟨not_not.mp hk, ⟨first, others, rfl, ?_, ?_⟩, rfl⟩
    · exact isCondition_iff.mp (eq_true_of_ne_false hfirst)
    · intro s hs
      exact isSummand_iff.mp (List.all_eq_true.mp (eq_true_of_ne_false hothers) s hs)

theorem thresh_ne_nil (h : thresh k ts = .ok t) : ts ≠ [] := by
  rintro rfl
  obtain ⟨hk, -⟩ := thresh_eq_ok h
  rw [List.length_nil] at hk
  omega

theorem wrap_eq_ok (h : wrap w x = .ok t) : admits w x = true ∧ t = wrapped w x := by
  unfold wrap at h
  split at h
  · cases h
    exact ⟨by assumption, rfl⟩
  · cases h

end ExprType

namespace Fragment

section Induction

variable {P : Fragment → Prop} (just : ∀ value, P (just value)) (key : ∀ k, P (key k))
  (image : ∀ h, P (image h)) (after : ∀ n, P (after n)) (older : ∀ n, P (older n))
  (multi : ∀ k keys, P (multi k keys)) (andV : ∀ x y, P x → P y → P (andV x y))
  (andB : ∀ x y, P x → P y → P (andB x y)) (orB : ∀ x z, P x → P z → P (orB x z))
  (orC : ∀ x z, P x → P z → P (orC x z)) (orD : ∀ x z, P x → P z → P (orD x z))
  (orI : ∀ x z, P x → P z → P (orI x z)) (andOr : ∀ x y z, P x → P y → P z → P (andOr x y z))
  (thresh : ∀ k xs, (∀ x ∈ xs, P x) → P (thresh k xs)) (wrap : ∀ w x, P x → P (wrap w x))
include just key image after older multi andV andB orB orC orD orI andOr thresh wrap

/-- Induction with the branches of a threshold as premises. -/
@[elab_as_elim, induction_eliminator]
theorem induct (f : Fragment) : P f :=
  @Fragment.rec P (fun xs => ∀ x ∈ xs, P x) just key image after older multi andV andB orB orC orD
    orI andOr thresh wrap (by simp) (by
      intro x xs hx hxs y hy
      rcases List.mem_cons.mp hy with rfl | hy
      · exact hx
      · exact hxs y hy) f

end Induction

/-- The rules by which a fragment has a type; a threshold lists its branches with their types. -/
inductive HasType : Fragment → ExprType → Prop
  | just (value : Bool) : HasType (just value) (.just value)
  | key (k : Bytes) : HasType (key k) .key
  | image (h : Bytes) : HasType (image h) .image
  | after (n : Int) : HasType (after n) .timelock
  | older (n : Int) : HasType (older n) .timelock
  | multi {k : Int} {keys : List Bytes} {t : ExprType} :
    ExprType.multi k keys = .ok t → HasType (multi k keys) t
  | andV {x y : Fragment} {s₁ s₂ t : ExprType} :
    HasType x s₁ → HasType y s₂ → ExprType.andV s₁ s₂ = .ok t → HasType (andV x y) t
  | andB {x y : Fragment} {s₁ s₂ t : ExprType} :
    HasType x s₁ → HasType y s₂ → ExprType.andB s₁ s₂ = .ok t → HasType (andB x y) t
  | orB {x z : Fragment} {s₁ s₂ t : ExprType} :
    HasType x s₁ → HasType z s₂ → ExprType.orB s₁ s₂ = .ok t → HasType (orB x z) t
  | orC {x z : Fragment} {s₁ s₂ t : ExprType} :
    HasType x s₁ → HasType z s₂ → ExprType.orC s₁ s₂ = .ok t → HasType (orC x z) t
  | orD {x z : Fragment} {s₁ s₂ t : ExprType} :
    HasType x s₁ → HasType z s₂ → ExprType.orD s₁ s₂ = .ok t → HasType (orD x z) t
  | orI {x z : Fragment} {s₁ s₂ t : ExprType} :
    HasType x s₁ → HasType z s₂ → ExprType.orI s₁ s₂ = .ok t → HasType (orI x z) t
  | andOr {x y z : Fragment} {s₁ s₂ s₃ t : ExprType} : HasType x s₁ → HasType y s₂ →
    HasType z s₃ → ExprType.andOr s₁ s₂ s₃ = .ok t → HasType (andOr x y z) t
  | thresh {k : Int} {branches : List (Fragment × ExprType)} {t : ExprType} :
    (∀ b ∈ branches, HasType b.1 b.2) → ExprType.thresh k (branches.map Prod.snd) = .ok t →
    HasType (thresh k (branches.map Prod.fst)) t
  | wrap {w : Wrapper} {x : Fragment} {s t : ExprType} :
    HasType x s → ExprType.wrap w s = .ok t → HasType (wrap w x) t

theorem branches_of_types? {xs : List Fragment} {ts : List ExprType}
    (hx : ∀ x ∈ xs, ∀ t, type? x = .ok t → HasType x t) (h : types? xs = .ok ts) :
    ∃ branches : List (Fragment × ExprType), xs = branches.map Prod.fst ∧
      ts = branches.map Prod.snd ∧ ∀ b ∈ branches, HasType b.1 b.2 := by
  induction xs generalizing ts with
  | nil =>
    cases h
    exact ⟨[], rfl, rfl, by simp⟩
  | cons x xs ih =>
    simp only [types?, bind_eq_ok, pure_eq_ok] at h
    obtain ⟨t, h₁, ts, h₂, rfl⟩ := h
    obtain ⟨branches, rfl, rfl, hb⟩ := ih (fun y hy => hx y (List.mem_cons_of_mem x hy)) h₂
    refine ⟨(x, t) :: branches, rfl, rfl, ?_⟩
    intro b hm
    rcases List.mem_cons.mp hm with rfl | hm
    · exact hx x List.mem_cons_self t h₁
    · exact hb b hm

theorem HasType.of_type? {f : Fragment} {t : ExprType} (h : f.type? = .ok t) : HasType f t := by
  induction f generalizing t with
  | just value => cases h; exact .just value
  | key k => cases h; exact .key k
  | image d => cases h; exact .image d
  | after n => cases h; exact .after n
  | older n => cases h; exact .older n
  | multi k keys => exact .multi (by simpa [Fragment.type?] using h)
  | andV x y ihx ihy =>
    simp only [Fragment.type?, bind_eq_ok] at h
    obtain ⟨s₁, h₁, s₂, h₂, h⟩ := h
    exact .andV (ihx h₁) (ihy h₂) h
  | andB x y ihx ihy =>
    simp only [Fragment.type?, bind_eq_ok] at h
    obtain ⟨s₁, h₁, s₂, h₂, h⟩ := h
    exact .andB (ihx h₁) (ihy h₂) h
  | orB x z ihx ihz =>
    simp only [Fragment.type?, bind_eq_ok] at h
    obtain ⟨s₁, h₁, s₂, h₂, h⟩ := h
    exact .orB (ihx h₁) (ihz h₂) h
  | orC x z ihx ihz =>
    simp only [Fragment.type?, bind_eq_ok] at h
    obtain ⟨s₁, h₁, s₂, h₂, h⟩ := h
    exact .orC (ihx h₁) (ihz h₂) h
  | orD x z ihx ihz =>
    simp only [Fragment.type?, bind_eq_ok] at h
    obtain ⟨s₁, h₁, s₂, h₂, h⟩ := h
    exact .orD (ihx h₁) (ihz h₂) h
  | orI x z ihx ihz =>
    simp only [Fragment.type?, bind_eq_ok] at h
    obtain ⟨s₁, h₁, s₂, h₂, h⟩ := h
    exact .orI (ihx h₁) (ihz h₂) h
  | andOr x y z ihx ihy ihz =>
    simp only [Fragment.type?, bind_eq_ok] at h
    obtain ⟨s₁, h₁, s₂, h₂, s₃, h₃, h⟩ := h
    exact .andOr (ihx h₁) (ihy h₂) (ihz h₃) h
  | thresh k xs ih =>
    simp only [Fragment.type?, bind_eq_ok] at h
    obtain ⟨ts, h₁, h⟩ := h
    obtain ⟨branches, rfl, rfl, hb⟩ := branches_of_types? (fun x hx t => ih x hx) h₁
    exact .thresh hb h
  | wrap w x ih =>
    simp only [Fragment.type?, bind_eq_ok] at h
    obtain ⟨s, h₁, h⟩ := h
    exact .wrap (ih h₁) h

theorem HasType.branches {k : Int} {xs : List Fragment} {t : ExprType}
    (h : HasType (.thresh k xs) t) :
    ∃ ts, List.Forall₂ HasType xs ts ∧ ExprType.thresh k ts = .ok t := by
  cases h with
  | thresh hb h =>
    refine ⟨_, ?_, h⟩
    rw [List.forall₂_map_left_iff, List.forall₂_map_right_iff, List.forall₂_same]
    exact hb

theorem types?_of_forall {branches : List (Fragment × ExprType)}
    (h : ∀ b ∈ branches, type? b.1 = .ok b.2) :
    types? (branches.map Prod.fst) = .ok (branches.map Prod.snd) := by
  induction branches with
  | nil => rfl
  | cons b rest ih =>
    have hr := ih fun b' hb' => h b' (List.mem_cons_of_mem b hb')
    simp only [List.map_cons, types?, bind_eq_ok, pure_eq_ok]
    exact ⟨b.2, h b List.mem_cons_self, _, hr, rfl⟩

theorem HasType.type? {f : Fragment} {t : ExprType} (h : HasType f t) : f.type? = .ok t := by
  induction h with
  | just | key | image | after | older => simp [Fragment.type?]
  | multi h => simpa [Fragment.type?] using h
  | andV _ _ h ih₁ ih₂ | andB _ _ h ih₁ ih₂ | orB _ _ h ih₁ ih₂ | orC _ _ h ih₁ ih₂
  | orD _ _ h ih₁ ih₂ | orI _ _ h ih₁ ih₂ =>
    simp only [Fragment.type?, bind_eq_ok]
    exact ⟨_, ih₁, _, ih₂, h⟩
  | andOr _ _ _ h ih₁ ih₂ ih₃ =>
    simp only [Fragment.type?, bind_eq_ok]
    exact ⟨_, ih₁, _, ih₂, _, ih₃, h⟩
  | thresh _ h ih =>
    simp only [Fragment.type?, bind_eq_ok]
    exact ⟨_, types?_of_forall ih, h⟩
  | wrap _ h ih =>
    simp only [Fragment.type?, bind_eq_ok]
    exact ⟨_, ih, h⟩

end Fragment
end Taproot.Miniscript
