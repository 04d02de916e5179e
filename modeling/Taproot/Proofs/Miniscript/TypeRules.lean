import Taproot.Proofs.Miniscript.Typing

/-! # The type rules

The rules of Miniscript written out: what each fragment asks of its arguments, and the base type and
the properties that it has. Exactly the fragments to which they give a type are typed, and with it.
-/
namespace Taproot.Miniscript

/-- A `B` expression that can be dissatisfied and leaves exactly one when satisfied. -/
def ExprType.Bdu (t : ExprType) : Prop := t.base = .B ∧ t.d = true ∧ t.u = true

def ExprType.Wdu (t : ExprType) : Prop := t.base = .W ∧ t.d = true ∧ t.u = true

/-- Of the branches of a threshold one takes exactly one item and the others take none. -/
def ExprType.takeOne (ts : List ExprType) : Bool :=
  match ts.filter fun t => !t.z with
  | [t] => t.o
  | _ => false

namespace Fragment

inductive WellTyped : Fragment → ExprType → Prop
  | zero : WellTyped (just false) { base := .B, z := true, d := true, u := true }
  | one : WellTyped (just true) { base := .B, z := true, u := true }
  | key (k : Bytes) : WellTyped (key k) { base := .K, o := true, n := true, d := true, u := true }
  | image (h : Bytes) :
    WellTyped (image h) { base := .B, o := true, n := true, d := true, u := true }
  | after (n : Int) : WellTyped (after n) { base := .B, z := true }
  | older (n : Int) : WellTyped (older n) { base := .B, z := true }
  | multi {k : Int} {keys : List Bytes} : 1 ≤ k → k ≤ keys.length → keys.Nodup →
    WellTyped (multi k keys) { base := .B, d := true, u := true }
  | andV {x y : Fragment} {s t : ExprType} : WellTyped x s → WellTyped y t →
    s.base = .V → t.base ≠ .W → WellTyped (andV x y) {
      base := t.base
      z := s.z && t.z
      o := (s.z && t.o) || (s.o && t.z)
      n := s.n || (s.z && t.n)
      u := t.u }
  | andB {x y : Fragment} {s t : ExprType} : WellTyped x s → WellTyped y t →
    s.base = .B → t.base = .W → WellTyped (andB x y) {
      base := .B
      z := s.z && t.z
      o := (s.z && t.o) || (s.o && t.z)
      n := s.n || (s.z && t.n)
      d := s.d && t.d
      u := true }
  | orB {x z : Fragment} {s t : ExprType} : WellTyped x s → WellTyped z t →
    s.base = .B → s.d = true → t.base = .W → t.d = true → WellTyped (orB x z) {
      base := .B
      z := s.z && t.z
      o := (s.z && t.o) || (s.o && t.z)
      d := true
      u := true }
  | orC {x z : Fragment} {s t : ExprType} : WellTyped x s → WellTyped z t →
    s.Bdu → t.base = .V → WellTyped (orC x z) { base := .V, z := s.z && t.z, o := s.o && t.z }
  | orD {x z : Fragment} {s t : ExprType} : WellTyped x s → WellTyped z t →
    s.Bdu → t.base = .B →
    WellTyped (orD x z) { base := .B, z := s.z && t.z, o := s.o && t.z, d := t.d, u := t.u }
  | orI {x z : Fragment} {s t : ExprType} : WellTyped x s → WellTyped z t →
    s.base = t.base → s.base ≠ .W →
    WellTyped (orI x z) { base := s.base, o := s.z && t.z, u := s.u && t.u, d := s.d || t.d }
  | andOr {x y z : Fragment} {s t r : ExprType} : WellTyped x s → WellTyped y t → WellTyped z r →
    s.Bdu → t.base = r.base → t.base ≠ .W → WellTyped (andOr x y z) {
      base := t.base
      z := s.z && t.z && r.z
      o := (s.z && t.o && r.o) || (s.o && t.z && r.z)
      u := t.u && r.u
      d := r.d }
  | thresh {k : Int} {first : Fragment × ExprType} {others : List (Fragment × ExprType)} :
    (∀ b ∈ first :: others, WellTyped b.1 b.2) → 1 ≤ k → k ≤ (first :: others).length →
    first.2.Bdu → (∀ b ∈ others, b.2.Wdu) →
    WellTyped (thresh k ((first :: others).map Prod.fst)) {
      base := .B
      z := ((first :: others).map Prod.snd).all ExprType.z
      o := ExprType.takeOne ((first :: others).map Prod.snd)
      d := true
      u := true }
  | wrapA {x : Fragment} {s : ExprType} : WellTyped x s → s.base = .B →
    WellTyped (wrap .a x) { base := .W, d := s.d, u := s.u }
  | wrapS {x : Fragment} {s : ExprType} : WellTyped x s → s.base = .B → s.o = true →
    WellTyped (wrap .s x) { base := .W, d := s.d, u := s.u }
  | wrapC {x : Fragment} {s : ExprType} : WellTyped x s → s.base = .K →
    WellTyped (wrap .c x) { base := .B, o := s.o, n := s.n, d := s.d, u := true }
  | wrapD {x : Fragment} {s : ExprType} : WellTyped x s → s.base = .V → s.z = true →
    WellTyped (wrap .d x) { base := .B, o := true, n := true, d := true, u := true }
  | wrapV {x : Fragment} {s : ExprType} : WellTyped x s → s.base = .B →
    WellTyped (wrap .v x) { base := .V, z := s.z, o := s.o, n := s.n }
  | wrapJ {x : Fragment} {s : ExprType} : WellTyped x s → s.base = .B → s.n = true →
    WellTyped (wrap .j x) { base := .B, o := s.o, n := true, d := true, u := s.u }
  | wrapN {x : Fragment} {s : ExprType} : WellTyped x s → s.base = .B →
    WellTyped (wrap .n x) { base := .B, z := s.z, o := s.o, n := s.n, d := s.d, u := true }

theorem isEmpty_consuming (ts : List ExprType) :
    (ExprType.consuming ts).isEmpty = ts.all ExprType.z := by
  rw [Bool.eq_iff_iff, ExprType.consuming, List.isEmpty_iff, List.filter_eq_nil_iff,
    List.all_eq_true]
  simp

theorem WellTyped.of_wrap {w : Wrapper} {x : Fragment} {s : ExprType} (hx : WellTyped x s)
    (h : ExprType.admits w s = true) : WellTyped (wrap w x) (ExprType.wrapped w s) := by
  cases w with
  | a => exact .wrapA hx (by simpa [ExprType.admits] using h)
  | s =>
    have hs : s.base = .B ∧ s.o = true := by simpa [ExprType.admits] using h
    exact .wrapS hx hs.1 hs.2
  | c => exact .wrapC hx (by simpa [ExprType.admits] using h)
  | d =>
    have hs : s.base = .V ∧ s.z = true := by simpa [ExprType.admits] using h
    exact .wrapD hx hs.1 hs.2
  | v => exact .wrapV hx (by simpa [ExprType.admits] using h)
  | j =>
    have hs : s.base = .B ∧ s.n = true := by simpa [ExprType.admits] using h
    exact .wrapJ hx hs.1 hs.2
  | n => exact .wrapN hx (by simpa [ExprType.admits] using h)

theorem HasType.wellTyped {f : Fragment} {t : ExprType} (h : HasType f t) : WellTyped f t := by
  induction h with
  | just value =>
    cases value with
    | false => exact .zero
    | true => exact .one
  | key k => exact .key k
  | image d => exact .image d
  | after n => exact .after n
  | older n => exact .older n
  | multi h =>
    obtain ⟨hk, hd, rfl⟩ := ExprType.multi_eq_ok h
    exact .multi hk.1 hk.2 hd
  | andV _ _ h ih₁ ih₂ =>
    obtain ⟨hx, hy, rfl⟩ := ExprType.andV_eq_ok h
    exact .andV ih₁ ih₂ hx hy
  | andB _ _ h ih₁ ih₂ =>
    obtain ⟨hx, hy, rfl⟩ := ExprType.andB_eq_ok h
    exact .andB ih₁ ih₂ hx hy
  | orB _ _ h ih₁ ih₂ =>
    obtain ⟨hx, hz, rfl⟩ := ExprType.orB_eq_ok h
    exact .orB ih₁ ih₂ hx.1 hx.2 hz.1 hz.2
  | orC _ _ h ih₁ ih₂ =>
    obtain ⟨hx, hz, rfl⟩ := ExprType.orC_eq_ok h
    exact .orC ih₁ ih₂ hx hz
  | orD _ _ h ih₁ ih₂ =>
    obtain ⟨hx, hz, rfl⟩ := ExprType.orD_eq_ok h
    exact .orD ih₁ ih₂ hx hz
  | orI _ _ h ih₁ ih₂ =>
    obtain ⟨hb, rfl⟩ := ExprType.orI_eq_ok h
    exact .orI ih₁ ih₂ hb.1 hb.2
  | andOr _ _ _ h ih₁ ih₂ ih₃ =>
    obtain ⟨hx, hb, rfl⟩ := ExprType.andOr_eq_ok h
    exact .andOr ih₁ ih₂ ih₃ hx hb.1 hb.2
  | @thresh k bs t _ h ih =>
    obtain ⟨hk, ⟨first, others, he, hf, ho⟩, rfl⟩ := ExprType.thresh_eq_ok h
    cases bs with
    | nil => cases he
    | cons b bs =>
      obtain ⟨rfl, rfl⟩ := List.cons.inj he
      rw [isEmpty_consuming]
      refine .thresh ih hk.1 (by simpa using hk.2) hf fun b hb => ?_
      exact ho b.2 (List.mem_map_of_mem hb)
  | wrap _ h ih =>
    obtain ⟨ha, rfl⟩ := ExprType.wrap_eq_ok h
    exact ih.of_wrap ha

theorem WellTyped.hasType {f : Fragment} {t : ExprType} (h : WellTyped f t) : HasType f t := by
  induction h with
  | zero => exact .just false
  | one => exact .just true
  | key k => exact .key k
  | image d => exact .image d
  | after n => exact .after n
  | older n => exact .older n
  | multi h₁ h₂ hd => exact .multi (by simp [ExprType.multi, h₁, h₂, hd])
  | andV _ _ hx hy ih₁ ih₂ => exact .andV ih₁ ih₂ (by simp [ExprType.andV, hx, hy])
  | andB _ _ hx hy ih₁ ih₂ => exact .andB ih₁ ih₂ (by simp [ExprType.andB, hx, hy])
  | orB _ _ hx hxd hz hzd ih₁ ih₂ =>
    exact .orB ih₁ ih₂ (by simp [ExprType.orB, hx, hxd, hz, hzd])
  | orC _ _ hx hz ih₁ ih₂ =>
    have hc := ExprType.isCondition_iff.mpr hx
    exact .orC ih₁ ih₂ (by simp [ExprType.orC, hc, hz])
  | orD _ _ hx hz ih₁ ih₂ =>
    have hc := ExprType.isCondition_iff.mpr hx
    exact .orD ih₁ ih₂ (by simp [ExprType.orD, hc, hz])
  | orI _ _ hb hw ih₁ ih₂ => exact .orI ih₁ ih₂ (if_neg (not_not.mpr ⟨hb, hw⟩))
  | andOr _ _ _ hx hb hw ih₁ ih₂ ih₃ =>
    have hc := ExprType.isCondition_iff.mpr hx
    refine .andOr ih₁ ih₂ ih₃ ?_
    rw [ExprType.andOr, if_neg (by simp [hc]), if_neg (not_not.mpr ⟨hb, hw⟩)]
  | @thresh k first others _ h₁ h₂ hf ho ih =>
    refine .thresh ih ?_
    have hc := ExprType.isCondition_iff.mpr hf
    have hs : (others.map Prod.snd).all ExprType.isSummand = true := by
      rw [List.all_map, List.all_eq_true]
      exact fun b hb => ExprType.isSummand_iff.mpr (ho b hb)
    have hl : k ≤ ((first :: others).map Prod.snd).length := by simpa using h₂
    rw [ExprType.thresh.eq_def, if_neg (not_not.mpr ⟨h₁, hl⟩), ← isEmpty_consuming]
    simp only [List.map_cons, hc, hs, Bool.true_eq_false, if_false]
    rfl
  | wrapA _ hb ih => exact .wrap ih (by simp [ExprType.wrap, ExprType.admits, ExprType.wrapped, hb])
  | wrapS _ hb ho ih =>
    exact .wrap ih (by simp [ExprType.wrap, ExprType.admits, ExprType.wrapped, hb, ho])
  | wrapC _ hb ih => exact .wrap ih (by simp [ExprType.wrap, ExprType.admits, ExprType.wrapped, hb])
  | wrapD _ hb hz ih =>
    exact .wrap ih (by simp [ExprType.wrap, ExprType.admits, ExprType.wrapped, hb, hz])
  | wrapV _ hb ih => exact .wrap ih (by simp [ExprType.wrap, ExprType.admits, ExprType.wrapped, hb])
  | wrapJ _ hb hn ih =>
    exact .wrap ih (by simp [ExprType.wrap, ExprType.admits, ExprType.wrapped, hb, hn])
  | wrapN _ hb ih => exact .wrap ih (by simp [ExprType.wrap, ExprType.admits, ExprType.wrapped, hb])

theorem wellTyped_iff {f : Fragment} {t : ExprType} : WellTyped f t ↔ f.type? = .ok t :=
  ⟨fun h => h.hasType.type?, fun h => (HasType.of_type? h).wellTyped⟩

end Fragment
end Taproot.Miniscript
