import Taproot.Proofs.Miniscript.Witnesses

/-! # What types say about witnesses

With `z` a witness is empty, with `o` it is one item, and with `n` what satisfies has an item on top
that is not empty. With `d`, and only then, there is a dissatisfaction.
-/
namespace Taproot.Miniscript

open Fragment

variable {m : Material}

/-- Signatures and preimages are not empty. -/
structure Material.Substantial (m : Material) : Prop where
  sign : ∀ {k s}, m.sign k = some s → s ≠ []
  preimage : ∀ {h p}, m.preimage h = some p → p ≠ []

/-- The number of items that `z` and `o` promise. -/
structure Sized (t : ExprType) (n : Nat) : Prop where
  zero : t.z = true → n = 0
  one : t.o = true → n = 1

theorem Sized.add {x y t : ExprType} {m n : Nat} (hx : Sized x m) (hy : Sized y n)
    (hz : t.z = true → x.z = true ∧ y.z = true)
    (ho : t.o = true → x.z = true ∧ y.o = true ∨ x.o = true ∧ y.z = true) : Sized t (n + m) := by
  constructor
  · intro h
    have h₁ := hx.zero (hz h).1
    have h₂ := hy.zero (hz h).2
    omega
  · intro h
    rcases ho h with ⟨h₁, h₂⟩ | ⟨h₁, h₂⟩
    · have h₃ := hx.zero h₁
      have h₄ := hy.one h₂
      omega
    · have h₃ := hx.one h₁
      have h₄ := hy.zero h₂
      omega

/-- A type that promises no more. -/
theorem Sized.weaken {x t : ExprType} {n : Nat} (hx : Sized x n) (hz : t.z = true → x.z = true)
    (ho : t.o = true → x.o = true) : Sized t n :=
  ⟨fun h => hx.zero (hz h), fun h => hx.one (ho h)⟩

/-- One item more is one item, where nothing is below it. -/
theorem Sized.marked {x t : ExprType} {w : Witness} (hx : Sized x w.length) (item : Bytes)
    (hz : t.z = false) (ho : t.o = true → x.z = true) : Sized t (w ++ [item]).length := by
  refine ⟨fun h => ?_, fun h => ?_⟩
  · rw [hz] at h
    cases h
  · rw [List.length_append, hx.zero (ho h)]
    rfl

theorem length_stackUp {ws : List Witness} {ts : List ExprType}
    (h : List.Forall₂ (fun w t => Sized t w.length) ws ts) :
    ((ExprType.consuming ts).isEmpty = true → (stackUp ws).length = 0) ∧
      ∀ s, ExprType.consuming ts = [s] → s.o = true → (stackUp ws).length = 1 := by
  induction h with
  | nil => exact ⟨fun _ => rfl, nofun⟩
  | @cons w t ws ts hw _ ih =>
    rw [stackUp_cons, List.length_append]
    cases hz : t.z with
    | true =>
      have hc : ExprType.consuming (t :: ts) = ExprType.consuming ts := by
        simp [ExprType.consuming, hz]
      rw [hc, hw.zero hz]
      exact ih
    | false =>
      have hc : ExprType.consuming (t :: ts) = t :: ExprType.consuming ts := by
        simp [ExprType.consuming, hz]
      rw [hc]
      refine ⟨nofun, ?_⟩
      intro s hs ho
      obtain ⟨rfl, hr⟩ := List.cons.inj hs
      rw [ih.1 (by rw [hr]; rfl), hw.one ho]

theorem forall₂_of_mem {α β : Type} {R S : α → β → Prop} {as : List α} {bs : List β}
    (h : List.Forall₂ R as bs) (hi : ∀ a ∈ as, ∀ b, R a b → S a b) : List.Forall₂ S as bs :=
  List.forall₂_iff_zip.mpr ⟨h.length_eq, fun hz =>
    hi _ (List.of_mem_zip hz).1 _ (List.forall₂_zip h hz)⟩

theorem HasWitness.sized {f : Fragment} {b : Bool} {w : Witness} {t : ExprType}
    (hw : HasWitness m f b w) (ht : HasType f t) : Sized t w.length := by
  -- a property that a type lacks promises nothing
  have lacks {p : Prop} (h : false = true) : p := absurd h Bool.false_ne_true
  induction hw generalizing t with
  | just => cases ht; exact ⟨fun _ => rfl, lacks⟩
  | sign | noSign | preimage | noPreimage => cases ht; exact ⟨lacks, fun _ => rfl⟩
  | after | older => cases ht; exact ⟨fun _ => rfl, lacks⟩
  | multi =>
    cases ht with
    | multi h =>
      obtain ⟨-, -, rfl⟩ := ExprType.multi_eq_ok h
      exact ⟨lacks, lacks⟩
  | andV _ _ ihx ihy =>
    cases ht with
    | andV hx hy h =>
      obtain ⟨-, -, rfl⟩ := ExprType.andV_eq_ok h
      rw [List.length_append]
      exact (ihx hx).add (ihy hy) (by simp) (by simp)
  | andB _ _ ihx ihy =>
    cases ht with
    | andB hx hy h =>
      obtain ⟨-, -, rfl⟩ := ExprType.andB_eq_ok h
      rw [List.length_append]
      exact (ihx hx).add (ihy hy) (by simp) (by simp)
  | orB _ _ ihx ihz =>
    cases ht with
    | orB hx hz h =>
      obtain ⟨-, -, rfl⟩ := ExprType.orB_eq_ok h
      rw [List.length_append]
      exact (ihx hx).add (ihz hz) (by simp) (by simp)
  | orCFirst _ ih =>
    cases ht with
    | orC hx hz h =>
      obtain ⟨-, -, rfl⟩ := ExprType.orC_eq_ok h
      exact (ih hx).weaken (fun h => (Bool.and_eq_true_iff.mp h).1)
        fun h => (Bool.and_eq_true_iff.mp h).1
  | orCSecond _ _ ihx ihz =>
    cases ht with
    | orC hx hz h =>
      obtain ⟨-, -, rfl⟩ := ExprType.orC_eq_ok h
      rw [List.length_append]
      exact (ihx hx).add (ihz hz) (by simp) (by simp +contextual)
  | orDFirst _ ih =>
    cases ht with
    | orD hx hz h =>
      obtain ⟨-, -, rfl⟩ := ExprType.orD_eq_ok h
      exact (ih hx).weaken (fun h => (Bool.and_eq_true_iff.mp h).1)
        fun h => (Bool.and_eq_true_iff.mp h).1
  | orDSecond _ _ ihx ihz =>
    cases ht with
    | orD hx hz h =>
      obtain ⟨-, -, rfl⟩ := ExprType.orD_eq_ok h
      rw [List.length_append]
      exact (ihx hx).add (ihz hz) (by simp) (by simp +contextual)
  | orIFirst _ ih =>
    cases ht with
    | orI hx hz h =>
      obtain ⟨-, rfl⟩ := ExprType.orI_eq_ok h
      exact (ih hx).marked _ rfl fun h => (Bool.and_eq_true_iff.mp h).1
  | orISecond _ ih =>
    cases ht with
    | orI hx hz h =>
      obtain ⟨-, rfl⟩ := ExprType.orI_eq_ok h
      exact (ih hz).marked _ rfl fun h => (Bool.and_eq_true_iff.mp h).2
  | andOrThen _ _ ihx ihy =>
    cases ht with
    | andOr hx hy hz h =>
      obtain ⟨-, -, rfl⟩ := ExprType.andOr_eq_ok h
      rw [List.length_append]
      exact (ihx hx).add (ihy hy) (by simp +contextual) (by simp; tauto)
  | andOrElse _ _ ihx ihz =>
    cases ht with
    | andOr hx hy hz h =>
      obtain ⟨-, -, rfl⟩ := ExprType.andOr_eq_ok h
      rw [List.length_append]
      exact (ihx hx).add (ihz hz) (by simp +contextual) (by simp; tauto)
  | @thresh k parts _ _ _ ih =>
    obtain ⟨ts, hts, h⟩ := ht.branches
    obtain ⟨-, -, rfl⟩ := ExprType.thresh_eq_ok h
    have hs : List.Forall₂ (fun w t => Sized t w.length) (parts.map Part.witness) ts := by
      rw [List.forall₂_map_left_iff] at hts ⊢
      exact forall₂_of_mem hts fun p hp t ht => ih p hp ht
    have hl := length_stackUp hs
    refine ⟨hl.1, fun h => ?_⟩
    dsimp only at h
    split at h
    · rename_i s he
      exact hl.2 s he h
    · cases h
  | wrapD _ ih =>
    cases ht with
    | wrap hx h =>
      obtain ⟨ha, rfl⟩ := ExprType.wrap_eq_ok h
      simp only [ExprType.admits, Bool.and_eq_true] at ha
      exact (ih hx).marked _ rfl fun _ => ha.2
  | wrapNot _ hl =>
    cases ht with
    | wrap hx h =>
      obtain ⟨-, rfl⟩ := ExprType.wrap_eq_ok h
      rcases hl with rfl | rfl <;> exact ⟨lacks, fun _ => rfl⟩
  | @wrap letter _ _ _ hd _ _ ih =>
    cases ht with
    | wrap hx h =>
      obtain ⟨-, rfl⟩ := ExprType.wrap_eq_ok h
      have hs := ih hx
      cases letter with
      | d => exact absurd rfl hd
      | a | s => exact ⟨lacks, lacks⟩
      | c | j => exact ⟨lacks, hs.one⟩
      | v | n => exact ⟨hs.zero, hs.one⟩

/-- The item on top is not empty. -/
def HasTop (w : Witness) : Prop := ∃ below top, w = below ++ [top] ∧ top ≠ []

theorem HasTop.under {w : Witness} (h : HasTop w) (v : Witness) : HasTop (v ++ w) := by
  obtain ⟨below, top, rfl, ht⟩ := h
  exact ⟨v ++ below, top, by simp, ht⟩

theorem HasTop.sequence {x y : ExprType} {wx wy : Witness} (hn : (x.n || (x.z && y.n)) = true)
    (hx : x.n = true → HasTop wx) (hz : x.z = true → wx = []) (hy : y.n = true → HasTop wy) :
    HasTop (wy ++ wx) := by
  rcases Bool.or_eq_true_iff.mp hn with h | h
  · exact (hx h).under wy
  · simp only [Bool.and_eq_true] at h
    rw [hz h.1, List.append_nil]
    exact hy h.2

theorem HasWitness.hasTop {f : Fragment} {b : Bool} {w : Witness} {t : ExprType}
    (hm : m.Substantial) (hw : HasWitness m f b w) (hb : b = true) (ht : HasType f t)
    (hn : t.n = true) : HasTop w := by
  induction hw generalizing t with
  | just => cases ht; cases hn
  | sign h => exact ⟨[], _, rfl, hm.sign h⟩
  | preimage h => exact ⟨[], _, rfl, hm.preimage h⟩
  | noSign | noPreimage => cases hb
  | after | older => cases ht; cases hn
  | multi =>
    cases ht with
    | multi h => obtain ⟨-, -, rfl⟩ := ExprType.multi_eq_ok h; cases hn
  | andV hwx _ ihx ihy =>
    cases ht with
    | andV hx hy h =>
      obtain ⟨-, -, rfl⟩ := ExprType.andV_eq_ok h
      exact HasTop.sequence hn (ihx hb hx)
        (fun hz => List.length_eq_zero_iff.mp ((hwx.sized hx).zero hz)) (ihy hb hy)
  | andB hwx _ ihx ihy =>
    cases ht with
    | andB hx hy h =>
      obtain ⟨-, -, rfl⟩ := ExprType.andB_eq_ok h
      exact HasTop.sequence hn (ihx hb hx)
        (fun hz => List.length_eq_zero_iff.mp ((hwx.sized hx).zero hz)) (ihy hb hy)
  | orB =>
    cases ht with
    | orB _ _ h => obtain ⟨-, -, rfl⟩ := ExprType.orB_eq_ok h; cases hn
  | orCFirst | orCSecond =>
    cases ht with
    | orC _ _ h => obtain ⟨-, -, rfl⟩ := ExprType.orC_eq_ok h; cases hn
  | orDFirst | orDSecond =>
    cases ht with
    | orD _ _ h => obtain ⟨-, -, rfl⟩ := ExprType.orD_eq_ok h; cases hn
  | orIFirst | orISecond =>
    cases ht with
    | orI _ _ h => obtain ⟨-, rfl⟩ := ExprType.orI_eq_ok h; cases hn
  | andOrThen | andOrElse =>
    cases ht with
    | andOr _ _ _ h => obtain ⟨-, -, rfl⟩ := ExprType.andOr_eq_ok h; cases hn
  | thresh =>
    obtain ⟨ts, -, h⟩ := ht.branches
    obtain ⟨-, -, rfl⟩ := ExprType.thresh_eq_ok h
    cases hn
  | wrapD => exact ⟨_, _, rfl, by simp [trueItem]⟩
  | wrapNot => cases hb
  | @wrap letter _ _ _ hd _ _ ih =>
    cases ht with
    | wrap hx h =>
      obtain ⟨ha, rfl⟩ := ExprType.wrap_eq_ok h
      cases letter with
      | d => exact absurd rfl hd
      | a | s => cases hn
      | c | v | n => exact ih hb hx hn
      | j =>
        simp only [ExprType.admits, Bool.and_eq_true] at ha
        exact ih hb hx ha.2

/-! ## Dissatisfactions -/

theorem isSome_dissatisfyAll {xs : List Fragment} (h : ∀ x ∈ xs, x.dissatisfy.isSome = true) :
    (dissatisfyAll xs).isSome = true := by
  induction xs with
  | nil => rfl
  | cons x xs ih =>
    rw [dissatisfyAll, isSome_under, ih fun y hy => h y (List.mem_cons_of_mem x hy),
      h x List.mem_cons_self]
    rfl

/-- The branches of a threshold have dissatisfactions. -/
theorem branches_d {k : Int} {ts : List ExprType} {t : ExprType} (h : ExprType.thresh k ts = .ok t) :
    ∀ s ∈ ts, s.d = true := by
  obtain ⟨-, ⟨first, others, rfl, hf, ho⟩, -⟩ := ExprType.thresh_eq_ok h
  intro s hs
  rcases List.mem_cons.mp hs with rfl | hs
  · exact hf.2.1
  · exact (ho s hs).2.1

theorem Fragment.HasType.isSome_dissatisfy {f : Fragment} {t : ExprType} (ht : HasType f t) :
    f.dissatisfy.isSome = t.d := by
  induction ht with
  | just value => cases value <;> rfl
  | key | image | after | older => rfl
  | multi h => obtain ⟨-, -, rfl⟩ := ExprType.multi_eq_ok h; rfl
  | andV _ _ h => obtain ⟨-, -, rfl⟩ := ExprType.andV_eq_ok h; rfl
  | andB _ _ h ihx ihy =>
    obtain ⟨-, -, rfl⟩ := ExprType.andB_eq_ok h
    rw [dissatisfy, isSome_under, ihx, ihy, Bool.and_comm]
  | orB _ _ h ihx ihz =>
    obtain ⟨hx, hz, rfl⟩ := ExprType.orB_eq_ok h
    rw [dissatisfy, isSome_under, ihx, ihz, hx.2, hz.2]
    rfl
  | orC _ _ h => obtain ⟨-, -, rfl⟩ := ExprType.orC_eq_ok h; rfl
  | orD _ _ h ihx ihz =>
    obtain ⟨hx, -, rfl⟩ := ExprType.orD_eq_ok h
    rw [dissatisfy, isSome_under, ihx, ihz, hx.2.1, Bool.and_true]
  | @orI x z _ _ _ _ _ h ihx ihz =>
    obtain ⟨-, rfl⟩ := ExprType.orI_eq_ok h
    rw [← ihx, ← ihz, dissatisfy]
    cases x.dissatisfy <;> cases z.dissatisfy <;> rfl
  | andOr _ _ _ h ihx _ ihz =>
    obtain ⟨hx, -, rfl⟩ := ExprType.andOr_eq_ok h
    rw [dissatisfy, isSome_under, ihx, ihz, hx.2.1, Bool.and_true]
  | thresh _ h ih =>
    obtain ⟨-, -, rfl⟩ := ExprType.thresh_eq_ok h
    refine isSome_dissatisfyAll fun x hx => ?_
    obtain ⟨b, hb, rfl⟩ := List.mem_map.mp hx
    rw [ih b hb]
    exact branches_d h b.2 (List.mem_map_of_mem hb)
  | @wrap letter _ _ _ hx h ih =>
    obtain ⟨ha, rfl⟩ := ExprType.wrap_eq_ok h
    cases letter with
    | a | s | c | n => exact ih
    | d | v | j => rfl

/-! ## What a type says -/

theorem HasTop.getLast? {w : Witness} (h : HasTop w) : ∃ top, w.getLast? = some top ∧ top ≠ [] := by
  obtain ⟨below, top, rfl, ht⟩ := h
  exact ⟨top, List.getLast?_concat, ht⟩

theorem Sized.shape {t : ExprType} {w : Witness} (h : Sized t w.length) :
    (t.z = true → w = []) ∧ (t.o = true → w.length = 1) :=
  ⟨fun hz => List.length_eq_zero_iff.mp (h.zero hz), h.one⟩

/-- A fragment has a dissatisfaction exactly with `d`. Whatever satisfies or dissatisfies it is empty
with `z` and is one item with `o`; with `n` what satisfies it has a last item, which is not empty. -/
theorem witnesses_as_typed {f : Fragment} {t : ExprType} (ht : f.type? = .ok t)
    (hm : m.Substantial) :
    (f.dissatisfy.isSome = true ↔ t.d = true) ∧
    (∀ w, (f.satisfy m).witness = some w ∨ f.dissatisfy = some w →
      (t.z = true → w = []) ∧ (t.o = true → w.length = 1)) ∧
    (t.n = true → ∀ w, (f.satisfy m).witness = some w →
      ∃ top, w.getLast? = some top ∧ top ≠ []) := by
  have htyped := HasType.of_type? ht
  refine ⟨by rw [htyped.isSome_dissatisfy], ?_, ?_⟩
  · rintro w (hw | hw)
    · exact ((HasWitness.of_satisfy hw).sized htyped).shape
    · exact ((HasWitness.of_dissatisfy (m := m) hw).sized htyped).shape
  · intro hn w hw
    exact ((HasWitness.of_satisfy hw).hasTop hm rfl htyped hn).getLast?

namespace SkippableKey

/-- A key after a day, which an empty item skips. -/
def fragment : Fragment :=
  .wrap .j (.andV (.wrap .v (.wrap .c (.key (List.replicate 32 1)))) (.wrap .n (.older 144)))

def type : ExprType := { base := .B, o := true, n := true, d := true, u := true }

/-- The key signs. -/
def material : Material where
  sign key := if key = List.replicate 32 1 then some [5] else none
  preimage _ := none
  older n := decide (144 ≥ n)
  after _ := false

theorem substantial : material.Substantial where
  sign h := by
    obtain ⟨-, hs⟩ := Option.ite_none_right_eq_some.mp h
    cases hs
    decide
  preimage h := by cases h

/-- One item satisfies, one dissatisfies, and the one that satisfies is not empty. -/
theorem one_item : fragment.type? = .ok type ∧ (fragment.satisfy material).witness = some [[5]] ∧
    fragment.dissatisfy = some [[]] ∧ fragment.dissatisfy.isSome = true ∧
    [[5]].length = 1 ∧ [([] : Bytes)].length = 1 ∧
    ∃ top : Bytes, [[5]].getLast? = some top ∧ top ≠ [] := by
  have ht : fragment.type? = .ok type := by decide
  have hs : (fragment.satisfy material).witness = some [[5]] := by decide
  have hd : fragment.dissatisfy = some [[]] := rfl
  obtain ⟨hdis, hshape, htop⟩ := witnesses_as_typed ht substantial
  exact ⟨ht, hs, hd, hdis.mpr rfl, (hshape _ (.inl hs)).2 rfl, (hshape _ (.inr hd)).2 rfl,
    htop rfl _ hs⟩

end SkippableKey

end Taproot.Miniscript
