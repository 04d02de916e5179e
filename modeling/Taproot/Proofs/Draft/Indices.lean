import Taproot.Draft.Slots

/-! # Entries by their indices

Entries are found under their indices and not by their places: what is found under an index and what
the entries are by ascending index does not depend on the order in which they were set. The first
gap is the least index that is missing.
-/
namespace Taproot.Slots

variable {α β : Type} {s t : Slots α} {i : Int} {a : α}

/-! ## What stands under an index -/

theorem get?_mapValues (f : α → β) (s : Slots α) (i : Int) :
    (s.mapValues f).get? i = (s.get? i).map f := by
  induction s with
  | nil => rfl
  | cons e rest ih =>
    obtain ⟨j, a⟩ := e
    change (if j = i then some (f a) else (Slots.mapValues f rest).get? i) = _
    rw [ih]
    by_cases h : j = i
    · simp [Slots.get?, h]
    · simp [Slots.get?, h]

theorem mem_of_get? (h : s.get? i = some a) : (i, a) ∈ s := by
  induction s with
  | nil => cases h
  | cons e rest ih =>
    obtain ⟨j, b⟩ := e
    by_cases hj : j = i
    · subst hj
      obtain rfl : b = a := by simpa [Slots.get?] using h
      exact List.mem_cons_self
    · rw [Slots.get?, if_neg hj] at h
      exact List.mem_cons_of_mem _ (ih h)

theorem has_iff : s.has i = true ↔ i ∈ s.map Prod.fst := by
  induction s with
  | nil => simp [has]
  | cons e rest ih =>
    obtain ⟨j, b⟩ := e
    rw [has] at ih ⊢
    rw [get?, List.map_cons, List.mem_cons]
    by_cases hj : j = i
    · simp [hj]
    · rw [if_neg hj, ih]
      simp [Ne.symm hj]

/-- The indices are different, and none is negative. -/
structure Indexed (s : Slots α) : Prop where
  once : (s.map Prod.fst).Nodup
  nonneg : ∀ e ∈ s, 0 ≤ e.1

theorem get?_eq_some (hn : (s.map Prod.fst).Nodup) : s.get? i = some a ↔ (i, a) ∈ s := by
  refine ⟨mem_of_get?, fun h => ?_⟩
  induction s with
  | nil => cases h
  | cons e rest ih =>
    obtain ⟨j, b⟩ := e
    obtain ⟨hj, hrest⟩ := List.nodup_cons.mp hn
    rw [get?]
    rcases List.mem_cons.mp h with he | h
    · cases he
      exact if_pos rfl
    · have hne : j ≠ i := fun heq => hj (heq ▸ List.mem_map.mpr ⟨(i, a), h, rfl⟩)
      rw [if_neg hne, ih hrest h]

theorem get?_eq_of_perm (h : s.Perm t) (hn : (s.map Prod.fst).Nodup) : s.get? = t.get? := by
  have hn' : (t.map Prod.fst).Nodup := (h.map Prod.fst).nodup_iff.mp hn
  funext i
  apply Option.ext
  intro a
  rw [get?_eq_some hn, get?_eq_some hn', h.mem_iff]

/-! ## Edits -/

theorem mem_set {e : Int × α} (h : e ∈ s.set i a) : e = (i, a) ∨ e ∈ s := by
  induction s with
  | nil => exact .inl (List.mem_singleton.mp h)
  | cons f rest ih =>
    obtain ⟨j, b⟩ := f
    rw [set] at h
    split at h
    · rename_i hj
      rcases List.mem_cons.mp h with rfl | h
      · exact .inl (by rw [hj])
      · exact .inr (List.mem_cons_of_mem _ h)
    · rcases List.mem_cons.mp h with rfl | h
      · exact .inr List.mem_cons_self
      · exact (ih h).imp_right (List.mem_cons_of_mem _)

theorem nodup_set (h : (s.map Prod.fst).Nodup) : ((s.set i a).map Prod.fst).Nodup := by
  induction s with
  | nil => exact List.pairwise_singleton _ i
  | cons f rest ih =>
    obtain ⟨j, b⟩ := f
    obtain ⟨hj, hrest⟩ := List.nodup_cons.mp h
    rw [set]
    split
    · exact List.nodup_cons.mpr ⟨hj, hrest⟩
    · rename_i hne
      refine List.nodup_cons.mpr ⟨fun hm => ?_, ih hrest⟩
      obtain ⟨e, he, rfl⟩ := List.mem_map.mp hm
      rcases mem_set he with rfl | he
      · exact hne rfl
      · exact hj (List.mem_map.mpr ⟨e, he, rfl⟩)

/-- Nothing else stands at the index that was set. -/
theorem mem_set_of_nodup (h : (s.map Prod.fst).Nodup) {e : Int × α} (he : e ∈ s.set i a) :
    e = (i, a) ∨ (e ∈ s ∧ e.1 ≠ i) := by
  rcases mem_set he with he' | hs
  · exact .inl he'
  · by_cases hi : e.1 = i
    · have hget := (get?_eq_some (nodup_set h)).mpr he
      rw [hi, get?_set_self] at hget
      exact .inl (Prod.ext hi (Option.some.inj hget).symm)
    · exact .inr ⟨hs, hi⟩

theorem nodup_remove (h : (s.map Prod.fst).Nodup) : ((s.remove i).map Prod.fst).Nodup :=
  h.sublist (List.filter_sublist.map Prod.fst)

namespace Indexed

theorem nil : Indexed ([] : Slots α) := ⟨List.nodup_nil, nofun⟩

theorem set (h : s.Indexed) (hi : 0 ≤ i) : (s.set i a).Indexed where
  once := nodup_set h.once
  nonneg e he := by
    rcases mem_set he with rfl | he
    · exact hi
    · exact h.nonneg e he

end Indexed

/-! ## Ascending indices -/

theorem sorted_perm (s : Slots α) : s.sorted.Perm s := List.mergeSort_perm s _

@[simp] theorem length_sorted (s : Slots α) : s.sorted.length = s.length := List.length_mergeSort s

theorem sorted_ascending (s : Slots α) : s.sorted.Pairwise fun e f => e.1 ≤ f.1 := by
  have h : s.sorted.Pairwise fun e f => decide (e.1 ≤ f.1) = true := List.pairwise_mergeSort
    (fun e f g hef hfg => by simp only [decide_eq_true_eq] at hef hfg ⊢; omega)
    (fun e f => by simp only [Bool.or_eq_true, decide_eq_true_eq]; omega) s
  exact h.imp of_decide_eq_true

theorem sorted_increasing (hn : (s.map Prod.fst).Nodup) :
    (s.sorted.map Prod.fst).Pairwise (· < ·) := by
  have hn' : (s.sorted.map Prod.fst).Nodup := ((sorted_perm s).map Prod.fst).nodup_iff.mpr hn
  have hle : (s.sorted.map Prod.fst).Pairwise (· ≤ ·) := List.pairwise_map.mpr (sorted_ascending s)
  exact hle.imp₂ (fun i j hij hne => by omega) hn'

/-- By ascending index the entries are the same, in whichever order they were set. -/
theorem sorted_eq_of_perm (h : s.Perm t) (hn : (s.map Prod.fst).Nodup) : s.sorted = t.sorted := by
  have hperm : s.sorted.Perm t.sorted := (sorted_perm s).trans (h.trans (sorted_perm t).symm)
  refine hperm.eq_of_pairwise (fun e f he hf hef hfe => ?_) (sorted_ascending s)
    (sorted_ascending t)
  -- two entries under one index are one entry
  have he' := (get?_eq_some hn).mpr ((sorted_perm s).mem_iff.mp he)
  have hf' := (get?_eq_some hn).mpr ((sorted_perm s).mem_iff.mp (hperm.mem_iff.mpr hf))
  have hi : e.1 = f.1 := Int.le_antisymm hef hfe
  rw [hi, hf'] at he'
  exact Prod.ext hi (Option.some.inj he').symm

/-! ## Gaps -/

theorem eq_of_firstGapFrom_eq_none {first j : Nat} {is : List Int} {i : Int}
    (h : firstGapFrom first is = none) (hj : is[j]? = some i) : i = (first + j : Nat) := by
  induction is generalizing first j with
  | nil => cases hj
  | cons i' rest ih =>
    rw [firstGapFrom] at h
    split at h
    · cases j with
      | zero =>
        obtain rfl := Option.some.inj hj
        assumption
      | succ j => rw [ih h hj]; omega
    · cases h

/-- A gap of ascending numbers: all from the first one on up to it are there, and it was passed. -/
structure Gap (first : Nat) (is : List Int) (gap : Nat) : Prop where
  first_le : first ≤ gap
  missing : (gap : Int) ∉ is
  passed : ∃ i ∈ is, (gap : Int) < i
  present : ∀ j : Nat, first ≤ j → j < gap → (j : Int) ∈ is

theorem gap_of_firstGapFrom_eq_some {first gap : Nat} {is : List Int} (hs : is.Pairwise (· < ·))
    (hf : ∀ i ∈ is, (first : Int) ≤ i) (h : firstGapFrom first is = some gap) :
    Gap first is gap := by
  induction is generalizing first with
  | nil => cases h
  | cons i rest ih =>
    obtain ⟨hi, hrest⟩ := List.pairwise_cons.mp hs
    rw [firstGapFrom] at h
    split at h
    · rename_i hfirst
      have hnext : ∀ k ∈ rest, ((first + 1 : Nat) : Int) ≤ k := by
        intro k hk
        have hlt := hi k hk
        omega
      obtain ⟨hle, hm, ⟨k, hk, hlt⟩, hp⟩ := ih hrest hnext h
      refine ⟨by omega, ?_, ⟨k, List.mem_cons_of_mem i hk, hlt⟩, fun j hj hjg => ?_⟩
      · rw [List.mem_cons, not_or]
        exact ⟨by omega, hm⟩
      · by_cases hj' : j = first
        · rw [hj', ← hfirst]
          exact List.mem_cons_self
        · exact List.mem_cons_of_mem i (hp j (by omega) hjg)
    · rename_i hne
      obtain rfl : first = gap := Option.some.inj h
      have hlt : (first : Int) < i := by
        have hle := hf i List.mem_cons_self
        omega
      refine ⟨Nat.le_refl _, ?_, ⟨i, List.mem_cons_self, hlt⟩, fun j hj hjg => by omega⟩
      rw [List.mem_cons, not_or]
      refine ⟨Ne.symm hne, fun hm => ?_⟩
      have hlt' := hi _ hm
      omega

/-! ## Filled from zero on -/

/-- The indices are those from zero on that are less than the number of entries, of which there is
one at least. -/
structure Filled (s : Slots α) : Prop where
  ne_nil : s ≠ []
  has_iff : ∀ i : Int, s.has i = true ↔ 0 ≤ i ∧ i < s.length

/-- The least index that is missing. -/
structure LacksFirst (s : Slots α) (k : Nat) : Prop where
  missing : s.has k = false
  present : ∀ j < k, s.has (j : Nat) = true

/-- An index that has to be filled first, if there is one. -/
def hole? (s : Slots α) : Option Nat := if s.isEmpty then some 0 else s.firstGap

theorem gap_of_firstGap (h : s.Indexed) {k : Nat} (hk : s.firstGap = some k) :
    Gap 0 (s.sorted.map Prod.fst) k := by
  refine gap_of_firstGapFrom_eq_some (sorted_increasing h.once) (fun i hi => ?_) hk
  obtain ⟨e, he, rfl⟩ := List.mem_map.mp hi
  exact h.nonneg e ((sorted_perm s).mem_iff.mp he)

theorem mem_sorted_indices : i ∈ s.sorted.map Prod.fst ↔ s.has i = true := by
  rw [has_iff]
  exact ((sorted_perm s).map Prod.fst).mem_iff

theorem lacksFirst_of_hole? (h : s.Indexed) {k : Nat} (hk : s.hole? = some k) : s.LacksFirst k := by
  unfold hole? at hk
  split at hk
  · rename_i hempty
    obtain rfl := List.isEmpty_iff.mp hempty
    cases hk
    exact ⟨rfl, nofun⟩
  · have hgap := gap_of_firstGap h hk
    refine ⟨?_, fun j hj => mem_sorted_indices.mp (hgap.present j (Nat.zero_le j) hj)⟩
    exact Bool.eq_false_iff.mpr (mt mem_sorted_indices.mpr hgap.missing)

theorem ne_nil_of_hole? (h : s.hole? = none) : s ≠ [] := by
  rintro rfl
  cases h

theorem hole?_eq_of_perm (h : s.Perm t) (hn : (s.map Prod.fst).Nodup) : s.hole? = t.hole? := by
  rw [hole?, hole?, h.isEmpty_eq, firstGap, firstGap, sorted_eq_of_perm h hn]

theorem index_of_hole? (h : s.hole? = none) {j : Nat} {e : Int × α} (hj : s.sorted[j]? = some e) :
    e.1 = j := by
  rw [hole?, if_neg (mt List.isEmpty_iff.mp (ne_nil_of_hole? h))] at h
  have hi : (s.sorted.map Prod.fst)[j]? = some e.1 := by rw [List.getElem?_map, hj]; rfl
  rw [eq_of_firstGapFrom_eq_none h hi, Nat.zero_add]

theorem hole?_eq_none (h : s.Indexed) : s.hole? = none ↔ s.Filled := by
  constructor
  · intro hk
    refine ⟨ne_nil_of_hole? hk, fun i => ?_⟩
    rw [← mem_sorted_indices]
    constructor
    · intro hi
      obtain ⟨e, he, rfl⟩ := List.mem_map.mp hi
      obtain ⟨j, hj⟩ := List.mem_iff_getElem?.mp he
      have hlt := (List.getElem?_eq_some_iff.mp hj).1
      rw [length_sorted] at hlt
      rw [index_of_hole? hk hj]
      omega
    · rintro ⟨hpos, hlt⟩
      obtain ⟨j, rfl⟩ := Int.eq_ofNat_of_zero_le hpos
      have hlength : j < s.sorted.length := by rw [length_sorted]; omega
      have hj : s.sorted[j]? = some s.sorted[j] := List.getElem?_eq_getElem hlength
      rw [← index_of_hole? hk hj]
      exact List.mem_map.mpr ⟨_, List.getElem_mem _, rfl⟩
  · intro hf
    rw [hole?, if_neg (mt List.isEmpty_iff.mp hf.ne_nil)]
    cases hgap : s.firstGap with
    | none => rfl
    | some k =>
      -- the gap was passed by an index that is too large
      obtain ⟨-, hm, ⟨i, hi, hlt⟩, -⟩ := gap_of_firstGap h hgap
      rw [mem_sorted_indices, hf.has_iff] at hm hi
      omega

/-- Where the indices are filled, the entries by ascending index are those under zero, one and so
on. -/
theorem get?_of_sorted (h : s.Indexed) (hf : s.Filled) {j : Nat} {e : Int × α}
    (hj : s.sorted[j]? = some e) : s.get? j = some e.2 := by
  rw [get?_eq_some h.once, ← index_of_hole? ((hole?_eq_none h).mpr hf) hj]
  exact (sorted_perm s).mem_iff.mp (List.mem_of_getElem? hj)

end Taproot.Slots
