import Taproot.Proofs.Miniscript.RequestOrder

/-! # Requests in vain

A fragment that is not satisfied has asked for enough to tell why. Evaluation stops early, so that
what it asked for in vain is not all that is missing; still its formula is false wherever none of
that is granted, whatever else is.
-/
namespace Taproot.Miniscript

variable {m : Material} {g : Request → Bool}

/-- What `m` does not grant of a list of requests is not granted by `g` either. -/
def Material.Denies (m : Material) (g : Request → Bool) (rs : List Request) : Prop :=
  ∀ r ∈ rs, m.grants r = false → g r = false

theorem Material.denies_append {rs rs' : List Request} :
    m.Denies g (rs ++ rs') ↔ m.Denies g rs ∧ m.Denies g rs' := List.forall_mem_append

/-! ## Outcomes -/

namespace Outcome

/-- Where the outcome has no witness, what it asked for in vain makes a formula false. -/
def Explains (m : Material) (g : Request → Bool) (x : Outcome) (value : Bool) : Prop :=
  x.witness = none → m.Denies g x.requests → value = false

variable {x y : Outcome} {a b : Bool} {d : Option Witness}

theorem Explains.both (hx : x.Explains m g a) (hy : y.Explains m g b) :
    (x.both y).Explains m g (a && b) := by
  intro hn hd
  obtain ⟨hdx, hdy⟩ := Material.denies_append.mp hd
  cases hw : x.witness with
  | none => rw [hx hw hdx, Bool.false_and]
  | some w =>
    rw [witness_both, hw] at hn
    have hyn : y.witness = none := Threshold.eq_none_of_under hn
    rw [hy hyn hdy, Bool.and_false]

theorem Explains.orElse (hx : x.Explains m g a) (hy : y.Explains m g b) :
    (x.orElse y).Explains m g (a || b) := by
  intro hn hd
  obtain ⟨w, asked⟩ := x
  cases w with
  | some w => cases hn
  | none =>
    obtain ⟨hdx, hdy⟩ := Material.denies_append.mp hd
    rw [hx rfl hdx, hy hn hdy, Bool.or_false]

/-- The second part is asked only where the first is to be had; else the first explains alone. -/
theorem Explains.andThen (hx : x.Explains m g a) (hy : y.Explains m g b) :
    (x.andThen y).Explains m g (a && b) := by
  intro hn hd
  obtain ⟨w, asked⟩ := x
  cases w with
  | none => rw [hx rfl hd, Bool.false_and]
  | some w =>
    have hdy := (Material.denies_append.mp hd).2
    have hyn : y.witness = none := Threshold.eq_none_of_under hn
    rw [hy hyn hdy, Bool.and_false]

theorem Explains.above (hx : x.Explains m g a) (hs : d.isSome = true) :
    (x.above d).Explains m g a := by
  intro hn hd
  refine hx ?_ hd
  have h : (under d x.witness).isSome = (d.isSome && x.witness.isSome) := isSome_under
  change under d x.witness = none at hn
  rw [hn, hs] at h
  simpa using h.symm

theorem Explains.below (hx : x.Explains m g a) (hs : d.isSome = true) :
    (x.below d).Explains m g a := by
  intro hn hd
  refine hx ?_ hd
  have h : (under x.witness d).isSome = (x.witness.isSome && d.isSome) := isSome_under
  change under x.witness d = none at hn
  rw [hn, hs] at h
  simpa using h.symm

end Outcome

/-! ## Signatures of several keys -/

/-- As long as signatures are missing, every key is asked. -/
theorem requests_signEach_of_missing {missing : Nat} {keys : List Bytes}
    (h : (signEach m missing keys).2.1 ≠ 0) :
    (signEach m missing keys).2.2 = keys.map .sign := by
  fun_induction signEach m missing keys with
  | case1 => rfl
  | case2 key keys items left asked he ih =>
    have hl := missing_signEach (m := m) 0 keys
    rw [he] at hl
    change left = 0 - _ at hl
    change left ≠ 0 at h
    omega
  | case3 n key keys signature hs items left asked he ih
  | case4 n key keys hs items left asked he ih =>
    rw [he] at ih
    rw [List.map_cons, ← ih h]

theorem explains_multi (k : Int) (keys : List Bytes) :
    (satisfyMulti m k keys).Explains m g ((Fragment.multi k keys).holds g) := by
  intro hn hd
  have hk : ¬k ≤ keys.countP fun key => (m.sign key).isSome := by
    have h := isSome_satisfyMulti (m := m) k keys
    rw [hn] at h
    exact of_decide_eq_false h.symm
  have hl := missing_signEach (m := m) k.toNat keys
  have hr : (satisfyMulti m k keys).requests = keys.map .sign := by
    have hmissing : (signEach m k.toNat keys).2.1 ≠ 0 := by omega
    rw [← requests_signEach_of_missing hmissing]
    unfold satisfyMulti
    split <;> rename_i he <;> rw [he]
  have hle : keys.countP (fun key => g (.sign key)) ≤
      keys.countP fun key => (m.sign key).isSome := by
    apply List.countP_mono_left
    intro key hkey hg
    by_contra hs
    have hmem : Request.sign key ∈ (satisfyMulti m k keys).requests := by
      rw [hr]
      exact List.mem_map_of_mem hkey
    have hdenied : g (.sign key) = false := hd _ hmem (by simpa [Material.grants] using hs)
    rw [hg] at hdenied
    cases hdenied
  rw [Fragment.holds, decide_eq_false_iff_not]
  omega

/-! ## Thresholds -/

namespace Fragment

/-- A pass that ends without a witness has met more branches in vain than could be spared. -/
theorem countP_lt_of_scan {xs : List Fragment}
    (hx : ∀ x ∈ xs, (x.satisfy m).Explains m g (x.holds g))
    (hs : ∀ b ∈ branches m xs, b.dissatisfied.isSome = true) {missing spare : Nat}
    (hl : xs.length ≤ missing + spare)
    (hn : (Threshold.scan missing spare (branches m xs)).witness = none)
    (hd : m.Denies g (Threshold.scan missing spare (branches m xs)).requests) :
    xs.countP (holds g) < missing := by
  induction xs generalizing missing spare with
  | nil =>
    cases missing with
    | zero => cases hn
    | succ missing => exact Nat.succ_pos missing
  | cons x xs ih =>
    have hxs : ∀ y ∈ xs, (y.satisfy m).Explains m g (y.holds g) :=
      fun y hy => hx y (List.mem_cons_of_mem x hy)
    have hss : ∀ b ∈ branches m xs, b.dissatisfied.isSome = true :=
      fun b hb => hs b (List.mem_cons_of_mem _ hb)
    have hlen : xs.length + 1 ≤ missing + spare := hl
    cases missing with
    | zero =>
      have hleft : (Threshold.leaveOut (branches m (x :: xs))).isSome = true :=
        Threshold.isSome_leaveOut hs
      rw [Threshold.scan_zero] at hn
      change Threshold.leaveOut (branches m (x :: xs)) = none at hn
      rw [hn] at hleft
      cases hleft
    | succ missing =>
      rw [branches] at hn hd
      cases hw : (x.satisfy m).witness with
      | some w =>
        rw [Threshold.scan_satisfied hw] at hn hd
        rw [Outcome.witness_both, hw] at hn
        have hrest := ih hxs hss (by omega) (Threshold.eq_none_of_under hn)
          (Material.denies_append.mp hd).2
        rw [List.countP_cons]
        split <;> omega
      | none =>
        cases spare with
        | zero =>
          rw [Threshold.scan_stopped hw] at hd
          have hfalse := hx x List.mem_cons_self hw hd
          have hle := List.countP_le_length (p := holds g) (l := xs)
          rw [List.countP_cons_of_neg (by rw [hfalse]; exact Bool.false_ne_true)]
          omega
        | succ spare =>
          rw [Threshold.scan_spared hw] at hn hd
          obtain ⟨hdx, hdxs⟩ := Material.denies_append.mp hd
          have hfalse := hx x List.mem_cons_self hw hdx
          obtain ⟨u, hu⟩ := Option.isSome_iff_exists.mp (hs _ List.mem_cons_self)
          rw [Outcome.witness_both, hu] at hn
          have hrest := ih hxs hss (by omega) (Threshold.eq_none_of_under hn) hdxs
          rw [List.countP_cons_of_neg (by rw [hfalse]; exact Bool.false_ne_true)]
          exact hrest

/-! ## All fragments -/

theorem HasType.explains {f : Fragment} {t : ExprType} (ht : HasType f t) :
    (f.satisfy m).Explains m g (f.holds g) := by
  induction ht with
  | just value =>
    intro hn hd
    cases value with
    | false => rfl
    | true => cases hn
  | key k | image k =>
    intro hn hd
    refine hd _ List.mem_cons_self ?_
    simpa [satisfy, Material.grants] using hn
  | after n | older n =>
    intro hn hd
    refine hd _ List.mem_cons_self ?_
    simpa [satisfy, Material.grants] using hn
  | multi => exact explains_multi _ _
  | andV _ _ _ ihx ihy | andB _ _ _ ihx ihy => exact ihx.both ihy
  | orB hx hz h ihx ihz =>
    obtain ⟨⟨-, hdx⟩, ⟨-, hdz⟩, -⟩ := ExprType.orB_eq_ok h
    exact (ihx.above (hz.isSome_dissatisfy.trans hdz)).orElse
      (ihz.below (hx.isSome_dissatisfy.trans hdx))
  | orC hx hz h ihx ihz =>
    obtain ⟨⟨-, hd, -⟩, -, -⟩ := ExprType.orC_eq_ok h
    exact ihx.orElse (ihz.below (hx.isSome_dissatisfy.trans hd))
  | orD hx hz h ihx ihz =>
    obtain ⟨⟨-, hd, -⟩, -, -⟩ := ExprType.orD_eq_ok h
    exact ihx.orElse (ihz.below (hx.isSome_dissatisfy.trans hd))
  | orI _ _ _ ihx ihz => exact (ihx.below rfl).orElse (ihz.below rfl)
  | andOr hx hy hz h ihx ihy ihz =>
    obtain ⟨⟨-, hd, -⟩, -, -⟩ := ExprType.andOr_eq_ok h
    exact (ihx.andThen ihy).orElse (ihz.below (hx.isSome_dissatisfy.trans hd))
  | @thresh k bs t hb h ih =>
    intro hn hd
    have hs := (HasType.thresh hb h).isSome_dissatisfied m
    obtain ⟨⟨-, hk⟩, -⟩ := ExprType.thresh_eq_ok h
    have hk : k ≤ (Fragment.branches m (bs.map Prod.fst)).length := by
      simpa [length_branches] using hk
    have hx : ∀ x ∈ bs.map Prod.fst, (x.satisfy m).Explains m g (x.holds g) := by
      intro x hx
      obtain ⟨p, hp, rfl⟩ := List.mem_map.mp hx
      exact ih p hp
    rw [satisfy, satisfyThreshold_eq_scan hk hs] at hn hd
    have hlt := countP_lt_of_scan hx hs (by rw [length_branches] at hk ⊢; omega) hn hd
    rw [holds, countHolding_eq, decide_eq_false_iff_not]
    omega
  | @wrap letter x _ _ _ _ ih =>
    rw [satisfy, holds]
    cases letter with
    | d => exact ih.below rfl
    | a | s | c | v | j | n => exact ih

end Fragment

/-- What a fragment asked for in vain is a cut: a material that grants none of it does not satisfy the
fragment either. -/
theorem Typed.witness_eq_none_of_denies {x : Typed} {m' : Material}
    (hn : (x.fragment.satisfy m).witness = none)
    (hd : m.Denies m'.grants (x.fragment.satisfy m).requests) :
    (x.fragment.satisfy m').witness = none := by
  have hfalse := (Fragment.HasType.of_type? x.typed).explains hn hd
  have h := x.isSome_satisfy (m := m')
  rw [hfalse] at h
  simpa using h

end Taproot.Miniscript
