import Taproot.Proofs.Miniscript.Predicates
import Taproot.Proofs.Miniscript.ThresholdScan

/-! # Requests in order

A fragment is asked from left to right, and nothing in it is asked twice: the alternatives of a
disjunction ask different parts, and a threshold keeps what its branches answered.
-/
namespace Taproot.Miniscript

open scoped List

/-! ## Outcomes -/

namespace Outcome

variable {x y : Outcome} {rs rs' : List Request}

theorem requests_both (hx : x.requests <+ rs) (hy : y.requests <+ rs') :
    (x.both y).requests <+ rs ++ rs' := hx.append hy

theorem requests_orElse (hx : x.requests <+ rs) (hy : y.requests <+ rs') :
    (x.orElse y).requests <+ rs ++ rs' := by
  obtain ⟨_ | w, asked⟩ := x
  · exact hx.append hy
  · exact hx.trans (List.sublist_append_left rs rs')

theorem requests_andThen (hx : x.requests <+ rs) (hy : y.requests <+ rs') :
    (x.andThen y).requests <+ rs ++ rs' := by
  obtain ⟨_ | w, asked⟩ := x
  · exact hx.trans (List.sublist_append_left rs rs')
  · exact hx.append hy

end Outcome

/-! ## Signatures of several keys -/

variable {m : Material}

theorem requests_signEach (missing : Nat) (keys : List Bytes) :
    (signEach m missing keys).2.2 <+ keys.map .sign := by
  fun_induction signEach m missing keys with
  | case1 => exact List.Sublist.refl _
  | case2 key keys items left asked he ih =>
    rw [he] at ih
    exact ih.cons _
  | case3 n key keys signature hm items left asked he ih
  | case4 n key keys hm items left asked he ih =>
    rw [he] at ih
    exact ih.cons_cons _

theorem requests_satisfyMulti (k : Int) (keys : List Bytes) :
    (satisfyMulti m k keys).requests <+ keys.map .sign := by
  have h := requests_signEach (m := m) k.toNat keys
  unfold satisfyMulti
  split <;> rename_i he <;> rwa [he] at h

/-! ## All fragments -/

namespace Fragment

theorem requests_branches {xs : List Fragment}
    (h : ∀ x ∈ xs, (x.satisfy m).requests <+ x.predicates) :
    ((branches m xs).flatMap fun b => b.satisfied.requests) <+ predicatesAll xs := by
  induction xs with
  | nil => exact List.Sublist.refl _
  | cons x xs ih =>
    rw [branches, List.flatMap_cons, predicatesAll]
    exact (h x List.mem_cons_self).append (ih fun y hy => h y (List.mem_cons_of_mem x hy))

theorem HasType.requests_satisfy {f : Fragment} {t : ExprType} (ht : HasType f t) :
    (f.satisfy m).requests <+ f.predicates := by
  induction ht with
  | just | key | image | after | older => exact List.Sublist.refl _
  | multi => exact requests_satisfyMulti _ _
  | andV _ _ _ ihx ihy | andB _ _ _ ihx ihy => exact Outcome.requests_both ihx ihy
  | orB _ _ _ ihx ihz | orC _ _ _ ihx ihz | orD _ _ _ ihx ihz | orI _ _ _ ihx ihz =>
    rw [satisfy, predicates]
    exact Outcome.requests_orElse ihx ihz
  | andOr _ _ _ _ ihx ihy ihz =>
    rw [satisfy, predicates]
    exact Outcome.requests_orElse (Outcome.requests_andThen ihx ihy) ihz
  | @thresh k bs t hb h ih =>
    -- only where each branch can be left out does the search ask as a single pass does
    have ht := HasType.thresh hb h
    obtain ⟨⟨-, hk⟩, -⟩ := ExprType.thresh_eq_ok h
    have hl : k ≤ (Fragment.branches m (bs.map Prod.fst)).length := by
      simpa [length_branches] using hk
    rw [satisfy, satisfyThreshold_eq_scan hl (ht.isSome_dissatisfied m), predicates]
    refine (Threshold.requests_scan _ _ _).sublist.trans (requests_branches fun x hx => ?_)
    obtain ⟨p, hp, rfl⟩ := List.mem_map.mp hx
    exact ih p hp
  | @wrap letter x _ _ _ _ ih =>
    rw [satisfy, predicates]
    cases letter <;> exact ih

end Fragment

/-! ## Keys and images -/

def Request.key? : Request → Option Bytes
  | .sign key => some key
  | .preimage _ | .older _ | .after _ => none

def Request.image? : Request → Option Bytes
  | .preimage image => some image
  | .sign _ | .older _ | .after _ => none

namespace Fragment

/-- The predicates name the keys and the images in the order in which they appear. -/
theorem filterMap_predicates (f : Fragment) :
    f.predicates.filterMap Request.key? = f.keys ∧
      f.predicates.filterMap Request.image? = f.images := by
  induction f with
  | just | key | image | after | older => exact ⟨rfl, rfl⟩
  | multi k ks =>
    simp only [predicates, keys, images, List.filterMap_map]
    exact ⟨List.filterMap_some, List.filterMap_none ks⟩
  | andV x y ihx ihy | andB x y ihx ihy | orB x y ihx ihy | orC x y ihx ihy | orD x y ihx ihy
  | orI x y ihx ihy => simp [predicates, keys, images, ihx, ihy]
  | andOr x y z ihx ihy ihz => simp [predicates, keys, images, ihx, ihy, ihz]
  | thresh k xs ih =>
    rw [predicates, keys, images]
    induction xs with
    | nil => exact ⟨rfl, rfl⟩
    | cons x xs ihs =>
      have hx := ih x List.mem_cons_self
      have hxs := ihs fun y hy => ih y (List.mem_cons_of_mem x hy)
      simp [predicatesAll, keysAll, imagesAll, hx, hxs]
  | wrap w x ih => exact ih

end Fragment
end Taproot.Miniscript
