import Taproot.Proofs.Miniscript.Choices
import Taproot.Proofs.Miniscript.Typing

/-! # Derivations of witnesses

How the witness of a fragment is put together from those of its parts, without the order in which
the parts are tried. What satisfies or dissatisfies a fragment has a derivation.
-/
namespace Taproot.Miniscript

/-- What is listed first comes on top. -/
def stackUp (ws : List Witness) : Witness := ws.reverse.flatten

@[simp] theorem stackUp_nil : stackUp [] = [] := rfl

@[simp] theorem stackUp_cons (w : Witness) (ws : List Witness) :
    stackUp (w :: ws) = stackUp ws ++ w := by
  simp [stackUp]

/-- A branch of a threshold with its part of the witness. -/
structure Part where
  fragment : Fragment
  satisfied : Bool
  witness : Witness

/-- A key with the signature that was made for it, if any. -/
structure Vote where
  key : Bytes
  signature : Option Bytes

def Vote.item (v : Vote) : Bytes := v.signature.getD falseItem

/-- `HasWitness m f b w`: where `b` is true, `w` satisfies `f` with what `m` has at hand; where it is
false, `w` dissatisfies `f`. -/
inductive HasWitness (m : Material) : Fragment → Bool → Witness → Prop
  | just (b : Bool) : HasWitness m (.just b) b []
  | sign {k s : Bytes} : m.sign k = some s → HasWitness m (.key k) true [s]
  | noSign (k : Bytes) : HasWitness m (.key k) false [falseItem]
  | preimage {h p : Bytes} : m.preimage h = some p → HasWitness m (.image h) true [p]
  | noPreimage (h : Bytes) : HasWitness m (.image h) false [List.replicate 32 0]
  | after {n : Int} : m.after n = true → HasWitness m (.after n) true []
  | older {n : Int} : m.older n = true → HasWitness m (.older n) true []
  | multi {k : Int} {votes : List Vote} (b : Bool) :
    (∀ v ∈ votes, ∀ s, v.signature = some s → m.sign v.key = some s) →
    votes.countP (·.signature.isSome) = (if b then k.toNat else 0) →
    HasWitness m (.multi k (votes.map Vote.key)) b (votes.map Vote.item).reverse
  | andV {x y : Fragment} {wx wy : Witness} : HasWitness m x true wx → HasWitness m y true wy →
    HasWitness m (.andV x y) true (wy ++ wx)
  | andB {x y : Fragment} {b : Bool} {wx wy : Witness} : HasWitness m x b wx →
    HasWitness m y b wy → HasWitness m (.andB x y) b (wy ++ wx)
  | orB {x z : Fragment} {b₁ b₂ : Bool} {wx wz : Witness} : HasWitness m x b₁ wx →
    HasWitness m z b₂ wz → HasWitness m (.orB x z) (b₁ || b₂) (wz ++ wx)
  | orCFirst {x z : Fragment} {wx : Witness} : HasWitness m x true wx →
    HasWitness m (.orC x z) true wx
  | orCSecond {x z : Fragment} {wx wz : Witness} : HasWitness m x false wx →
    HasWitness m z true wz → HasWitness m (.orC x z) true (wz ++ wx)
  | orDFirst {x z : Fragment} {wx : Witness} : HasWitness m x true wx →
    HasWitness m (.orD x z) true wx
  | orDSecond {x z : Fragment} {b : Bool} {wx wz : Witness} : HasWitness m x false wx →
    HasWitness m z b wz → HasWitness m (.orD x z) b (wz ++ wx)
  | orIFirst {x z : Fragment} {b : Bool} {wx : Witness} : HasWitness m x b wx →
    HasWitness m (.orI x z) b (wx ++ [trueItem])
  | orISecond {x z : Fragment} {b : Bool} {wz : Witness} : HasWitness m z b wz →
    HasWitness m (.orI x z) b (wz ++ [falseItem])
  | andOrThen {x y z : Fragment} {wx wy : Witness} : HasWitness m x true wx →
    HasWitness m y true wy → HasWitness m (.andOr x y z) true (wy ++ wx)
  | andOrElse {x y z : Fragment} {b : Bool} {wx wz : Witness} : HasWitness m x false wx →
    HasWitness m z b wz → HasWitness m (.andOr x y z) b (wz ++ wx)
  | thresh {k : Int} {parts : List Part} (b : Bool) :
    (∀ p ∈ parts, HasWitness m p.fragment p.satisfied p.witness) →
    parts.countP (·.satisfied) = (if b then k.toNat else 0) →
    HasWitness m (.thresh k (parts.map Part.fragment)) b (stackUp (parts.map Part.witness))
  | wrapD {x : Fragment} {w : Witness} : HasWitness m x true w →
    HasWitness m (.wrap .d x) true (w ++ [trueItem])
  | wrapNot {letter : Wrapper} (x : Fragment) : letter = .d ∨ letter = .j →
    HasWitness m (.wrap letter x) false [falseItem]
  | wrap {letter : Wrapper} {x : Fragment} {b : Bool} {w : Witness} : letter ≠ .d →
    (b = false → letter ≠ .v ∧ letter ≠ .j) → HasWitness m x b w →
    HasWitness m (.wrap letter x) b w

namespace Outcome

variable {x y : Outcome} {w : Witness}

theorem witness_orElse : (x.orElse y).witness = x.witness.or y.witness := by
  obtain ⟨_ | _, _⟩ := x <;> rfl

theorem witness_andThen : (x.andThen y).witness = under y.witness x.witness := by
  obtain ⟨_ | _, _⟩ := x
  · exact (under_none_right _).symm
  · rfl

theorem witness_both : (x.both y).witness = under y.witness x.witness := rfl

end Outcome

variable {m : Material}

/-! ## Signatures of several keys -/

/-- The votes that give the items of `signEach`. -/
theorem exists_votes (missing : Nat) (keys : List Bytes) :
    ∃ votes : List Vote, votes.map Vote.key = keys ∧
      votes.map Vote.item = (signEach m missing keys).1 ∧
      (∀ v ∈ votes, ∀ s, v.signature = some s → m.sign v.key = some s) ∧
      votes.countP (·.signature.isSome) + (signEach m missing keys).2.1 = missing := by
  fun_induction signEach m missing keys with
  | case1 missing => exact ⟨[], rfl, rfl, by simp, by simp⟩
  | case2 key keys items left asked he ih =>
    obtain ⟨votes, hk, hi, hs, hc⟩ := ih
    rw [he] at hi hc
    exact ⟨⟨key, none⟩ :: votes, by simp [hk], by simp [hi, Vote.item],
      List.forall_mem_cons.mpr ⟨nofun, hs⟩, by simpa using hc⟩
  | case3 n key keys signature hm items left asked he ih =>
    obtain ⟨votes, hk, hi, hs, hc⟩ := ih
    rw [he] at hi hc
    have hnew : ∀ s, some signature = some s → m.sign key = some s := fun s hs => hs ▸ hm
    refine ⟨⟨key, some signature⟩ :: votes, by simp [hk], by simp [hi, Vote.item],
      List.forall_mem_cons.mpr ⟨hnew, hs⟩, ?_⟩
    simp only [List.countP_cons, Option.isSome_some, ↓reduceIte] at hc ⊢
    omega
  | case4 n key keys hm items left asked he ih =>
    obtain ⟨votes, hk, hi, hs, hc⟩ := ih
    rw [he] at hi hc
    exact ⟨⟨key, none⟩ :: votes, by simp [hk], by simp [hi, Vote.item],
      List.forall_mem_cons.mpr ⟨nofun, hs⟩, by simpa using hc⟩

theorem HasWitness.of_satisfyMulti {k : Int} {keys : List Bytes} {w : Witness}
    (h : (satisfyMulti m k keys).witness = some w) : HasWitness m (.multi k keys) true w := by
  obtain ⟨votes, hk, hi, hs, hc⟩ := exists_votes (m := m) k.toNat keys
  unfold satisfyMulti at h
  split at h
  · rename_i items asked he
    cases h
    rw [he] at hi hc
    have hw := HasWitness.multi (k := k) true hs (by simpa using hc)
    rwa [hk, hi] at hw
  · cases h

theorem HasWitness.of_dissatisfyMulti (k : Int) (keys : List Bytes) :
    HasWitness m (.multi k keys) false (keys.map fun _ => falseItem) := by
  let votes : List Vote := keys.map fun key => ⟨key, none⟩
  have hw : HasWitness m (.multi k (votes.map Vote.key)) false (votes.map Vote.item).reverse :=
    .multi false (by simp [votes]) (by simp [votes, List.countP_map, Function.comp_def])
  have hk : votes.map Vote.key = keys := by simp [votes, Function.comp_def]
  have hi : (votes.map Vote.item).reverse = keys.map fun _ => falseItem := by
    simp [votes, Function.comp_def, Vote.item, List.map_const']
  rwa [hk, hi] at hw

/-! ## Branches of a threshold -/

/-- The witness of a choice comes apart into parts. -/
theorem exists_parts {xs : List Fragment} {cs : List Bool} {w : Witness}
    (hx : ∀ x ∈ xs, ∀ b ∈ cs, ∀ v, (if b then (x.satisfy m).witness else x.dissatisfy) = some v →
      HasWitness m x b v)
    (hl : cs.length = xs.length) (h : Threshold.assemble (Fragment.branches m xs) cs = some w) :
    ∃ parts : List Part, parts.map Part.fragment = xs ∧ parts.map Part.satisfied = cs ∧
      stackUp (parts.map Part.witness) = w ∧
      ∀ p ∈ parts, HasWitness m p.fragment p.satisfied p.witness := by
  induction xs generalizing cs w with
  | nil =>
    obtain rfl := List.length_eq_zero_iff.mp hl
    cases h
    exact ⟨[], rfl, rfl, rfl, by simp⟩
  | cons x xs ih =>
    cases cs with
    | nil => simp at hl
    | cons b cs =>
      simp only [Fragment.branches, Threshold.assemble, under_eq_some] at h
      obtain ⟨below, v, hb, hv, rfl⟩ := h
      obtain ⟨parts, hf, hc, rfl, hp⟩ := ih
        (fun y hy b hb => hx y (List.mem_cons_of_mem x hy) b (List.mem_cons_of_mem _ hb))
        (by simpa using hl) hb
      have hfirst := hx x List.mem_cons_self b List.mem_cons_self v hv
      exact ⟨⟨x, b, v⟩ :: parts, by simp [hf], by simp [hc], by simp,
        List.forall_mem_cons.mpr ⟨hfirst, hp⟩⟩

theorem HasWitness.of_choice {k : Int} {xs : List Fragment} {cs : List Bool} {w : Witness} (b : Bool)
    (hx : ∀ x ∈ xs, ∀ b ∈ cs, ∀ v, (if b then (x.satisfy m).witness else x.dissatisfy) = some v →
      HasWitness m x b v)
    (hl : cs.length = xs.length) (hc : cs.count true = if b then k.toNat else 0)
    (h : Threshold.assemble (Fragment.branches m xs) cs = some w) :
    HasWitness m (.thresh k xs) b w := by
  obtain ⟨parts, rfl, rfl, rfl, hp⟩ := exists_parts hx hl h
  refine .thresh b hp ?_
  rw [← hc, List.count_eq_countP, List.countP_map]
  exact List.countP_congr (by simp)

theorem assemble_dissatisfied (xs : List Fragment) :
    Threshold.assemble (Fragment.branches m xs) (List.replicate xs.length false) =
      Fragment.dissatisfyAll xs := by
  induction xs with
  | nil => rfl
  | cons x xs ih =>
    rw [Fragment.branches, List.length_cons, List.replicate_succ, Threshold.assemble, ih]
    rfl

theorem length_branches (xs : List Fragment) : (Fragment.branches m xs).length = xs.length := by
  induction xs with
  | nil => rfl
  | cons x xs ih => simp [Fragment.branches, ih]

/-! ## Wrappers -/

theorem HasWitness.of_satisfyWrapped {letter : Wrapper} {x : Fragment} {o : Outcome} {w : Witness}
    (hx : ∀ v, o.witness = some v → HasWitness m x true v)
    (h : (Fragment.satisfyWrapped letter o).witness = some w) :
    HasWitness m (.wrap letter x) true w := by
  cases letter with
  | d =>
    obtain ⟨v, t, hv, ht, rfl⟩ := under_eq_some.mp h
    cases ht
    exact .wrapD (hx v hv)
  | a | s | c | v | j | n => exact .wrap (by simp) (by simp) (hx w h)

theorem HasWitness.of_dissatisfyWrapped {letter : Wrapper} {x : Fragment} {o : Option Witness}
    {w : Witness} (hx : ∀ v, o = some v → HasWitness m x false v)
    (h : dissatisfyWrapped letter o = some w) : HasWitness m (.wrap letter x) false w := by
  cases letter with
  | v => cases h
  | d => cases h; exact .wrapNot x (Or.inl rfl)
  | j => cases h; exact .wrapNot x (Or.inr rfl)
  | a | s | c | n => exact .wrap (by simp) (by simp) (hx w h)

/-! ## Fragments -/

theorem HasWitness.of_dissatisfy {f : Fragment} {w : Witness} (h : f.dissatisfy = some w) :
    HasWitness m f false w := by
  induction f generalizing w with
  | just value =>
    cases value <;> cases h
    exact .just false
  | key k => cases h; exact .noSign k
  | image d => cases h; exact .noPreimage d
  | after | older | andV | orC => cases h
  | multi k keys => cases h; exact .of_dissatisfyMulti k keys
  | andB x y ihx ihy =>
    obtain ⟨wy, wx, hy, hx, rfl⟩ := under_eq_some.mp h
    exact .andB (ihx hx) (ihy hy)
  | orB x z ihx ihz =>
    obtain ⟨wz, wx, hz, hx, rfl⟩ := under_eq_some.mp h
    exact .orB (ihx hx) (ihz hz)
  | orD x z ihx ihz =>
    obtain ⟨wz, wx, hz, hx, rfl⟩ := under_eq_some.mp h
    exact .orDSecond (ihx hx) (ihz hz)
  | orI x z ihx ihz =>
    simp only [Fragment.dissatisfy] at h
    split at h
    · rename_i v hv
      cases h
      obtain ⟨wx, t, hx, ht, rfl⟩ := under_eq_some.mp hv
      cases ht
      exact .orIFirst (ihx hx)
    · obtain ⟨wz, t, hz, ht, rfl⟩ := under_eq_some.mp h
      cases ht
      exact .orISecond (ihz hz)
  | andOr x y z ihx ihy ihz =>
    obtain ⟨wz, wx, hz, hx, rfl⟩ := under_eq_some.mp h
    exact .andOrElse (ihx hx) (ihz hz)
  | thresh k xs ih =>
    rw [Fragment.dissatisfy, ← assemble_dissatisfied (m := m)] at h
    refine .of_choice false ?_ (by simp) (by simp [List.count_replicate]) h
    intro x hx b hb v hv
    obtain rfl := List.eq_of_mem_replicate hb
    exact ih x hx hv
  | wrap letter x ih => exact .of_dissatisfyWrapped (fun v hv => ih hv) h

theorem HasWitness.of_satisfy {f : Fragment} {w : Witness} (h : (f.satisfy m).witness = some w) :
    HasWitness m f true w := by
  induction f generalizing w with
  | just value =>
    cases value <;> cases h
    exact .just true
  | key k =>
    obtain ⟨s, hs, rfl⟩ := Option.map_eq_some_iff.mp h
    exact .sign hs
  | image d =>
    obtain ⟨p, hp, rfl⟩ := Option.map_eq_some_iff.mp h
    exact .preimage hp
  | after n =>
    cases hn : m.after n <;> simp [Fragment.satisfy, hn] at h
    subst h
    exact .after hn
  | older n =>
    cases hn : m.older n <;> simp [Fragment.satisfy, hn] at h
    subst h
    exact .older hn
  | multi k keys => exact .of_satisfyMulti h
  | andV x y ihx ihy =>
    obtain ⟨wy, wx, hy, hx, rfl⟩ := under_eq_some.mp h
    exact .andV (ihx hx) (ihy hy)
  | andB x y ihx ihy =>
    obtain ⟨wy, wx, hy, hx, rfl⟩ := under_eq_some.mp h
    exact .andB (ihx hx) (ihy hy)
  | orB x z ihx ihz =>
    rw [Fragment.satisfy, Outcome.witness_orElse, Option.or_eq_some_iff] at h
    rcases h with h | ⟨-, h⟩
    · obtain ⟨wz, wx, hz, hx, rfl⟩ := under_eq_some.mp h
      exact .orB (ihx hx) (.of_dissatisfy hz)
    · obtain ⟨wz, wx, hz, hx, rfl⟩ := under_eq_some.mp h
      exact .orB (.of_dissatisfy hx) (ihz hz)
  | orC x z ihx ihz =>
    rw [Fragment.satisfy, Outcome.witness_orElse, Option.or_eq_some_iff] at h
    rcases h with h | ⟨-, h⟩
    · exact .orCFirst (ihx h)
    · obtain ⟨wz, wx, hz, hx, rfl⟩ := under_eq_some.mp h
      exact .orCSecond (.of_dissatisfy hx) (ihz hz)
  | orD x z ihx ihz =>
    rw [Fragment.satisfy, Outcome.witness_orElse, Option.or_eq_some_iff] at h
    rcases h with h | ⟨-, h⟩
    · exact .orDFirst (ihx h)
    · obtain ⟨wz, wx, hz, hx, rfl⟩ := under_eq_some.mp h
      exact .orDSecond (.of_dissatisfy hx) (ihz hz)
  | orI x z ihx ihz =>
    rw [Fragment.satisfy, Outcome.witness_orElse, Option.or_eq_some_iff] at h
    rcases h with h | ⟨-, h⟩
    · obtain ⟨wx, t, hx, ht, rfl⟩ := under_eq_some.mp h
      cases ht
      exact .orIFirst (ihx hx)
    · obtain ⟨wz, t, hz, ht, rfl⟩ := under_eq_some.mp h
      cases ht
      exact .orISecond (ihz hz)
  | andOr x y z ihx ihy ihz =>
    rw [Fragment.satisfy, Outcome.witness_orElse, Option.or_eq_some_iff] at h
    rcases h with h | ⟨-, h⟩
    · rw [Outcome.witness_andThen] at h
      obtain ⟨wy, wx, hy, hx, rfl⟩ := under_eq_some.mp h
      exact .andOrThen (ihx hx) (ihy hy)
    · obtain ⟨wz, wx, hz, hx, rfl⟩ := under_eq_some.mp h
      exact .andOrElse (.of_dissatisfy hx) (ihz hz)
  | thresh k xs ih =>
    obtain ⟨cs, hl, hc, ha⟩ := exists_of_satisfyThreshold h
    refine .of_choice true ?_ (by rw [hl, length_branches]) hc ha
    intro x hx b _ v hv
    cases b
    · exact .of_dissatisfy hv
    · exact ih x hx hv
  | wrap letter x ih => exact .of_satisfyWrapped (fun v hv => ih hv) h

end Taproot.Miniscript
