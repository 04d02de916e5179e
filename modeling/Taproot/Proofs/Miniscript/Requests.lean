import Mathlib.Data.List.Forall2
import Taproot.Proofs.Miniscript.Witnesses

/-! # What a satisfaction was made from

A satisfaction depends on a material only through the requests that it made. Its witness therefore has
a derivation in which each signature and each preimage is one that was asked for.
-/
namespace Taproot.Miniscript

/-- Both materials answer the request alike. -/
def Material.Agrees (m m' : Material) : Request → Prop
  | .sign key => m'.sign key = m.sign key
  | .preimage image => m'.preimage image = m.preimage image
  | .older height => m'.older height = m.older height
  | .after height => m'.after height = m.after height

/-- The material without what is not among the requests. -/
def Material.within (m : Material) (rs : List Request) : Material where
  sign key := if .sign key ∈ rs then m.sign key else none
  preimage image := if .preimage image ∈ rs then m.preimage image else none
  older height := decide (.older height ∈ rs) && m.older height
  after height := decide (.after height ∈ rs) && m.after height

theorem Material.agrees_within {m : Material} {rs : List Request} {r : Request} (hr : r ∈ rs) :
    m.Agrees (m.within rs) r := by
  cases r <;> simp [Material.Agrees, Material.within, hr]

/-! ## Thresholds -/

variable {P : Request → Prop} {bs bs' : List Branch}

/-- The branches are the same, or a request of the first is one of which nothing is known. -/
structure Branch.Alike (P : Request → Prop) (b b' : Branch) : Prop where
  satisfied : (∀ r ∈ b.satisfied.requests, P r) → b'.satisfied = b.satisfied
  dissatisfied : b'.dissatisfied = b.dissatisfied

namespace Threshold

/-- Something is known of all that was requested by the branches that were asked. -/
def Noted (P : Request → Prop) (bs : List Branch) (asked : List Bool) : Prop :=
  List.Forall₂ (fun b a => a = true → ∀ r ∈ b.satisfied.requests, P r) bs asked

theorem restDissatisfied_alike (h : List.Forall₂ (Branch.Alike P) bs bs') (cs : List Bool) :
    restDissatisfied bs' cs = restDissatisfied bs cs := by
  induction h generalizing cs with
  | nil => rfl
  | cons hb _ ih =>
    cases cs with
    | nil => rfl
    | cons c cs => rw [restDissatisfied, restDissatisfied, hb.dissatisfied, ih]

/-- A choice is asked alike, and where all chosen branches were found, so is what it gives. -/
theorem askChosen_alike (h : List.Forall₂ (Branch.Alike P) bs bs') {cs as : List Bool}
    (hn : Noted P bs as) (hr : ∀ r ∈ (askChosen bs cs as).2.2, P r) :
    askChosen bs' cs as = askChosen bs cs as ∧ Noted P bs (askChosen bs cs as).2.1 ∧
      ((askChosen bs cs as).1 = true → assemble bs' cs = assemble bs cs) := by
  induction h generalizing cs as with
  | nil =>
    cases hn
    simp [askChosen, assemble, Noted]
  | @cons b b' bs bs' hb h ih =>
    cases hn with
    | @cons _ a _ as ha hn =>
      cases cs with
      | nil => exact ⟨by simp [askChosen], .cons ha hn, fun _ => by simp [assemble]⟩
      | cons c cs =>
        cases c with
        | false =>
          rw [askChosen] at hr
          obtain ⟨he, hn', hs⟩ := ih hn hr
          simp only [askChosen, he, assemble, hb.dissatisfied, Bool.false_eq_true, ↓reduceIte]
          exact ⟨trivial, .cons ha hn', fun hf => by rw [hs hf]⟩
        | true =>
          have hP : ∀ r ∈ b.satisfied.requests, P r := by
            cases a with
            | true => exact ha rfl
            | false =>
              intro r hm
              refine hr r ?_
              rw [askChosen]
              split <;> simp [hm]
          have hsat := hb.satisfied hP
          by_cases hw : b.satisfied.witness.isSome = true
          · have hr' : ∀ r ∈ (askChosen bs cs as).2.2, P r := by
              intro r hm
              refine hr r ?_
              simp [askChosen, hw, hm]
            obtain ⟨he, hn', hs⟩ := ih hn hr'
            simp only [askChosen, hsat, hw, he, assemble, ↓reduceIte]
            exact ⟨trivial, .cons (fun _ => hP) hn', fun hf => by rw [hs hf]⟩
          · simp only [askChosen, hsat, hw, assemble, Bool.false_eq_true, ↓reduceIte]
            exact ⟨trivial, .cons (fun _ => hP) hn, fun hf => absurd hf (by simp)⟩

theorem tryChoice_alike (h : List.Forall₂ (Branch.Alike P) bs bs') {cs : List Bool} {s : Search}
    (hn : Noted P bs s.asked) (hr : ∀ r ∈ (tryChoice bs cs s).2.requests, P r) :
    tryChoice bs' cs s = tryChoice bs cs s ∧ Noted P bs (tryChoice bs cs s).2.asked := by
  unfold tryChoice at hr ⊢
  rw [restDissatisfied_alike h]
  split at hr
  · rename_i hrest
    have hr' : ∀ r ∈ (askChosen bs cs s.asked).2.2, P r := fun r hm =>
      hr r (List.mem_append_right _ hm)
    obtain ⟨he, hn', hs⟩ := askChosen_alike h hn hr'
    rw [if_pos hrest, if_pos hrest, he]
    refine ⟨?_, hn'⟩
    by_cases hf : (askChosen bs cs s.asked).1 = true
    · simp only [hf, ↓reduceIte, hs hf]
    · simp only [hf, Bool.false_eq_true, ↓reduceIte]
  · rename_i hrest
    rw [if_neg hrest, if_neg hrest]
    exact ⟨rfl, hn⟩

/-- Nothing that was requested is forgotten. -/
theorem mem_requests_search {n k : Nat} {chosen : List Bool} {s : Search} {r : Request}
    (hr : r ∈ s.requests) : r ∈ (search bs n k chosen s).2.requests := by
  fun_induction search bs n k chosen s with
  | case1 chosen s =>
    unfold tryChoice
    split
    · exact List.mem_append_left _ hr
    · exact hr
  | case2 => exact hr
  | case3 n chosen s ih => exact ih hr
  | case4 => exact hr
  | case5 n k chosen s hk v t he ih =>
    rw [he] at ih
    exact ih hr
  | case6 n k chosen s hk t he ih₁ ih₂ =>
    rw [he] at ih₁
    exact ih₂ (ih₁ hr)

theorem search_alike (h : List.Forall₂ (Branch.Alike P) bs bs') {n k : Nat} {chosen : List Bool}
    {s : Search} (hn : Noted P bs s.asked) (hr : ∀ r ∈ (search bs n k chosen s).2.requests, P r) :
    search bs' n k chosen s = search bs n k chosen s ∧
      Noted P bs (search bs n k chosen s).2.asked := by
  fun_induction search bs n k chosen s with
  | case1 chosen s =>
    rw [search]
    exact tryChoice_alike h hn hr
  | case2 => exact ⟨by rw [search], hn⟩
  | case3 n chosen s ih =>
    rw [search]
    exact ih hn hr
  | case4 n k chosen s hk => exact ⟨by rw [search, if_pos hk], hn⟩
  | case5 n k chosen s hk v t he ih =>
    rw [he] at ih
    obtain ⟨hs, hn'⟩ := ih hn hr
    exact ⟨by rw [search, if_neg hk, hs], hn'⟩
  | case6 n k chosen s hk t he ih₁ ih₂ =>
    rw [he] at ih₁
    obtain ⟨hs₁, hn₁⟩ := ih₁ hn fun r hm => hr r (mem_requests_search hm)
    obtain ⟨hs₂, hn₂⟩ := ih₂ hn₁ hr
    refine ⟨?_, hn₂⟩
    rw [search, if_neg hk, hs₁]
    exact hs₂

theorem noted_start (bs : List Branch) : Noted P bs (bs.map fun _ => false) := by
  rw [Noted, List.forall₂_map_right_iff, List.forall₂_same]
  simp

end Threshold

theorem satisfyThreshold_alike {k : Int} (h : List.Forall₂ (Branch.Alike P) bs bs')
    (hr : ∀ r ∈ (satisfyThreshold k bs).requests, P r) :
    satisfyThreshold k bs' = satisfyThreshold k bs := by
  have hstart : bs'.map (fun _ => false) = bs.map fun _ => false := by
    rw [List.map_const', List.map_const', h.length_eq]
  unfold satisfyThreshold at hr ⊢
  dsimp only at hr ⊢
  rw [hstart, ← h.length_eq, (Threshold.search_alike h (Threshold.noted_start bs) hr).1]

/-! ## Fragments -/

variable {m m' : Material}

theorem signEach_congr {missing : Nat} {keys : List Bytes}
    (h : ∀ r ∈ (signEach m missing keys).2.2, m.Agrees m' r) :
    signEach m' missing keys = signEach m missing keys := by
  fun_induction signEach m missing keys with
  | case1 missing => cases missing <;> rfl
  | case2 key keys items left asked he ih =>
    rw [he] at ih
    rw [signEach, ih h]
  | case3 n key keys signature hm items left asked he ih =>
    rw [he] at ih
    have hk : m'.sign key = m.sign key := h (.sign key) List.mem_cons_self
    rw [signEach, hk, hm, ih fun r hr => h r (List.mem_cons_of_mem _ hr)]
  | case4 n key keys hm items left asked he ih =>
    rw [he] at ih
    have hk : m'.sign key = m.sign key := h (.sign key) List.mem_cons_self
    rw [signEach, hk, hm, ih fun r hr => h r (List.mem_cons_of_mem _ hr)]

theorem satisfyMulti_congr {k : Int} {keys : List Bytes}
    (h : ∀ r ∈ (satisfyMulti m k keys).requests, m.Agrees m' r) :
    satisfyMulti m' k keys = satisfyMulti m k keys := by
  have he : signEach m' k.toNat keys = signEach m k.toNat keys := by
    refine signEach_congr fun r hr => h r ?_
    unfold satisfyMulti
    split
    · rename_i he
      rwa [he] at hr
    · rename_i he
      rwa [he] at hr
  rw [satisfyMulti, satisfyMulti, he]

namespace Outcome

variable {x x' y y' : Outcome}

theorem both_congr (hx : (∀ r ∈ x.requests, P r) → x' = x) (hy : (∀ r ∈ y.requests, P r) → y' = y)
    (h : ∀ r ∈ (x.both y).requests, P r) : x'.both y' = x.both y := by
  rw [hx fun r hr => h r (List.mem_append_left _ hr),
    hy fun r hr => h r (List.mem_append_right _ hr)]

theorem orElse_congr (hx : (∀ r ∈ x.requests, P r) → x' = x)
    (hy : (∀ r ∈ y.requests, P r) → y' = y) (h : ∀ r ∈ (x.orElse y).requests, P r) :
    x'.orElse y' = x.orElse y := by
  obtain ⟨_ | w, asked⟩ := x
  · rw [hx fun r hr => h r (List.mem_append_left _ hr),
      hy fun r hr => h r (List.mem_append_right _ hr)]
  · rw [hx h]
    rfl

theorem andThen_congr (hx : (∀ r ∈ x.requests, P r) → x' = x)
    (hy : (∀ r ∈ y.requests, P r) → y' = y) (h : ∀ r ∈ (x.andThen y).requests, P r) :
    x'.andThen y' = x.andThen y := by
  obtain ⟨_ | w, asked⟩ := x
  · rw [hx h]
    rfl
  · rw [hx fun r hr => h r (List.mem_append_left _ hr),
      hy fun r hr => h r (List.mem_append_right _ hr)]

theorem above_congr {below : Option Witness} (hx : (∀ r ∈ x.requests, P r) → x' = x)
    (h : ∀ r ∈ (x.above below).requests, P r) : x'.above below = x.above below := by
  rw [hx h]

theorem below_congr {above : Option Witness} (hx : (∀ r ∈ x.requests, P r) → x' = x)
    (h : ∀ r ∈ (x.below above).requests, P r) : x'.below above = x.below above := by
  rw [hx h]

end Outcome

theorem satisfyWrapped_congr {letter : Wrapper} {x x' : Outcome}
    (hx : (∀ r ∈ x.requests, P r) → x' = x)
    (h : ∀ r ∈ (Fragment.satisfyWrapped letter x).requests, P r) :
    Fragment.satisfyWrapped letter x' = Fragment.satisfyWrapped letter x := by
  cases letter with
  | d => exact Outcome.below_congr hx h
  | a | s | c | v | j | n => exact hx h

theorem branches_alike {xs : List Fragment}
    (hx : ∀ x ∈ xs, (∀ r ∈ (x.satisfy m).requests, P r) → x.satisfy m' = x.satisfy m) :
    List.Forall₂ (Branch.Alike P) (Fragment.branches m xs) (Fragment.branches m' xs) := by
  induction xs with
  | nil => exact .nil
  | cons x xs ih =>
    exact .cons ⟨hx x List.mem_cons_self, rfl⟩
      (ih fun y hy => hx y (List.mem_cons_of_mem x hy))

/-- A material that answers the requests of a satisfaction alike gives the same satisfaction. -/
theorem Fragment.satisfy_congr {f : Fragment}
    (h : ∀ r ∈ (f.satisfy m).requests, m.Agrees m' r) : f.satisfy m' = f.satisfy m := by
  induction f with
  | just value => rfl
  | key k =>
    have hk : m'.sign k = m.sign k := h (.sign k) List.mem_cons_self
    rw [satisfy, satisfy, hk]
  | image d =>
    have hd : m'.preimage d = m.preimage d := h (.preimage d) List.mem_cons_self
    rw [satisfy, satisfy, hd]
  | after n =>
    have hn : m'.after n = m.after n := h (.after n) List.mem_cons_self
    rw [satisfy, satisfy, hn]
  | older n =>
    have hn : m'.older n = m.older n := h (.older n) List.mem_cons_self
    rw [satisfy, satisfy, hn]
  | multi k keys => exact satisfyMulti_congr h
  | andV x y ihx ihy => exact Outcome.both_congr ihx ihy h
  | andB x y ihx ihy => exact Outcome.both_congr ihx ihy h
  | orB x z ihx ihz =>
    exact Outcome.orElse_congr (Outcome.above_congr ihx) (Outcome.below_congr ihz) h
  | orC x z ihx ihz => exact Outcome.orElse_congr ihx (Outcome.below_congr ihz) h
  | orD x z ihx ihz => exact Outcome.orElse_congr ihx (Outcome.below_congr ihz) h
  | orI x z ihx ihz =>
    exact Outcome.orElse_congr (Outcome.below_congr ihx) (Outcome.below_congr ihz) h
  | andOr x y z ihx ihy ihz =>
    exact Outcome.orElse_congr (Outcome.andThen_congr ihx ihy) (Outcome.below_congr ihz) h
  | thresh k xs ih => exact satisfyThreshold_alike (branches_alike ih) h
  | wrap letter x ih => exact satisfyWrapped_congr ih h

/-- A witness is put together from what was requested for it. -/
theorem HasWitness.of_requests {f : Fragment} {w : Witness} (h : (f.satisfy m).witness = some w) :
    HasWitness (m.within (f.satisfy m).requests) f true w := by
  refine .of_satisfy ?_
  rw [Fragment.satisfy_congr (m := m) fun r hr => Material.agrees_within hr]
  exact h

end Taproot.Miniscript
