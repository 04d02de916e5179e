import Taproot.Proofs.Hash.Windows
import Taproot.Proofs.Miniscript.Soundness

/-! # Dissatisfactions fail scripts

What dissatisfies a fragment of type `B` leaves its script with one false item and nothing set aside,
whatever the transaction is. The 32 zero bytes that stand in for an unknown preimage have a digest of
their own, and a fragment that names it is satisfied by them.
-/
namespace Taproot.Miniscript

open ScriptContext

variable {f : Fragment} {t : ExprType} {w : Witness}

/-- Nothing at hand: no key signs, no preimage is known and no timelock is reached. -/
def Material.bare : Material where
  sign _ := none
  preimage _ := none
  older _ := false
  after _ := false

theorem Material.honest_bare (c : ScriptContext) : Material.bare.Honest c where
  sign h := by cases h
  preimage h := by cases h
  older h := by cases h
  after h := by cases h

/-- A fragment that does not name the digest of the stand-in names no predicate that a dissatisfaction
could meet. -/
theorem Fragment.safe_predicates (hr : ∀ r ∈ f.predicates, r.InRange)
    (hz : sha256 (List.replicate 32 0) ∉ f.images) : ∀ r ∈ f.predicates, r.Safe := by
  refine fun r hr' => ⟨hr r hr', ?_⟩
  rintro rfl
  exact hz (Fragment.mem_images.mpr hr')

/-- What dissatisfies a fragment of type `B` runs its script to a single false item. -/
theorem dissatisfaction_fails (ht : f.type? = .ok t) (hb : t.base = .B)
    (hr : ∀ r ∈ f.predicates, r.InRange) (hz : sha256 (List.replicate 32 0) ∉ f.images)
    (hw : f.dissatisfy = some w) (c : ScriptContext) :
    ∃ top, isTrue top = false ∧ c.run f.script (Machine.start w) = some ⟨[top], [], []⟩ := by
  have h := (HasWitness.of_dissatisfy hw).behaves (Material.honest_bare c)
    (Fragment.HasType.of_type? ht) (Fragment.safe_predicates hr hz)
  rw [hb] at h
  obtain ⟨top, hv, h⟩ := h
  refine ⟨top, hv.isTrue_eq, ?_⟩
  have hr := h [] [] [] rfl
  rwa [List.append_nil] at hr

/-- The stand-in for a preimage leaves true exactly where it is one. -/
theorem run_image_dissatisfied (h : Bytes) (hw : (Fragment.image h).dissatisfy = some w)
    (c : ScriptContext) :
    c.run (Fragment.image h).script (Machine.start w) =
      some ⟨[boolItem (h == sha256 (List.replicate 32 0))], [], []⟩ := by
  cases hw
  exact (behaves_image (by simp) rfl).run_one [] [] [] rfl

namespace DayOrVote

/-- A key after a day, or else two of: a second key, a third key, a preimage. -/
def fragment : Fragment :=
  .andOr (.wrap .c (.key (List.replicate 32 1))) (.older 144) (.thresh 2 [
    .wrap .c (.key (List.replicate 32 2)),
    .wrap .s (.wrap .c (.key (List.replicate 32 3))),
    .wrap .a (.image (sha256 (List.replicate 32 4)))])

theorem zeros_not_named : sha256 (List.replicate 32 0) ∉ fragment.images := by
  have h : fragment.images = DayLock.fragment.images := rfl
  rw [h]
  exact DayLock.zeros_elsewhere

theorem dissatisfied_fails : ∃ top, isTrue top = false ∧
    DayLock.context.run fragment.script (Machine.start [List.replicate 32 0, [], [], []]) =
      some ⟨[top], [], []⟩ :=
  dissatisfaction_fails (t := { base := .B, d := true }) (by decide) rfl
    (by decide) zeros_not_named rfl DayLock.context

end DayOrVote

namespace KnownPreimage

/-- A lock on the digest of the bytes that stand in for a preimage. -/
def fragment : Fragment := .image (sha256 (List.replicate 32 0))

/-- What dissatisfies the lock opens it. -/
theorem dissatisfied_opens :
    fragment.type? = .ok { base := .B, o := true, n := true, d := true, u := true } ∧
    (∀ r ∈ fragment.predicates, r.InRange) ∧ fragment.dissatisfy = some [List.replicate 32 0] ∧
    ∀ c : ScriptContext, c.run fragment.script (Machine.start [List.replicate 32 0]) =
      some ⟨[trueItem], [], []⟩ := by
  refine ⟨rfl, by decide, rfl, fun c => ?_⟩
  rw [fragment, run_image_dissatisfied (sha256 (List.replicate 32 0)) rfl, beq_self_eq_true]
  rfl

end KnownPreimage

end Taproot.Miniscript
