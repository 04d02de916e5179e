import Taproot.Miniscript.Typed

/-! # Expressions that are put into another type

Making an expression a `V` or a `W` one puts at most one wrapper around it, and does nothing the
second time.
-/
namespace Taproot.Miniscript.Typed

variable {x y : Typed}

theorem eq_of_fragment (h : x.fragment = y.fragment) : x = y := by
  obtain ⟨f, t, ht⟩ := x
  obtain ⟨g, s, hs⟩ := y
  cases h
  cases ht.symm.trans hs
  rfl

theorem type_of_ofResult {f : Fragment} {r : Except TypeError ExprType} {h : f.type? = r}
    (hx : ofResult f r h = .ok x) : r = .ok x.type := by
  rw [← h, ← ofResult_eq_ok.mp hx]
  exact x.typed

theorem asVerify_of_ne (h : x.type.base ≠ .B) : x.asVerify = x := dif_neg h

theorem asSummand_of_ne (h : x.type.base ≠ .B) : x.asSummand = x := dif_neg h

theorem asVerify_cases (x : Typed) : x.asVerify = x ∨ wrap .v x = .ok x.asVerify := by
  unfold asVerify
  split
  · exact Or.inr (ofResult_eq_ok.mpr rfl)
  · exact Or.inl rfl

theorem asSummand_cases (x : Typed) : x.asSummand = x ∨ ∃ w, wrap w x = .ok x.asSummand := by
  unfold asSummand
  split
  · split
    · exact Or.inr ⟨.s, ofResult_eq_ok.mpr rfl⟩
    · exact Or.inr ⟨.a, ofResult_eq_ok.mpr rfl⟩
  · exact Or.inl rfl

theorem base_asVerify_ne (x : Typed) : x.asVerify.type.base ≠ .B := by
  unfold asVerify
  split
  · exact nofun
  · assumption

theorem base_asSummand_ne (x : Typed) : x.asSummand.type.base ≠ .B := by
  unfold asSummand
  split
  · split <;> exact nofun
  · assumption

theorem asVerify_asVerify (x : Typed) : x.asVerify.asVerify = x.asVerify :=
  asVerify_of_ne (base_asVerify_ne x)

theorem asSummand_asSummand (x : Typed) : x.asSummand.asSummand = x.asSummand :=
  asSummand_of_ne (base_asSummand_ne x)

end Taproot.Miniscript.Typed
