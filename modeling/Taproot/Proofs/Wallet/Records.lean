import Taproot.Wallet.File

/-! # Records that pass their checks

What a recorded output and an output of the draft hold, where they are made from the fields that
were given.
-/
namespace Taproot

open Json

namespace Json

namespace Check

variable {α β : Type}

theorem seq_eq_pass {f : Check (α → β)} {x : Check α} {b : β} :
    f <*> x = .pass b ↔ ∃ g a, f = .pass g ∧ x = .pass a ∧ g a = b := by
  change ap f x = _ ↔ _
  cases f <;> cases x <;> simp [ap]

theorem map_eq_pass {g : α → β} {x : Check α} {b : β} :
    g <$> x = .pass b ↔ ∃ a, x = .pass a ∧ g a = b := by
  change ap (.pass g) x = _ ↔ _
  cases x <;> simp [ap]

theorem bind_eq_pass {x : Check α} {f : α → Check β} {b : β} :
    x.bind f = .pass b ↔ ∃ a, x = .pass a ∧ f a = .pass b := by
  cases x <;> simp [Check.bind]

theorem under_eq_pass {step : Step} {x : Check α} {a : α} :
    x.under step = .pass a ↔ x = .pass a := by
  cases x <;> simp [under]

theorem report_eq_ok {model : String} {x : Check α} {a : α} :
    x.report model = .ok a ↔ x = .pass a := by
  cases x <;> simp [report]

end Check

theorem checkHex_eq_pass {j : Json} {h : HexText} :
    checkHex j = .pass h ↔ ∃ s, j = .str s ∧ HexText.ofString s = .ok h := by
  unfold checkHex
  rw [Check.bind_eq_pass]
  cases j <;> simp [checkString, Check.issue]
  split <;> simp [*]

theorem checkBytes_eq_pass {field : String} {b : Bytes} {h : HexText} :
    checkBytes field b = .pass h ↔ b.length = 32 ∧ h = .ofBytes b := by
  unfold checkBytes
  split
  · rename_i hb
    simp [hb, eq_comm]
  · rename_i hb
    simp [hb, Check.under, Check.issue]

theorem checkNatural_int {n : Int} {v : Nat} :
    checkNatural (.int n) = .pass v ↔ (v : Int) = n := by
  rw [checkNatural, Check.bind_eq_pass]
  simp only [checkInteger, Check.pass.injEq, exists_eq_left']
  split
  · rw [Check.pass.injEq]
    omega
  · have hneg : ¬ (v : Int) = n := by omega
    simp [Check.issue, hneg]

/-- Only `null` passes for nothing. -/
theorem isNull_of_checkNullable {α : Type} {check : Json → Check α} {j : Json}
    (h : checkNullable check j = .pass none) : j.isNull = true := by
  unfold checkNullable at h
  split at h
  · rfl
  · generalize check _ = x at h
    cases x <;> cases h

theorem checkNullable_ofOption {m : Option Int} {v : Option Nat} :
    checkNullable checkNatural (.ofOption .int m) = .pass v ↔ v.map Int.ofNat = m := by
  cases m with
  | none => cases v <;> simp [ofOption, checkNullable]
  | some n =>
    change (checkNatural (.int n)).map some = _ ↔ _
    cases v with
    | none => cases h : checkNatural (.int n) <;> simp [Check.map]
    | some v =>
      rw [Option.map_some, Option.some.injEq, Int.ofNat_eq_natCast, ← checkNatural_int]
      cases checkNatural (.int n) <;> simp [Check.map]

end Json

theorem Utxo.ofJson_eq_ok {txid vout value : Json} {text : String} {u : Utxo} :
    Utxo.ofJson (.obj [("txid", txid), ("vout", vout), ("value", value),
        ("descriptor", .str text)]) = .ok u ↔
      (checkHex txid = .pass u.txid ∧ checkNatural vout = .pass u.vout ∧
        checkNatural value = .pass u.value) ∧ text = u.descriptor := by
  simp only [ofJson, check, checkObject, Check.report_eq_ok, Check.seq_eq_pass, Check.map_eq_pass,
    required, Check.under_eq_pass, Json.get?, lastUnder, checkString]
  constructor
  · rintro ⟨_, _, ⟨_, _, ⟨_, _, ⟨_, ht, rfl⟩, hv, rfl⟩, hn, rfl⟩, hd, rfl⟩
    cases hd
    exact ⟨⟨by simpa using ht, by simpa using hv, by simpa using hn⟩, rfl⟩
  · rintro ⟨⟨ht, hv, hn⟩, rfl⟩
    exact ⟨_, _, ⟨_, _, ⟨_, _, ⟨_, by simpa using ht, rfl⟩, by simpa using hv, rfl⟩,
      by simpa using hn, rfl⟩, by simp, rfl⟩

theorem DraftOutput.ofJson_eq_ok {value : Json} {text : String} {o : DraftOutput} :
    DraftOutput.ofJson (.obj [("descriptor", .str text), ("value", value)]) = .ok o ↔
      checkNullable checkNatural value = .pass o.value ∧ text = o.descriptor := by
  obtain ⟨d, v⟩ := o
  simp [ofJson, check, checkObject, Check.report_eq_ok, Check.seq_eq_pass, Check.map_eq_pass,
    required, Json.optional, Check.under_eq_pass, Json.get?, lastUnder, checkString]

end Taproot
