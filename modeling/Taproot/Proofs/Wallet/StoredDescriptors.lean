import Taproot.Proofs.Descriptor.RoundTrip
import Taproot.Proofs.Wallet.Outpoints

/-! # Stored descriptors

Every descriptor that the wallet stores was printed from one that was read, and the store only
grows. So what is stored is canonical, and it is read as the same descriptor ever after.
-/
namespace Taproot

/-- The text is read, and what is read is printed as the text. -/
def Store.Canonical (st : Store) (text : String) : Prop :=
  ∃ d, Descriptor.read st text = .ok d ∧ d.text = text

theorem Store.Canonical.covered {st st' : Store} {text : String} (h : st.Canonical text)
    (hs : st.Covered st') : st'.Canonical text := by
  obtain ⟨d, hd, rfl⟩ := h
  exact ⟨d, Descriptor.read_canonical hd hs, rfl⟩

namespace Wallet

/-- The text is one of a descriptor in the wallet: the inbound one, that of an output that is
recorded or spent, or one that is paid to. -/
inductive Stores (w : Wallet) : String → Prop
  | inbound {text : String} (h : w.inbound = some text) : Stores w text
  | recorded {u : Utxo} (hu : u ∈ w.utxos) : Stores w u.descriptor
  | spent {e : Int × DraftInput} {u : Utxo} (he : e ∈ w.draft.inputs) (hu : e.2.utxo = some u) :
      Stores w u.descriptor
  | paid {e : Int × DraftOutput} (he : e ∈ w.draft.outputs) : Stores w e.2.descriptor

/-- Commands lead from the one wallet to the other. -/
inductive Leads (w : Wallet) : Wallet → Prop
  | refl : Leads w w
  | step {s : Session} (h : Leads w s.wallet) (network : Network) (c : CommandLine.Command) :
      Leads w ((c.perform network).runOn s).2.wallet

variable {g : Given} {w w' : Wallet} {text : String}

/-! ## What a change stores -/

theorem Change.covered (h : Change g w w') : w.store.Covered w'.store := by
  cases h with
  | store hs => exact hs.covered
  | fund | record =>
    rw [store_added]
    exact .refl w.store
  | receive | close | forget | bind | unbind | delay | pay | unpay | lock | charge | reset =>
    exact .refl w.store

theorem Changes.covered (h : Changes g w w') : w.store.Covered w'.store := by
  induction h with
  | refl => exact .refl w.store
  | tail _ hc ih => exact ih.trans hc.covered

/-- What is stored among fewer things is stored among all of them. -/
theorem Stores.mono (h : w'.Stores text) (hi : ∀ t ∈ w'.inbound, t ∈ w.inbound)
    (hu : w'.utxos ⊆ w.utxos) (hs : w'.draft.inputs ⊆ w.draft.inputs)
    (hp : w'.draft.outputs ⊆ w.draft.outputs) : w.Stores text := by
  cases h with
  | inbound h => exact .inbound (hi _ h)
  | recorded h => exact .recorded (hu h)
  | spent he hv => exact .spent (hs he) hv
  | paid he => exact .paid (hp he)

theorem Stores.of_added {u : Utxo} (h : (w.added u).Stores text) :
    w.Stores text ∨ text = u.descriptor := by
  rcases w.added_cases u with ⟨ha, -⟩ | ⟨ha, -⟩
  · rw [ha] at h
    exact .inl h
  · rw [ha] at h
    cases h with
    | inbound h => exact .inl (.inbound h)
    | recorded hu =>
      rcases List.mem_append.mp hu with hu | hu
      · exact .inl (.recorded hu)
      · exact .inr (List.mem_singleton.mp hu ▸ rfl)
    | spent he hu => exact .inl (.spent he hu)
    | paid he => exact .inl (.paid he)

/-- Nothing new is stored where an input is set that spends what was recorded or spent before. -/
theorem Stores.of_withInputs {index : Int} {i : DraftInput}
    (h : (w.withInputs (w.draft.inputs.set index i)).Stores text)
    (hi : ∀ u ∈ i.utxo, w.Stores u.descriptor) : w.Stores text := by
  cases h with
  | inbound h => exact .inbound h
  | recorded hu => exact .recorded hu
  | spent he hu =>
    rcases Slots.mem_set he with rfl | he
    · exact hi _ hu
    · exact .spent he hu
  | paid he => exact .paid he

theorem Stores.of_withOutputs {index : Int} {o : DraftOutput}
    (h : (w.withOutputs (w.draft.outputs.set index o)).Stores text) :
    w.Stores text ∨ text = o.descriptor := by
  cases h with
  | inbound h => exact .inl (.inbound h)
  | recorded hu => exact .inl (.recorded hu)
  | spent he hu => exact .inl (.spent he hu)
  | paid he =>
    rcases Slots.mem_set he with rfl | he
    · exact .inr rfl
    · exact .inl (.paid he)

/-- What a change leaves in the wallet was there before, or is printed from what was read. -/
theorem Change.stores (h : Change g w w') (ht : w'.Stores text) :
    w.Stores text ∨ ∃ given d, w.readDescriptor given = .ok d ∧ text = d.text := by
  have hsame : ∀ {α : Type} (xs : List α), xs ⊆ xs := fun xs => List.Subset.refl xs
  cases h with
  | store | lock | charge =>
    exact .inl (ht.mono (fun _ => id) (hsame _) (hsame _) (hsame _))
  | @receive given d hd =>
    cases ht with
    | inbound h => exact .inr ⟨given, d, hd, (Option.some.inj h).symm⟩
    | recorded hu => exact .inl (.recorded hu)
    | spent he hu => exact .inl (.spent he hu)
    | paid he => exact .inl (.paid he)
  | close => exact .inl (ht.mono nofun (hsame _) (hsame _) (hsame _))
  | fund hi =>
    refine .inl ?_
    rcases ht.of_added with ht | rfl
    · exact ht.mono nofun (hsame _) (hsame _) (hsame _)
    · exact .inbound hi
  | record hd hu => exact ht.of_added.imp_right fun h => ⟨_, _, hd, h.trans hu⟩
  | forget keeps =>
    exact .inl (ht.mono (fun _ => id) List.filter_sublist.subset (hsame _) (hsame _))
  | bind _ hu =>
    refine .inl (ht.of_withInputs fun v hv => ?_)
    obtain rfl := Option.some.inj hv
    exact .recorded hu
  | delay hi => exact .inl (ht.of_withInputs fun u hu => .spent (Slots.mem_of_get? hi) hu)
  | unbind index =>
    exact .inl (ht.mono (fun _ => id) (hsame _) List.filter_sublist.subset (hsame _))
  | pay _ hd ho => exact ht.of_withOutputs.imp_right fun h => ⟨_, _, hd, h.trans ho⟩
  | unpay index =>
    exact .inl (ht.mono (fun _ => id) (hsame _) (hsame _) List.filter_sublist.subset)
  | reset =>
    exact .inl (ht.mono (fun _ => id) (hsame _) (List.nil_subset _) (List.nil_subset _))

/-! ## Stored texts are canonical -/

/-- All that the wallet stores is canonical for its store. -/
def StoresCanonical (w : Wallet) : Prop := ∀ text, w.Stores text → w.store.Canonical text

theorem StoresCanonical.change (h : w.StoresCanonical) (hc : Change g w w') :
    w'.StoresCanonical := by
  intro text ht
  rcases hc.stores ht with ht | ⟨given, d, hd, rfl⟩
  · exact (h text ht).covered hc.covered
  · exact ⟨d, Descriptor.read_canonical (readDescriptor_eq_ok.mp hd) hc.covered, rfl⟩

theorem Reachable.storesCanonical (h : w.Reachable) : w.StoresCanonical := by
  refine h.invariant ?_ StoresCanonical.change
  rintro text (h | hu | he | he)
  · cases h
  · cases hu
  · cases he
  · cases he

theorem Leads.covered (h : w.Leads w') : w.store.Covered w'.store := by
  induction h with
  | refl => exact .refl w.store
  | step _ network c ih => exact ih.trans (changes_perform network c).covered

/-- A stored descriptor is read as one that is printed as it is stored, and whatever commands follow
it is read as that one. -/
theorem Reachable.stored_read (hw : w.Reachable) (ht : w.Stores text) :
    ∃ d, w.readDescriptor text = .ok d ∧ d.text = text ∧
      ∀ w', w.Leads w' → w'.readDescriptor text = .ok d := by
  obtain ⟨d, hd, rfl⟩ := hw.storesCanonical text ht
  refine ⟨d, readDescriptor_eq_ok.mpr hd, rfl, fun w' h => ?_⟩
  exact readDescriptor_eq_ok.mpr (Descriptor.read_canonical hd h.covered)

end Wallet

namespace TwoPayments

open TwoHeights (keyOnly)

/-- The key that the two payments were to, and that the draft pays to, is read ever after. -/
theorem stays_read : (session first second).wallet.Reachable ∧
    (session first second).wallet.Stores keyOnly ∧
    ∃ d, (session first second).wallet.readDescriptor keyOnly = .ok d ∧ d.text = keyOnly ∧
      ∀ w', (session first second).wallet.Leads w' → w'.readDescriptor keyOnly = .ok d := by
  have hr : (session first second).wallet.Reachable :=
    reachable accepted.1 accepted.2.1 (by decide +kernel)
  have hs : (session first second).wallet.Stores keyOnly :=
    .paid (e := (0, ⟨keyOnly, some 119500⟩)) List.mem_cons_self
  exact ⟨hr, hs, hr.stored_read hs⟩

end TwoPayments
end Taproot
