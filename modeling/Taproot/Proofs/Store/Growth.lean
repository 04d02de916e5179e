import Taproot.Proofs.Descriptor.Printing
import Taproot.Proofs.Text.HexTexts

/-! # How the store grows

An operation adds an entry to the store or sets one that is there, and an entry that is set keeps
its key or its image. So what is known stays known, and texts that are accepted stay accepted.
-/
namespace Taproot

def KeyPair.Accepted (p : KeyPair) : Prop := p.publicKey.Accepted ∧ ∀ h ∈ p.secret, h.Accepted

def ImagePair.Accepted (p : ImagePair) : Prop := p.image.Accepted ∧ ∀ h ∈ p.preimage, h.Accepted

namespace Store

/-! ## Entries that are set -/

section

variable {α : Type} {p : α → Bool} {f : α → α} {xs : List α} {x y : α}

theorem mem_or_eq_of_mem_updateFirst (h : x ∈ updateFirst p f xs) :
    x ∈ xs ∨ ∃ y, xs.find? p = some y ∧ x = f y := by
  induction xs with
  | nil => cases h
  | cons y ys ih =>
    by_cases hp : p y = true
    · rw [updateFirst, if_pos hp] at h
      rcases List.mem_cons.mp h with hx | hx
      · exact .inr ⟨y, List.find?_cons_of_pos hp, hx⟩
      · exact .inl (List.mem_cons_of_mem y hx)
    · rw [updateFirst, if_neg hp] at h
      rcases List.mem_cons.mp h with hx | hx
      · exact .inl (hx ▸ List.mem_cons_self)
      · rw [List.find?_cons_of_neg hp]
        exact (ih hx).imp_left (List.mem_cons_of_mem y)

theorem mem_updateFirst (h : x ∈ xs) :
    x ∈ updateFirst p f xs ∨ (xs.find? p = some x ∧ f x ∈ updateFirst p f xs) := by
  induction xs with
  | nil => cases h
  | cons y ys ih =>
    by_cases hp : p y = true
    · rw [updateFirst, if_pos hp]
      rcases List.mem_cons.mp h with rfl | hx
      · exact .inr ⟨List.find?_cons_of_pos hp, List.mem_cons_self⟩
      · exact .inl (List.mem_cons_of_mem _ hx)
    · rw [updateFirst, if_neg hp, List.find?_cons_of_neg hp]
      rcases List.mem_cons.mp h with rfl | hx
      · exact .inl List.mem_cons_self
      · exact (ih hx).imp (List.mem_cons_of_mem y) (.imp_right (List.mem_cons_of_mem y))

theorem mem_updateFirst_of_find? (hf : xs.find? p = some x) :
    y ∈ updateFirst p (fun _ => y) xs := by
  induction xs with
  | nil => cases hf
  | cons z zs ih =>
    by_cases hp : p z = true
    · rw [updateFirst, if_pos hp]
      exact List.mem_cons_self
    · rw [List.find?_cons_of_neg hp] at hf
      rw [updateFirst, if_neg hp]
      exact List.mem_cons_of_mem z (ih hf)

end

/-! ## Steps -/

/-- One step of an operation on the store. New entries are checked as a whole; where an entry that
is known gets its secret half, that half is one of those that may be given. -/
inductive Step (half : Bytes → Prop) (st : Store) : Store → Prop
  | addKey {p : KeyPair} (hp : p.Accepted) : Step half st (st.addKey p)
  | addImage {p : ImagePair} (hp : p.Accepted) : Step half st (st.addImage p)
  | setKey {k : Bytes} {p q : KeyPair} (hp : st.findKey? k = some p)
      (hk : q.publicKey = p.publicKey)
      (hs : q.secret = p.secret ∨ ∃ b, half b ∧ q.secret = some (.ofBytes b)) :
      Step half st (st.updateKey k fun _ => q)
  | setImage {d : Bytes} {p q : ImagePair} (hp : st.findImage? d = some p)
      (hi : q.image = p.image)
      (hs : q.preimage = p.preimage ∨ ∃ b, half b ∧ q.preimage = some (.ofBytes b)) :
      Step half st (st.updateImage d fun _ => q)

variable {half : Bytes → Prop} {st st' st'' : Store}

theorem Covered.refl (st : Store) : st.Covered st :=
  ⟨fun p hp => ⟨p, hp, rfl⟩, fun p hp => ⟨p, hp, rfl⟩⟩

theorem Covered.trans (h : st.Covered st') (h' : st'.Covered st'') : st.Covered st'' where
  keys p hp := by
    obtain ⟨q, hq, he⟩ := h.keys p hp
    obtain ⟨r, hr, he'⟩ := h'.keys q hq
    exact ⟨r, hr, he'.trans he⟩
  images p hp := by
    obtain ⟨q, hq, he⟩ := h.images p hp
    obtain ⟨r, hr, he'⟩ := h'.images q hq
    exact ⟨r, hr, he'.trans he⟩

/-- What is known stays known. -/
theorem Step.covered (h : st.Step half st') : st.Covered st' := by
  cases h with
  | addKey hp => exact ⟨fun p hp => ⟨p, List.mem_append_left _ hp, rfl⟩, (Covered.refl st).images⟩
  | addImage hp => exact ⟨(Covered.refl st).keys, fun p hp => ⟨p, List.mem_append_left _ hp, rfl⟩⟩
  | @setKey k p q hp hk hs =>
    refine ⟨fun r hr => ?_, (Covered.refl st).images⟩
    rcases mem_updateFirst (p := isKey k) (f := fun _ => q) hr with hm | ⟨hr, hm⟩
    · exact ⟨r, hm, rfl⟩
    · obtain rfl := Option.some.inj (hp.symm.trans hr)
      exact ⟨q, hm, hk⟩
  | @setImage d p q hp hi hs =>
    refine ⟨(Covered.refl st).keys, fun r hr => ?_⟩
    rcases mem_updateFirst (p := isImage d) (f := fun _ => q) hr with hm | ⟨hr, hm⟩
    · exact ⟨r, hm, rfl⟩
    · obtain rfl := Option.some.inj (hp.symm.trans hr)
      exact ⟨q, hm, hi⟩

/-- All texts of the store are accepted. -/
structure Accepted (st : Store) : Prop where
  keys : ∀ p ∈ st.keys, p.Accepted
  images : ∀ p ∈ st.images, p.Accepted

/-- Texts stay accepted, where no secret half may be given but one of 32 bytes. -/
theorem Step.accepted (hh : ∀ b, half b → b.length = 32) (h : st.Step half st')
    (ha : st.Accepted) : st'.Accepted := by
  have hhalf : ∀ {old new : Option HexText}, (∀ t ∈ old, t.Accepted) →
      (new = old ∨ ∃ b, half b ∧ new = some (.ofBytes b)) → ∀ t ∈ new, t.Accepted := by
    rintro old new hold (rfl | ⟨b, hb, rfl⟩) t ht
    · exact hold t ht
    · obtain rfl := Option.some.inj ht
      exact HexText.accepted_ofBytes (hh b hb)
  cases h with
  | addKey hp =>
    refine ⟨fun r hr => ?_, ha.images⟩
    rcases List.mem_append.mp hr with hr | hr
    · exact ha.keys r hr
    · obtain rfl := List.mem_singleton.mp hr
      exact hp
  | addImage hp =>
    refine ⟨ha.keys, fun r hr => ?_⟩
    rcases List.mem_append.mp hr with hr | hr
    · exact ha.images r hr
    · obtain rfl := List.mem_singleton.mp hr
      exact hp
  | @setKey k p q hp hk hs =>
    refine ⟨fun r hr => ?_, ha.images⟩
    rcases mem_or_eq_of_mem_updateFirst hr with hr | ⟨-, -, rfl⟩
    · exact ha.keys r hr
    · obtain ⟨hkey, hsecret⟩ := ha.keys p (List.mem_of_find?_eq_some hp)
      exact ⟨hk ▸ hkey, hhalf hsecret hs⟩
  | @setImage d p q hp hi hs =>
    refine ⟨ha.keys, fun r hr => ?_⟩
    rcases mem_or_eq_of_mem_updateFirst hr with hr | ⟨-, -, rfl⟩
    · exact ha.images r hr
    · obtain ⟨himage, hpreimage⟩ := ha.images p (List.mem_of_find?_eq_some hp)
      exact ⟨hi ▸ himage, hhalf hpreimage hs⟩

end Store
end Taproot
