import Taproot.Proofs.Key.Signing
import Taproot.Proofs.Store.Growth

/-! # Secrets in the store

A secret in the store is the one with an even point for the key beside it, and a preimage is one of
the image beside it. Entries are added at the end and completed where they stand: each keeps its
place, its key or image, and the secret half that it has.
-/
namespace Taproot

open Curve

/-! ## Secrets of a key -/

namespace Secret

variable {given secret key : Bytes}

/-- The point of the secret has an even `y`, and the key is its `x`. -/
def IsEvenFor (secret key : Bytes) : Prop :=
  ∃ x y, point secret = .ok (.affine x y) ∧ y % 2 = 0 ∧ key = Bytes.ofNatBE 32 x

/-- What can be normalized has a public key. -/
theorem exists_publicKey_of_normalize (h : normalize given = .ok secret) :
    ∃ key, publicKey given = .ok key := by
  unfold normalize hasEvenY at h
  cases hp : point given with
  | error e =>
    rw [hp] at h
    cases h
  | ok P => exact ⟨xBytes P, map_eq_ok.mpr ⟨P, hp, rfl⟩⟩

theorem point_eq_ok {P : Point} : point secret = .ok P ↔
    (0 < secret.toNatBE ∧ secret.toNatBE < n) ∧ multiply secret.toNatBE generator = P := by
  simp only [point, map_eq_ok, scalar_eq_ok]
  constructor
  · rintro ⟨_, ⟨rfl, hv⟩, hP⟩
    exact ⟨hv, hP⟩
  · rintro ⟨hv, hP⟩
    exact ⟨_, ⟨rfl, hv⟩, hP⟩

theorem isEvenFor_of_normalize (hn : normalize given = .ok secret)
    (hk : publicKey secret = .ok key) : IsEvenFor secret key := by
  obtain ⟨key', hg⟩ := exists_publicKey_of_normalize hn
  obtain ⟨-, heven⟩ := normalize_eq_ok hg hn
  obtain ⟨⟨h₀, h₁⟩, -⟩ := publicKey_eq_ok.mp hg
  obtain ⟨hrange, hkey⟩ := publicKey_eq_ok.mp hk
  obtain ⟨x, y, -, hlift, hr⟩ := exists_evenScalar h₀ h₁
  -- the normal secret is the even scalar, whose point is the one that is lifted
  have hpoint : multiply secret.toNatBE generator = .affine x y := by
    have hs := represents_multiply secret.toNatBE
    rw [heven] at hs ⊢
    exact hs.injective hr
  obtain ⟨y', heq, hy, -⟩ := liftX_eq_some_iff.mp hlift
  obtain ⟨-, rfl⟩ := Point.affine.inj heq
  refine ⟨x, y, point_eq_ok.mpr ⟨hrange, hpoint⟩, hy, ?_⟩
  rw [hkey, hpoint]
  rfl

theorem IsEvenFor.publicKey_eq (h : IsEvenFor secret key) : publicKey secret = .ok key := by
  obtain ⟨x, y, hp, -, rfl⟩ := h
  rw [publicKey, hp]
  rfl

end Secret

/-! ## Entries -/

/-- The secret, where there is one, has 32 bytes and is the even one of the key. -/
def KeyPair.Coherent (p : KeyPair) : Prop :=
  ∀ secret ∈ p.secret, secret.bytes.length = 32 ∧
    ∃ key, Secret.IsEvenFor secret.bytes key ∧ p.publicKey = .ofBytes key

/-- The preimage, where there is one, has 32 bytes and is one of the image. -/
def ImagePair.Coherent (p : ImagePair) : Prop :=
  ∀ preimage ∈ p.preimage, preimage.bytes.length = 32 ∧
    p.image = .ofBytes (sha256 preimage.bytes)

theorem KeyPair.coherent_of_secret {secret key : Bytes} {active : Bool} (hl : secret.length = 32)
    (he : Secret.IsEvenFor secret key) :
    (KeyPair.mk (some (.ofBytes secret)) (.ofBytes key) active).Coherent := by
  rintro h ⟨⟩
  rw [HexText.bytes_ofBytes]
  exact ⟨hl, key, he, rfl⟩

theorem ImagePair.coherent_of_preimage {preimage : Bytes} {active : Bool}
    (hl : preimage.length = 32) :
    (ImagePair.mk (some (.ofBytes preimage)) (.ofBytes (sha256 preimage)) active).Coherent := by
  rintro h ⟨⟩
  rw [HexText.bytes_ofBytes]
  exact ⟨hl, rfl⟩

/-- The entry has the same key, and the same secret unless there was none. -/
structure KeyPair.KeptAs (p q : KeyPair) : Prop where
  publicKey : q.publicKey = p.publicKey
  secret : ∀ secret, p.secret = some secret → q.secret = some secret

/-- The entry has the same image, and the same preimage unless there was none. -/
structure ImagePair.KeptAs (p q : ImagePair) : Prop where
  image : q.image = p.image
  preimage : ∀ preimage, p.preimage = some preimage → q.preimage = some preimage

theorem KeyPair.KeptAs.refl (p : KeyPair) : p.KeptAs p := ⟨rfl, fun _ => id⟩

theorem KeyPair.KeptAs.trans {p q r : KeyPair} (h : p.KeptAs q) (h' : q.KeptAs r) : p.KeptAs r :=
  ⟨h'.publicKey.trans h.publicKey, fun secret hs => h'.secret secret (h.secret secret hs)⟩

theorem ImagePair.KeptAs.refl (p : ImagePair) : p.KeptAs p := ⟨rfl, fun _ => id⟩

theorem ImagePair.KeptAs.trans {p q r : ImagePair} (h : p.KeptAs q) (h' : q.KeptAs r) :
    p.KeptAs r :=
  ⟨h'.image.trans h.image, fun preimage hs => h'.preimage preimage (h.preimage preimage hs)⟩

theorem HexText.eq_ofBytes {h : HexText} {b : Bytes} (ht : h.text = b.hex) : h = .ofBytes b := by
  obtain ⟨text, readable⟩ := h
  subst ht
  rfl

namespace Store

variable {st st' st'' : Store}

theorem publicKey_of_findKey? {key : Bytes} {p : KeyPair} (h : st.findKey? key = some p) :
    p.publicKey = .ofBytes key := by
  have hp := List.find?_some h
  exact HexText.eq_ofBytes (beq_iff_eq.mp hp)

theorem image_of_findImage? {digest : Bytes} {p : ImagePair}
    (h : st.findImage? digest = some p) : p.image = .ofBytes digest := by
  have hp := List.find?_some h
  exact HexText.eq_ofBytes (beq_iff_eq.mp hp)

/-! ## Lists of entries -/

section

variable {α : Type} {R : α → α → Prop} {P : α → Prop} {p : α → Bool} {xs ys zs : List α} {x y : α}

/-- Every entry is found again at its place, as one that it is related to. -/
def InPlace (R : α → α → Prop) (xs ys : List α) : Prop :=
  ∀ (i : Nat) (x : α), xs[i]? = some x → ∃ y, ys[i]? = some y ∧ R x y

theorem InPlace.refl (hR : ∀ x, R x x) (xs : List α) : InPlace R xs xs :=
  fun _ x hx => ⟨x, hx, hR x⟩

theorem InPlace.trans (hR : ∀ x y z, R x y → R y z → R x z) (h : InPlace R xs ys)
    (h' : InPlace R ys zs) : InPlace R xs zs := by
  intro i x hx
  obtain ⟨y, hy, hxy⟩ := h i x hx
  obtain ⟨z, hz, hyz⟩ := h' i y hy
  exact ⟨z, hz, hR x y z hxy hyz⟩

theorem inPlace_append (hR : ∀ x, R x x) (xs ys : List α) : InPlace R xs (xs ++ ys) := by
  intro i x hx
  have hi := (List.getElem?_eq_some_iff.mp hx).1
  exact ⟨x, (List.getElem?_append_left hi).trans hx, hR x⟩

theorem inPlace_updateFirst (hR : ∀ x, R x x) (hp : xs.find? p = some x) (hxy : R x y) :
    InPlace R xs (updateFirst p (fun _ => y) xs) := by
  induction xs with
  | nil => cases hp
  | cons z xs ih =>
    intro i w hw
    by_cases hz : p z = true
    · rw [updateFirst, if_pos hz]
      cases i with
      | zero =>
        obtain rfl : z = x := by simpa [hz] using hp
        obtain rfl : z = w := by simpa using hw
        exact ⟨y, rfl, hxy⟩
      | succ i => exact ⟨w, hw, hR w⟩
    · rw [updateFirst, if_neg hz]
      rw [List.find?_cons_of_neg hz] at hp
      cases i with
      | zero => exact ⟨w, hw, hR w⟩
      | succ i => exact ih hp i w hw

theorem forall_mem_updateFirst (hp : xs.find? p = some x) (hxy : P x → P y)
    (h : ∀ z ∈ xs, P z) : ∀ z ∈ updateFirst p (fun _ => y) xs, P z := by
  intro z hz
  rcases mem_or_eq_of_mem_updateFirst hz with hz | ⟨-, -, rfl⟩
  · exact h z hz
  · exact hxy (h x (List.mem_of_find?_eq_some hp))

theorem forall_mem_append_singleton (h : ∀ z ∈ xs, P z) (hx : P x) : ∀ z ∈ xs ++ [x], P z :=
  List.forall_mem_append.mpr ⟨h, List.forall_mem_singleton.mpr hx⟩

end

/-! ## Growth -/

/-- All secret halves belong to what stands beside them. -/
structure Coherent (st : Store) : Prop where
  keys : ∀ p ∈ st.keys, p.Coherent
  images : ∀ p ∈ st.images, p.Coherent

/-- No entry is lost, moved, renamed or given another secret half. -/
structure Keeps (st st' : Store) : Prop where
  keys : InPlace KeyPair.KeptAs st.keys st'.keys
  images : InPlace ImagePair.KeptAs st.images st'.images

theorem Keeps.refl (st : Store) : st.Keeps st := ⟨.refl .refl _, .refl .refl _⟩

theorem Keeps.trans (h : st.Keeps st') (h' : st'.Keeps st'') : st.Keeps st'' where
  keys := h.keys.trans (fun _ _ _ => .trans) h'.keys
  images := h.images.trans (fun _ _ _ => .trans) h'.images

/-- Entries are kept, and secret halves that belong to what stands beside them go on to do so. -/
def Grows (st st' : Store) : Prop := st.Keeps st' ∧ (st.Coherent → st'.Coherent)

theorem Grows.refl (st : Store) : st.Grows st := ⟨.refl st, id⟩

theorem Grows.trans (h : st.Grows st') (h' : st'.Grows st'') : st.Grows st'' :=
  ⟨h.1.trans h'.1, h'.2 ∘ h.2⟩

theorem grows_addKey {p : KeyPair} (hp : p.Coherent) : st.Grows (st.addKey p) :=
  ⟨⟨inPlace_append .refl _ _, (Keeps.refl st).images⟩,
    fun h => ⟨forall_mem_append_singleton h.keys hp, h.images⟩⟩

theorem grows_addImage {p : ImagePair} (hp : p.Coherent) : st.Grows (st.addImage p) :=
  ⟨⟨(Keeps.refl st).keys, inPlace_append .refl _ _⟩,
    fun h => ⟨h.keys, forall_mem_append_singleton h.images hp⟩⟩

/-- The entry of a key is set to one that it is kept as, and that is coherent where the entry
was. -/
theorem grows_updateKey {key : Bytes} {p q : KeyPair} (hp : st.findKey? key = some p)
    (hk : p.KeptAs q) (hq : p.Coherent → q.Coherent) : st.Grows (st.updateKey key fun _ => q) :=
  ⟨⟨inPlace_updateFirst .refl hp hk, (Keeps.refl st).images⟩,
    fun h => ⟨forall_mem_updateFirst hp hq h.keys, h.images⟩⟩

theorem grows_updateImage {digest : Bytes} {p q : ImagePair} (hp : st.findImage? digest = some p)
    (hk : p.KeptAs q) (hq : p.Coherent → q.Coherent) :
    st.Grows (st.updateImage digest fun _ => q) :=
  ⟨⟨(Keeps.refl st).keys, inPlace_updateFirst .refl hp hk⟩,
    fun h => ⟨h.keys, forall_mem_updateFirst hp hq h.images⟩⟩

end Store
end Taproot
