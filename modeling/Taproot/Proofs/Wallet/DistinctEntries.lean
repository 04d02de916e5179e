import Mathlib.Data.List.Nodup
import Taproot.Proofs.Wallet.StoredSecrets

/-! # Entries that are held once

An import looks for an entry before it adds one, but what is generated is added without a look. So
no key and no image has two entries exactly where what is generated is new, and where that is so,
whoever switches a key or an image switches every entry for it.
-/
namespace Taproot

namespace Store

/-- No key and no image has two entries. -/
structure Distinct (st : Store) : Prop where
  keys : (st.keys.map KeyPair.publicKey).Nodup
  images : (st.images.map ImagePair.image).Nodup

/-- No entry is for the key of the pair. -/
def LacksKey (st : Store) (p : KeyPair) : Prop := ∀ q ∈ st.keys, q.publicKey ≠ p.publicKey

def LacksImage (st : Store) (p : ImagePair) : Prop := ∀ q ∈ st.images, q.image ≠ p.image

theorem distinct_empty : Distinct {} := ⟨List.nodup_nil, List.nodup_nil⟩

/-! ## Lists of entries -/

section

variable {α β : Type} {name : α → β} {p : α → Bool} {xs : List α} {x y : α}

theorem nodup_map_append_singleton :
    ((xs ++ [x]).map name).Nodup ↔ (xs.map name).Nodup ∧ ∀ y ∈ xs, name y ≠ name x := by
  rw [List.map_append, List.nodup_append]
  simp

theorem map_updateFirst (hf : xs.find? p = some x) (hn : name y = name x) :
    (updateFirst p (fun _ => y) xs).map name = xs.map name := by
  induction xs with
  | nil => rfl
  | cons z zs ih =>
    by_cases hp : p z = true
    · rw [List.find?_cons_of_pos hp] at hf
      obtain rfl := Option.some.inj hf
      rw [updateFirst, if_pos hp, List.map_cons, List.map_cons, hn]
    · rw [List.find?_cons_of_neg hp] at hf
      rw [updateFirst, if_neg hp, List.map_cons, List.map_cons, ih hf]

/-- Where entries have different names, the one that is set is the only one of its name. -/
theorem eq_of_mem_updateFirst (hd : (xs.map name).Nodup) (hf : xs.find? p = some x)
    (hn : name y = name x) {z : α} (hz : z ∈ updateFirst p (fun _ => y) xs)
    (hzn : name z = name x) : z = y := by
  rw [← map_updateFirst hf hn] at hd
  exact List.inj_on_of_nodup_map hd hz (mem_updateFirst_of_find? hf) (hzn.trans hn.symm)

end

/-! ## Entries that are added and set -/

variable {st : Store}

theorem distinct_addKey {p : KeyPair} :
    (st.addKey p).Distinct ↔ st.Distinct ∧ st.LacksKey p := by
  constructor
  · intro h
    obtain ⟨hkeys, hnew⟩ := nodup_map_append_singleton.mp h.keys
    exact ⟨⟨hkeys, h.images⟩, hnew⟩
  · rintro ⟨h, hnew⟩
    exact ⟨nodup_map_append_singleton.mpr ⟨h.keys, hnew⟩, h.images⟩

theorem distinct_addImage {p : ImagePair} :
    (st.addImage p).Distinct ↔ st.Distinct ∧ st.LacksImage p := by
  constructor
  · intro h
    obtain ⟨himages, hnew⟩ := nodup_map_append_singleton.mp h.images
    exact ⟨⟨h.keys, himages⟩, hnew⟩
  · rintro ⟨h, hnew⟩
    exact ⟨h.keys, nodup_map_append_singleton.mpr ⟨h.images, hnew⟩⟩

theorem distinct_updateKey {k : Bytes} {p q : KeyPair} (hf : st.findKey? k = some p)
    (hq : q.publicKey = p.publicKey) : (st.updateKey k fun _ => q).Distinct ↔ st.Distinct := by
  have hm := map_updateFirst hf hq
  constructor
  · exact fun h => ⟨hm ▸ h.keys, h.images⟩
  · exact fun h => ⟨hm.symm ▸ h.keys, h.images⟩

theorem distinct_updateImage {d : Bytes} {p q : ImagePair} (hf : st.findImage? d = some p)
    (hq : q.image = p.image) : (st.updateImage d fun _ => q).Distinct ↔ st.Distinct := by
  have hm := map_updateFirst hf hq
  constructor
  · exact fun h => ⟨h.keys, hm ▸ h.images⟩
  · exact fun h => ⟨h.keys, hm.symm ▸ h.images⟩

theorem lacksKey_of_findKey? {k : Bytes} {half : Option HexText} {active : Bool}
    (h : st.findKey? k = none) : st.LacksKey ⟨half, .ofBytes k, active⟩ := by
  intro q hq he
  have hne := List.find?_eq_none.mp h q hq
  simp [isKey, he] at hne

theorem lacksImage_of_findImage? {d : Bytes} {half : Option HexText} {active : Bool}
    (h : st.findImage? d = none) : st.LacksImage ⟨half, .ofBytes d, active⟩ := by
  intro q hq he
  have hne := List.find?_eq_none.mp h q hq
  simp [isImage, he] at hne

end Store

/-! ## Operations -/

namespace Operation

variable {α β : Type} {s t : Session}

/-- The operation leaves it as it is whether entries are distinct. -/
abbrev DistinctAlike : Wallet → Wallet → Prop := Wallet.StoreAlike Store.Distinct

theorem alike_addKey {half : Option HexText} {k : Bytes} {active : Bool}
    (h : s.wallet.store.findKey? k = none) : DistinctAlike s.wallet
      { s.wallet with store := s.wallet.store.addKey ⟨half, .ofBytes k, active⟩ } :=
  Store.distinct_addKey.trans (and_iff_left (Store.lacksKey_of_findKey? h))

theorem alike_addImage {half : Option HexText} {d : Bytes} {active : Bool}
    (h : s.wallet.store.findImage? d = none) : DistinctAlike s.wallet
      { s.wallet with store := s.wallet.store.addImage ⟨half, .ofBytes d, active⟩ } :=
  Store.distinct_addImage.trans (and_iff_left (Store.lacksImage_of_findImage? h))

theorem alike_importSecret (given : Bytes) : Takes DistinctAlike (importSecret given) s :=
  takes_importSecret (fun _ _ _ _ _ _ hf _ _ => alike_addKey hf)
    fun _ _ _ _ _ hf _ => Store.distinct_updateKey hf rfl

theorem alike_importPublic (k : Bytes) : Takes DistinctAlike (importPublic k) s :=
  takes_importPublic fun _ _ hf _ _ => alike_addKey hf

theorem alike_importPreimage (preimage : Bytes) : Takes DistinctAlike (importPreimage preimage) s :=
  takes_importPreimage (fun _ _ hf _ _ => alike_addImage hf)
    fun _ hf _ => Store.distinct_updateImage hf rfl

theorem alike_importImage (d : Bytes) : Takes DistinctAlike (importImage d) s :=
  takes_importImage fun _ _ hf _ _ => alike_addImage hf

theorem alike_setKeyActive (k : Bytes) (active : Bool) :
    Takes DistinctAlike (setKeyActive k active) s :=
  takes_setActive fun _ hf => Store.distinct_updateKey hf rfl

theorem alike_toggleKey (k : Bytes) : Takes DistinctAlike (toggleKey k) s :=
  takes_toggle fun _ _ hf => Store.distinct_updateKey hf rfl

theorem alike_setImageActive (d : Bytes) (active : Bool) :
    Takes DistinctAlike (setImageActive d active) s :=
  takes_setActive fun _ hf => Store.distinct_updateImage hf rfl

theorem alike_toggleImage (d : Bytes) : Takes DistinctAlike (toggleImage d) s :=
  takes_toggle fun _ _ hf => Store.distinct_updateImage hf rfl

/-! ## Generation -/

/-- The operation is refused and leaves the store as it is, or adds what it answers. -/
def Enters (add : Store → α → Store) (a : Operation α) : Prop :=
  ∀ s, match runOn a s with
    | (.ok x, t) => t.wallet.store = add s.wallet.store x
    | (.error _, t) => t.wallet.store = s.wallet.store

variable {add : Store → α → Store}

theorem enters_checked {ε : Type} (wrap : ε → WalletError) (x : Except ε α) :
    Enters add (ofExcept wrap x >>= fun p => editStore (add · p) >>= fun _ => pure p) := by
  intro s
  cases x <;> rfl

theorem Reads.enters_bind {a : Operation β} {f : β → Operation α} (ha : Reads a)
    (hf : ∀ x, Enters add (f x)) : Enters add (a >>= f) := by
  intro s
  rw [runOn_bind]
  rcases h : runOn a s with ⟨e | x, t⟩
  · have hw := ha s
    rw [Takes, h] at hw
    exact congrArg Wallet.store hw.symm
  · have hw : t.wallet = s.wallet := ha.wallet_eq h
    rw [← hw]
    exact hf x t

theorem enters_generateKey : Enters Store.addKey generateKey :=
  reads_drawSecret.enters_bind fun _ => (reads_ofExcept _ _).enters_bind fun _ =>
    (reads_ofExcept _ _).enters_bind fun _ => enters_checked _ _

theorem enters_generateImage : Enters Store.addImage generateImage :=
  reads_draw.enters_bind fun _ => enters_checked _ _

/-- What so many repetitions answer is new each time to the store that it is added to. -/
def AllNew (a : Operation α) (isNew : Store → α → Prop) : Nat → Session → Prop
  | 0, _ => True
  | n + 1, s => ∀ x t, Answers a s x t → isNew s.wallet.store x ∧ AllNew a isNew n t

theorem distinct_repeated {a : Operation α} {isNew : Store → α → Prop} (ha : Enters add a)
    (hadd : ∀ st x, (add st x).Distinct ↔ st.Distinct ∧ isNew st x) (n : Nat) (s : Session) :
    (runOn (repeated a n) s).2.wallet.store.Distinct ↔
      s.wallet.store.Distinct ∧ AllNew a isNew n s := by
  induction n generalizing s with
  | zero => exact (and_iff_left trivial).symm
  | succ n ih =>
    have hstep := ha s
    rw [repeated, runOn_bind]
    rcases h : runOn a s with ⟨e | x, t⟩
    · rw [h] at hstep
      refine (iff_of_eq (congrArg Store.Distinct hstep)).trans (and_iff_left ?_).symm
      intro x t ht
      rw [Answers, h] at ht
      cases ht
    · rw [h] at hstep
      have hnew : AllNew a isNew (n + 1) s ↔ isNew s.wallet.store x ∧ AllNew a isNew n t := by
        constructor
        · exact fun hall => hall x t h
        · intro hx y u hu
          rw [Answers, h] at hu
          cases hu
          exact hx
      dsimp only
      rw [runOn_map_snd, ih, hnew, hstep, hadd, and_assoc]

theorem wallet_announced {a : Operation α} (n : Notice) (f : α → β) :
    (runOn (a >>= fun x => announce n >>= fun _ => pure (f x)) s).2.wallet =
      (runOn a s).2.wallet := by
  rw [runOn_bind]
  rcases runOn a s with ⟨e | x, t⟩
  · rfl
  · exact (((reads_announce n).bind fun _ => reads_pure (f x)) t).symm

theorem distinct_generateKeys (count : Int) (s : Session) :
    (runOn (generateKeys count) s).2.wallet.store.Distinct ↔
      s.wallet.store.Distinct ∧ AllNew generateKey Store.LacksKey count.toNat s := by
  rw [generateKeys, wallet_announced]
  exact distinct_repeated enters_generateKey (fun _ _ => Store.distinct_addKey) _ s

theorem distinct_generateImages (count : Int) (s : Session) :
    (runOn (generateImages count) s).2.wallet.store.Distinct ↔
      s.wallet.store.Distinct ∧ AllNew generateImage Store.LacksImage count.toNat s := by
  rw [generateImages, wallet_announced]
  exact distinct_repeated enters_generateImage (fun _ _ => Store.distinct_addImage) _ s

/-! ## Switches -/

/-- Where the operation answers, the flag of every entry of a class is what becomes of the flag that
such an entry had before. -/
def Governs {γ : Type} (a : Operation α) (s : Session) (entries : Store → List γ) (flag : γ → Bool)
    (concerns : γ → Prop) (becomes : Bool → Bool) : Prop :=
  ∀ x t, Answers a s x t → ∀ p ∈ entries s.wallet.store, concerns p →
    ∀ q ∈ entries t.wallet.store, concerns q → flag q = becomes (flag p)

section

variable {kind : EntryKind α} {name : Bytes} {entries : Store → List α} {concerns : α → Prop}

theorem answers_setActive {active : Bool} {x : α} (h : Answers (setActive kind name active) s x t) :
    ∃ entry, kind.find? s.wallet.store name = some entry ∧ t.wallet.store =
      kind.update s.wallet.store name fun _ => kind.withActive entry active := by
  obtain ⟨entry, _, he, h⟩ := answers_bind.mp h
  obtain ⟨hf, rfl⟩ := answers_lookUp he
  simp only [editStore, answers_bind, answers_edit, answers_inform, answers_pure] at h
  obtain ⟨_, _, rfl, _, _, rfl, -, rfl⟩ := h
  exact ⟨entry, hf, rfl⟩

/-- The flag governs all entries of a class, where all of them have it after the one that is found
was changed. -/
theorem governs_setActive {active : Bool}
    (hall : ∀ entry, kind.find? s.wallet.store name = some entry →
      ∀ q ∈ entries (kind.update s.wallet.store name fun _ => kind.withActive entry active),
        concerns q → kind.isActive q = active) :
    Governs (setActive kind name active) s entries kind.isActive concerns fun _ => active := by
  intro x t h _ _ _ q hq hc
  obtain ⟨entry, hf, ht⟩ := answers_setActive h
  rw [ht] at hq
  exact hall entry hf q hq hc

theorem governs_toggle
    (hset : ∀ active,
      Governs (setActive kind name active) s entries kind.isActive concerns fun _ => active)
    (hone : ∀ entry, kind.find? s.wallet.store name = some entry →
      ∀ p ∈ entries s.wallet.store, concerns p → entry = p) :
    Governs (toggle kind name) s entries kind.isActive concerns (! ·) := by
  intro x t h p hp hcp q hq hcq
  obtain ⟨entry, _, he, h⟩ := answers_bind.mp h
  obtain ⟨hf, rfl⟩ := answers_lookUp he
  rw [hset _ x t h p hp hcp q hq hcq, hone entry hf p hp hcp]

end

theorem governs_setKeyActive (hd : s.wallet.store.Distinct) (k : Bytes) (active : Bool) :
    Governs (setKeyActive k active) s Store.keys KeyPair.active (·.publicKey = .ofBytes k)
      fun _ => active := by
  refine governs_setActive fun p hf q hq hqk => ?_
  have hpk := Store.publicKey_of_findKey? hf
  rw [Store.eq_of_mem_updateFirst (y := { p with active }) hd.keys hf rfl hq (hqk.trans hpk.symm)]
  rfl

theorem governs_setImageActive (hd : s.wallet.store.Distinct) (d : Bytes) (active : Bool) :
    Governs (setImageActive d active) s Store.images ImagePair.active (·.image = .ofBytes d)
      fun _ => active := by
  refine governs_setActive fun p hf q hq hqd => ?_
  have hpd := Store.image_of_findImage? hf
  rw [Store.eq_of_mem_updateFirst (y := { p with active }) hd.images hf rfl hq (hqd.trans hpd.symm)]
  rfl

theorem governs_toggleKey (hd : s.wallet.store.Distinct) (k : Bytes) :
    Governs (toggleKey k) s Store.keys KeyPair.active (·.publicKey = .ofBytes k) (! ·) := by
  refine governs_toggle (governs_setKeyActive hd k) fun r hf p hp hpk => ?_
  -- the entry that is found is the only one for the key
  exact List.inj_on_of_nodup_map hd.keys (List.mem_of_find?_eq_some hf) hp
    ((Store.publicKey_of_findKey? hf).trans hpk.symm)

theorem governs_toggleImage (hd : s.wallet.store.Distinct) (d : Bytes) :
    Governs (toggleImage d) s Store.images ImagePair.active (·.image = .ofBytes d) (! ·) := by
  refine governs_toggle (governs_setImageActive hd d) fun r hf p hp hpd => ?_
  exact List.inj_on_of_nodup_map hd.images (List.mem_of_find?_eq_some hf) hp
    ((Store.image_of_findImage? hf).trans hpd.symm)

end Operation

open Operation

/-- To switch a key or an image is to switch every entry for it. -/
structure Session.Governed (s : Session) : Prop where
  key_set : ∀ k active, Governs (setKeyActive k active) s Store.keys KeyPair.active
    (·.publicKey = .ofBytes k) fun _ => active
  key_toggled : ∀ k, Governs (toggleKey k) s Store.keys KeyPair.active
    (·.publicKey = .ofBytes k) (! ·)
  image_set : ∀ d active, Governs (setImageActive d active) s Store.images ImagePair.active
    (·.image = .ofBytes d) fun _ => active
  image_toggled : ∀ d, Governs (toggleImage d) s Store.images ImagePair.active
    (·.image = .ofBytes d) (! ·)

theorem Store.Distinct.governed {s : Session} (h : s.wallet.store.Distinct) : s.Governed where
  key_set := governs_setKeyActive h
  key_toggled := governs_toggleKey h
  image_set := governs_setImageActive h
  image_toggled := governs_toggleImage h

/-! ## Runs of calls -/

namespace Call

variable {s : Session}

/-- What is generated is new to the store. -/
def AddsNew : Call → Session → Prop
  | generateKeys count, s => AllNew generateKey Store.LacksKey count.toNat s
  | generateImages count, s => AllNew generateImage Store.LacksImage count.toNat s
  | _, _ => True

theorem distinct_perform (c : Call) (s : Session) :
    (c.perform.runOn s).2.wallet.store.Distinct ↔ s.wallet.store.Distinct ∧ c.AddsNew s := by
  cases c with
  | importSecret given => exact iff_of_alike (alike_importSecret given)
  | importPublic key => exact iff_of_alike (alike_importPublic key)
  | importPreimage preimage => exact iff_of_alike (alike_importPreimage preimage)
  | importImage digest => exact iff_of_alike (alike_importImage digest)
  | generateKeys count =>
    rw [perform, quiet, runOn_map_snd]
    exact distinct_generateKeys count s
  | generateImages count =>
    rw [perform, quiet, runOn_map_snd]
    exact distinct_generateImages count s
  | setKeyActive key active => exact iff_of_alike (alike_setKeyActive key active)
  | toggleKey key => exact iff_of_alike (alike_toggleKey key)
  | setImageActive digest active => exact iff_of_alike (alike_setImageActive digest active)
  | toggleImage digest => exact iff_of_alike (alike_toggleImage digest)
  | _ => exact iff_of_keepsStore (keepsStore_perform rfl) s _

/-- After calls on an empty store no key and no image has two entries exactly where all that was
generated was new. Then to switch a key or an image is to switch every entry for it. -/
theorem runAll_distinct_iff {calls : List Call} (hs : s.wallet.store = {}) :
    ((runAll calls s).wallet.store.Distinct ↔ Throughout AddsNew calls s) ∧
      ((runAll calls s).wallet.store.Distinct → (runAll calls s).Governed) := by
  refine ⟨?_, Store.Distinct.governed⟩
  have h := runAll_iff_throughout (Q := fun s => s.wallet.store.Distinct) distinct_perform calls s
  rw [hs] at h
  exact h.trans (and_iff_right Store.distinct_empty)

end Call

namespace NegatedSecret

/-- Both secrets of the key are drawn. -/
def drawsBoth : Session := { wallet := {}, entropy := [secret, negated] }

/-- The other secret is imported, so that only one of the two entries is generated. -/
def importsOther : List Call :=
  [.generateKeys 1, .importSecret negated, .generateImages 1, .toggleKey key]

def generatesBoth : List Call := [.generateKeys 2, .setKeyActive key false]

theorem entries_after :
    (((Call.runAll importsOther drawsBoth).wallet.store.keys.map KeyPair.publicKey).Nodup ∧
      ((Call.runAll importsOther drawsBoth).wallet.store.images.map ImagePair.image).Nodup) ∧
    (Call.runAll generatesBoth drawsBoth).wallet.store.keys =
      [⟨some (.ofBytes secret), .ofBytes key, false⟩,
        ⟨some (.ofBytes secret), .ofBytes key, true⟩] := by
  decide +kernel

theorem imported_once : drawsBoth.wallet.store = {} ∧
    Call.Throughout Call.AddsNew importsOther drawsBoth ∧
    (Call.runAll importsOther drawsBoth).Governed := by
  have hs : drawsBoth.wallet.store = {} := rfl
  obtain ⟨hiff, hgoverned⟩ := @Call.runAll_distinct_iff drawsBoth importsOther hs
  have hd : (Call.runAll importsOther drawsBoth).wallet.store.Distinct :=
    ⟨entries_after.1.1, entries_after.1.2⟩
  exact ⟨hs, hiff.mp hd, hgoverned hd⟩

/-- The key is generated twice, and to put it out of use leaves an entry for it in use. -/
theorem generated_twice : ¬ (Call.runAll generatesBoth drawsBoth).wallet.store.Distinct ∧
    ∃ p ∈ (Call.runAll generatesBoth drawsBoth).wallet.store.keys,
      p.publicKey = .ofBytes key ∧ p.active = true := by
  rw [entries_after.2]
  refine ⟨fun h => ?_, _, List.mem_cons_of_mem _ List.mem_cons_self, rfl, rfl⟩
  have hkeys := h.keys
  rw [entries_after.2] at hkeys
  simp at hkeys

end NegatedSecret
end Taproot
