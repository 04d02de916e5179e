import Taproot.Proofs.Wallet.Files
import Taproot.Proofs.Wallet.StoredSecrets

/-! # Texts that can be read back

An entry that is added has its texts checked. A secret half that is given to an entry without one is
written down as it came. So the texts of a store are what they must be to be read back exactly where
no such half has another length than 32 bytes.
-/
namespace Taproot

/-- Each text of the pair has the property. -/
def KeyPair.Each (P : HexText → Prop) (p : KeyPair) : Prop := P p.publicKey ∧ ∀ h ∈ p.secret, P h

def ImagePair.Each (P : HexText → Prop) (p : ImagePair) : Prop := P p.image ∧ ∀ h ∈ p.preimage, P h

namespace Store

structure Each (P : HexText → Prop) (st : Store) : Prop where
  keys : ∀ p ∈ st.keys, p.Each P
  images : ∀ p ∈ st.images, p.Each P

variable {P : HexText → Prop} {st : Store}

theorem each_empty : Each P {} := ⟨nofun, nofun⟩

theorem each_accepted : st.Each HexText.Accepted ↔ st.Accepted :=
  ⟨fun h => ⟨h.keys, h.images⟩, fun h => ⟨h.keys, h.images⟩⟩

/-! ## Entries that are added and set -/

theorem each_addKey {p : KeyPair} (hp : p.Each P) : (st.addKey p).Each P ↔ st.Each P := by
  constructor
  · exact fun h => ⟨fun q hq => h.keys q (List.mem_append_left _ hq), h.images⟩
  · exact fun h => ⟨forall_mem_append_singleton h.keys hp, h.images⟩

theorem each_addImage {p : ImagePair} (hp : p.Each P) : (st.addImage p).Each P ↔ st.Each P := by
  constructor
  · exact fun h => ⟨h.keys, fun q hq => h.images q (List.mem_append_left _ hq)⟩
  · exact fun h => ⟨h.keys, forall_mem_append_singleton h.images hp⟩

/-- An entry is set to one that has the property where the entry has it and a condition holds. -/
theorem forall_mem_updateFirst_iff {α : Type} {p : α → Bool} {R : α → Prop} {c : Prop} {xs : List α}
    {x y : α} (hf : xs.find? p = some x) (hxy : R y ↔ R x ∧ c) :
    (∀ z ∈ updateFirst p (fun _ => y) xs, R z) ↔ (∀ z ∈ xs, R z) ∧ c := by
  constructor
  · intro h
    obtain ⟨hx, hc⟩ := hxy.mp (h y (mem_updateFirst_of_find? hf))
    refine ⟨fun z hz => ?_, hc⟩
    rcases mem_updateFirst (p := p) (f := fun _ => y) hz with hz | ⟨hz, -⟩
    · exact h z hz
    · rw [hf] at hz
      obtain rfl := Option.some.inj hz
      exact hx
  · rintro ⟨h, hc⟩
    exact forall_mem_updateFirst hf (fun hx => hxy.mpr ⟨hx, hc⟩) h

theorem each_updateKey {k : Bytes} {p q : KeyPair} {c : Prop} (hf : st.findKey? k = some p)
    (hpq : q.Each P ↔ p.Each P ∧ c) :
    (st.updateKey k fun _ => q).Each P ↔ st.Each P ∧ c := by
  have hkeys := forall_mem_updateFirst_iff hf hpq
  constructor
  · intro h
    obtain ⟨hk, hc⟩ := hkeys.mp h.keys
    exact ⟨⟨hk, h.images⟩, hc⟩
  · rintro ⟨h, hc⟩
    exact ⟨hkeys.mpr ⟨h.keys, hc⟩, h.images⟩

theorem each_updateImage {d : Bytes} {p q : ImagePair} {c : Prop}
    (hf : st.findImage? d = some p) (hpq : q.Each P ↔ p.Each P ∧ c) :
    (st.updateImage d fun _ => q).Each P ↔ st.Each P ∧ c := by
  have himages := forall_mem_updateFirst_iff hf hpq
  constructor
  · intro h
    obtain ⟨hi, hc⟩ := himages.mp h.images
    exact ⟨⟨h.keys, hi⟩, hc⟩
  · rintro ⟨h, hc⟩
    exact ⟨h.keys, himages.mpr ⟨h.images, hc⟩⟩

end Store

/-! ## Sizes -/

namespace HexText

/-- Of the texts of bytes, those of 32 bytes have the property. -/
def Sizes (P : HexText → Prop) : Prop := ∀ b, P (.ofBytes b) ↔ b.length = 32

/-- The text is taken for some text, where it is given again. -/
def Readable (h : HexText) : Prop := ∃ h', ofString h.text = .ok h'

theorem sizes_length : Sizes fun h => h.bytes.length = 32 := fun b => by
  simp only [bytes_ofBytes]

theorem sizes_accepted : Sizes Accepted := fun b => by
  refine ⟨fun h => ?_, accepted_ofBytes⟩
  have hl := length_bytes_ofString h
  rwa [bytes_ofBytes] at hl

theorem sizes_readable : Sizes Readable := fun b => by
  constructor
  · rintro ⟨h, hs⟩
    have ht := text_ofString hs
    rw [lower_text (lowercase_ofBytes b), text_ofBytes] at ht
    have hl := length_bytes_ofString hs
    rwa [eq_ofBytes ht, bytes_ofBytes] at hl
  · exact fun hb => ⟨_, accepted_ofBytes hb⟩

end HexText

/-! ## Stores that are read back -/

section

open Json

variable {α : Type} {check : Json → Check α} {f : α → Json}

theorem Json.pass_of_optional {name : String} {default a : α} {entries : List (String × Json)}
    {x : Json} (hx : lastUnder name entries = some x)
    (h : Json.optional name default check (.obj entries) = .pass a) : check x = .pass a := by
  rw [Json.optional, get?, hx] at h
  exact Check.under_eq_pass.mp h

theorem Json.pass_of_required {name : String} {a : α} {entries : List (String × Json)} {x : Json}
    (hx : lastUnder name entries = some x)
    (h : Json.required name check (.obj entries) = .pass a) : check x = .pass a := by
  rw [Json.required, get?, hx] at h
  exact Check.under_eq_pass.mp h

theorem Json.pass_of_items {xs ys : List α} {index : Nat}
    (h : checkItems check index (xs.map f) = .pass ys) : ∀ x ∈ xs, ∃ y, check (f x) = .pass y := by
  induction xs generalizing index ys with
  | nil => exact nofun
  | cons x xs ih =>
    simp only [List.map_cons, checkItems, Check.seq_eq_pass, Check.map_eq_pass,
      Check.under_eq_pass] at h
    obtain ⟨_, ys, ⟨y, hy, rfl⟩, hys, rfl⟩ := h
    exact List.forall_mem_cons.mpr ⟨⟨y, hy⟩, ih hys⟩

theorem HexText.readable_of_check {h h' : HexText} (hc : checkHex h.toJson = .pass h') :
    h.Readable := by
  obtain ⟨_, ⟨⟩, hs⟩ := checkHex_eq_pass.mp hc
  exact ⟨h', hs⟩

theorem HexText.readable_of_checkNullable {o o' : Option HexText}
    (hc : checkNullable checkHex (ofOption HexText.toJson o) = .pass o') : ∀ h ∈ o, h.Readable := by
  rintro h ⟨⟩
  have hc : (checkHex h.toJson).map some = .pass o' := hc
  cases hh : checkHex h.toJson with
  | pass h' => exact readable_of_check hh
  | fail issues =>
    rw [hh] at hc
    cases hc

theorem KeyPair.each_of_check {p p' : KeyPair} (h : KeyPair.check p.toJson = .pass p') :
    p.Each HexText.Readable := by
  simp only [KeyPair.check, KeyPair.toJson, checkObject, Check.seq_eq_pass,
    Check.map_eq_pass] at h
  obtain ⟨_, _, ⟨_, _, ⟨_, hsecret, rfl⟩, hkey, rfl⟩, -, rfl⟩ := h
  exact ⟨HexText.readable_of_check (pass_of_required rfl hkey),
    HexText.readable_of_checkNullable (pass_of_optional rfl hsecret)⟩

theorem ImagePair.each_of_check {p p' : ImagePair} (h : ImagePair.check p.toJson = .pass p') :
    p.Each HexText.Readable := by
  simp only [ImagePair.check, ImagePair.toJson, checkObject, Check.seq_eq_pass,
    Check.map_eq_pass] at h
  obtain ⟨_, _, ⟨_, _, ⟨_, hpreimage, rfl⟩, himage, rfl⟩, -, rfl⟩ := h
  exact ⟨HexText.readable_of_check (pass_of_required rfl himage),
    HexText.readable_of_checkNullable (pass_of_optional rfl hpreimage)⟩

/-- A store that is read back at all has texts that are taken. -/
theorem Store.each_of_check {st st' : Store} (h : Store.check st.toJson = .pass st') :
    st.Each HexText.Readable := by
  simp only [Store.check, Store.toJson, checkObject, Check.seq_eq_pass, Check.map_eq_pass] at h
  obtain ⟨_, _, ⟨_, hkeys, rfl⟩, himages, rfl⟩ := h
  have hkeys := pass_of_optional (x := .arr (st.keys.map KeyPair.toJson)) rfl hkeys
  have himages := pass_of_optional (x := .arr (st.images.map ImagePair.toJson)) rfl himages
  constructor
  · intro p hp
    obtain ⟨p', hp'⟩ := pass_of_items hkeys p hp
    exact KeyPair.each_of_check hp'
  · intro p hp
    obtain ⟨p', hp'⟩ := pass_of_items himages p hp
    exact ImagePair.each_of_check hp'

end

/-! ## Operations -/

namespace Operation

variable {α : Type} {P : HexText → Prop} {s : Session}

theorem IsHalf.each {given : Option Bytes} {half : Option HexText} (h : IsHalf given half)
    (hP : HexText.Sizes P) : ∀ t ∈ half, P t := by
  intro t ht
  obtain ⟨b, -, rfl, hb⟩ := h t ht
  exact (hP b).mpr hb

/-- It stays as it is whether the texts of the store have the property. -/
abbrev EachAlike (P : HexText → Prop) : Wallet → Wallet → Prop :=
  Wallet.StoreAlike (Store.Each P)

theorem eachAlike_addKey (hP : HexText.Sizes P) {secret : Option Bytes} {half : Option HexText}
    {k : Bytes} {active : Bool} (hhalf : IsHalf secret half) (hk : k.length = 32) :
    EachAlike P s.wallet
      { s.wallet with store := s.wallet.store.addKey ⟨half, .ofBytes k, active⟩ } :=
  Store.each_addKey ⟨(hP k).mpr hk, hhalf.each hP⟩

theorem eachAlike_addImage (hP : HexText.Sizes P) {preimage : Option Bytes} {half : Option HexText}
    {d : Bytes} {active : Bool} (hhalf : IsHalf preimage half) (hd : d.length = 32) :
    EachAlike P s.wallet
      { s.wallet with store := s.wallet.store.addImage ⟨half, .ofBytes d, active⟩ } :=
  Store.each_addImage ⟨(hP d).mpr hd, hhalf.each hP⟩

theorem eachAlike_switchKey {k : Bytes} {p : KeyPair} {active : Bool}
    (hf : s.wallet.store.findKey? k = some p) : EachAlike P s.wallet
      { s.wallet with store := s.wallet.store.updateKey k fun _ => { p with active } } := by
  have hp : ({ p with active } : KeyPair).Each P ↔ p.Each P ∧ True := (and_iff_left trivial).symm
  exact (Store.each_updateKey hf hp).trans (and_iff_left trivial)

theorem eachAlike_switchImage {d : Bytes} {p : ImagePair} {active : Bool}
    (hf : s.wallet.store.findImage? d = some p) : EachAlike P s.wallet
      { s.wallet with store := s.wallet.store.updateImage d fun _ => { p with active } } := by
  have hp : ({ p with active } : ImagePair).Each P ↔ p.Each P ∧ True := (and_iff_left trivial).symm
  exact (Store.each_updateImage hf hp).trans (and_iff_left trivial)

/-- The pair has no half yet, so that the text it gets is one more. -/
theorem each_completedKey (hP : HexText.Sizes P) {p : KeyPair} (hn : p.secret = none) (b : Bytes) :
    ({ p with secret := some (.ofBytes b) } : KeyPair).Each P ↔ p.Each P ∧ b.length = 32 := by
  simp [KeyPair.Each, hn, hP b]

theorem each_completedImage (hP : HexText.Sizes P) {p : ImagePair} (hn : p.preimage = none)
    (b : Bytes) :
    ({ p with preimage := some (.ofBytes b) } : ImagePair).Each P ↔ p.Each P ∧ b.length = 32 := by
  simp [ImagePair.Each, hn, hP b]

/-! ## Halves that come later -/

/-- Where the secret goes to an entry that has none, it has 32 bytes. -/
def CompletesKey (given : Bytes) (s : Session) : Prop :=
  ∀ secret k p, Secret.normalize given = .ok secret → Secret.publicKey secret = .ok k →
    s.wallet.store.findKey? k = some p → p.secret = none → secret.length = 32

def CompletesImage (preimage : Bytes) (s : Session) : Prop :=
  ∀ p, s.wallet.store.findImage? (sha256 preimage) = some p → p.preimage = none →
    preimage.length = 32

theorem store_importSecret_of_known {given secret k : Bytes} {p : KeyPair}
    (hs : Secret.normalize given = .ok secret) (hk : Secret.publicKey secret = .ok k)
    (hf : s.wallet.store.findKey? k = some p) (hn : p.secret = none) :
    (runOn (importSecret given) s).2.wallet.store =
      s.wallet.store.updateKey k fun _ => { p with secret := some (.ofBytes secret) } := by
  rw [importSecret, runOn_bind, hs, runOn_ofExcept_ok]
  dsimp only
  rw [runOn_bind, hk, runOn_ofExcept_ok]
  dsimp only
  have hstore : runOn store s = (.ok s.wallet.store, s) := rfl
  rw [runOn_bind, hstore]
  dsimp only
  rw [hf]
  dsimp only
  rw [hn]
  rfl

theorem store_importPreimage_of_known {preimage : Bytes} {p : ImagePair}
    (hf : s.wallet.store.findImage? (sha256 preimage) = some p) (hn : p.preimage = none) :
    (runOn (importPreimage preimage) s).2.wallet.store =
      s.wallet.store.updateImage (sha256 preimage)
        fun _ => { p with preimage := some (.ofBytes preimage) } := by
  have hstore : runOn store s = (.ok s.wallet.store, s) := rfl
  rw [importPreimage]
  dsimp only
  rw [runOn_bind, hstore]
  dsimp only
  rw [hf]
  dsimp only
  rw [hn]
  rfl

theorem each_importSecret (hP : HexText.Sizes P) (given : Bytes) (s : Session) :
    (runOn (importSecret given) s).2.wallet.store.Each P ↔
      s.wallet.store.Each P ∧ CompletesKey given s := by
  by_cases hc : CompletesKey given s
  · rw [and_iff_left hc]
    refine takes_importSecret (R := EachAlike P)
      (fun _ _ _ _ _ _ _ => eachAlike_addKey hP) fun secret k p hs hk hf hn => ?_
    exact (Store.each_updateKey hf (each_completedKey hP hn secret)).trans
      (and_iff_left (hc secret k p hs hk hf hn))
  · have hknown := hc
    simp only [CompletesKey, not_forall] at hknown
    obtain ⟨secret, k, p, hs, hk, hf, hn, hl⟩ := hknown
    rw [store_importSecret_of_known hs hk hf hn,
      Store.each_updateKey hf (each_completedKey hP hn secret)]
    exact and_congr_right fun _ => iff_of_false hl hc

theorem each_importPreimage (hP : HexText.Sizes P) (preimage : Bytes) (s : Session) :
    (runOn (importPreimage preimage) s).2.wallet.store.Each P ↔
      s.wallet.store.Each P ∧ CompletesImage preimage s := by
  by_cases hc : CompletesImage preimage s
  · rw [and_iff_left hc]
    refine takes_importPreimage (R := EachAlike P)
      (fun _ _ _ => eachAlike_addImage hP) fun p hf hn => ?_
    exact (Store.each_updateImage hf (each_completedImage hP hn preimage)).trans
      (and_iff_left (hc p hf hn))
  · have hknown := hc
    simp only [CompletesImage, not_forall] at hknown
    obtain ⟨p, hf, hn, hl⟩ := hknown
    rw [store_importPreimage_of_known hf hn,
      Store.each_updateImage hf (each_completedImage hP hn preimage)]
    exact and_congr_right fun _ => iff_of_false hl hc

end Operation

/-! ## Runs of calls -/

open Operation

namespace Call

variable {P : HexText → Prop} {s : Session}

/-- A secret half that goes to an entry without one has 32 bytes. -/
def Completes : Call → Session → Prop
  | importSecret given, s => CompletesKey given s
  | importPreimage preimage, s => CompletesImage preimage s
  | _, _ => True

theorem each_perform (hP : HexText.Sizes P) (c : Call) (s : Session) :
    (c.perform.runOn s).2.wallet.store.Each P ↔ s.wallet.store.Each P ∧ c.Completes s := by
  cases c with
  | importSecret given =>
    rw [perform, quiet, runOn_map_snd]
    exact each_importSecret hP given s
  | importPublic key =>
    exact iff_of_alike (takes_importPublic fun _ _ _ => eachAlike_addKey hP)
  | importPreimage preimage =>
    rw [perform, quiet, runOn_map_snd]
    exact each_importPreimage hP preimage s
  | importImage digest =>
    exact iff_of_alike (takes_importImage fun _ _ _ => eachAlike_addImage hP)
  | generateKeys count =>
    exact iff_of_alike (takes_generateKeys (fun _ =>
      takes_generateKey fun _ _ _ _ _ _ _ => eachAlike_addKey hP) count)
  | generateImages count =>
    exact iff_of_alike (takes_generateImages (fun _ =>
      takes_generateImage fun _ _ _ => eachAlike_addImage hP) count)
  | setKeyActive key active => exact iff_of_alike (takes_setActive fun _ => eachAlike_switchKey)
  | toggleKey key => exact iff_of_alike (takes_toggle fun _ _ => eachAlike_switchKey)
  | setImageActive digest active =>
    exact iff_of_alike (takes_setActive fun _ => eachAlike_switchImage)
  | toggleImage digest => exact iff_of_alike (takes_toggle fun _ _ => eachAlike_switchImage)
  | _ => exact iff_of_keepsStore (keepsStore_perform rfl) s _

theorem each_runAll (hP : HexText.Sizes P) (calls : List Call) (hs : s.wallet.store = {}) :
    (runAll calls s).wallet.store.Each P ↔ Throughout Completes calls s := by
  have h := runAll_iff_throughout (Q := fun s => s.wallet.store.Each P) (each_perform hP) calls s
  rw [hs] at h
  exact h.trans (and_iff_right Store.each_empty)

/-- After calls on an empty store, refused ones included, every text of the store stands for 32 bytes
and the saved store is read back, exactly where each half that was given to an entry without one has
32 bytes. -/
theorem runAll_readable_iff {calls : List Call} (hs : s.wallet.store = {}) :
    (Throughout Completes calls s →
      (runAll calls s).wallet.store.Each (fun h => h.bytes.length = 32) ∧
        Store.check (runAll calls s).wallet.store.toJson = .pass (runAll calls s).wallet.store) ∧
    (¬ Throughout Completes calls s →
      ¬ (runAll calls s).wallet.store.Each (fun h => h.bytes.length = 32) ∧
        ∀ st, Store.check (runAll calls s).wallet.store.toJson ≠ .pass st) := by
  constructor
  · intro h
    have ha := Store.each_accepted.mp ((each_runAll HexText.sizes_accepted calls hs).mpr h)
    exact ⟨(each_runAll HexText.sizes_length calls hs).mpr h, ha.check_toJson⟩
  · intro h
    refine ⟨fun he => h ((each_runAll HexText.sizes_length calls hs).mp he), fun st hst => ?_⟩
    exact h ((each_runAll HexText.sizes_readable calls hs).mp (Store.each_of_check hst))

end Call

namespace EmptyPreimage

def digest : Bytes := sha256 []

/-- The preimage comes first and is refused. -/
def preimageFirst : List Call := [.importPreimage [], .importImage digest]

def imageFirst : List Call := [.importImage digest, .importPreimage []]

def store (preimage : Option HexText) : Store := { images := [⟨preimage, .ofBytes digest, true⟩] }

theorem runs : (Call.runAll preimageFirst { wallet := {} }).wallet.store = store none ∧
    (Call.runAll imageFirst { wallet := {} }).wallet.store = store (some (.ofBytes [])) := by
  decide +kernel

theorem refused_readable : ({ wallet := {} } : Session).wallet.store = {} ∧
    Call.Throughout Call.Completes preimageFirst { wallet := {} } ∧
    (store none).Each (fun h => h.bytes.length = 32) ∧
    Store.check (store none).toJson = .pass (store none) := by
  have hs : ({ wallet := {} } : Session).wallet.store = {} := rfl
  have hc : Call.Throughout Call.Completes preimageFirst { wallet := {} } :=
    ⟨nofun, trivial, trivial⟩
  obtain ⟨hread, -⟩ := @Call.runAll_readable_iff { wallet := {} } preimageFirst hs
  rw [runs.1] at hread
  exact ⟨hs, hc, hread hc⟩

/-- The image that is known gets an empty preimage, with which the store is not read back. -/
theorem completed_unreadable :
    ¬ (Call.runAll imageFirst { wallet := {} }).wallet.store.Each (fun h => h.bytes.length = 32) ∧
    ∀ st, Store.check (Call.runAll imageFirst { wallet := {} }).wallet.store.toJson ≠ .pass st := by
  have hempty {P : HexText → Prop} (hP : HexText.Sizes P) :
      ¬ (store (some (.ofBytes []))).Each P := by
    intro h
    have hl := (hP []).mp ((h.images _ List.mem_cons_self).2 _ rfl)
    cases hl
  rw [runs.2]
  exact ⟨hempty HexText.sizes_length,
    fun st hst => hempty HexText.sizes_readable (Store.each_of_check hst)⟩

end EmptyPreimage
end Taproot
