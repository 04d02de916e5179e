import Taproot.Proofs.Json.RoundTrip
import Taproot.Proofs.Wallet.Reachability

/-! # Wallets in files

What a wallet must be like to be read back from its file as it is, and that every change keeps it so
where the numbers that are given are not too long.
-/
namespace Taproot

open Json

/-! ## Checks of what was written -/

namespace Json

variable {α : Type} {check : Json → Check α} {f : α → Json}

theorem checkNullable_written {o : Option α} (hf : ∀ a, (f a).isNull = false)
    (h : ∀ a ∈ o, check (f a) = .pass a) : checkNullable check (ofOption f o) = .pass o := by
  cases o with
  | none => rfl
  | some a =>
    have ha := hf a
    rw [ofOption]
    unfold checkNullable
    split
    · rename_i hnull
      rw [hnull] at ha
      cases ha
    · rw [h a rfl]
      rfl

theorem checkItems_written {xs : List α} (h : ∀ x ∈ xs, check (f x) = .pass x) (index : Nat) :
    checkItems check index (xs.map f) = .pass xs := by
  induction xs generalizing index with
  | nil => rfl
  | cons x xs ih =>
    rw [List.map_cons, checkItems, h x List.mem_cons_self,
      ih (fun y hy => h y (List.mem_cons_of_mem x hy))]
    rfl

theorem checkList_written {xs : List α} (h : ∀ x ∈ xs, check (f x) = .pass x) :
    checkList check (.arr (xs.map f)) = .pass xs := checkItems_written h 0

theorem checkEntries_written {s : Slots α} (hi : ∀ e ∈ s, Text.Short e.1)
    (h : ∀ e ∈ s, check (f e.2) = .pass e.2) :
    checkEntries check (s.map fun e => (toString e.1, f e.2)) = .pass s := by
  induction s with
  | nil => rfl
  | cons e s ih =>
    have hkey : checkNumeral (toString e.1) = .pass e.1 := by
      rw [checkNumeral, Text.readInteger_toString (hi e List.mem_cons_self)]
    rw [List.map_cons, checkEntries, hkey, h e List.mem_cons_self,
      ih (fun x hx => hi x (List.mem_cons_of_mem e hx))
        (fun x hx => h x (List.mem_cons_of_mem e hx))]
    rfl

section

variable {name : String} {check : Json → Check α} {entries : List (String × Json)}
  {x : Json} {a : α} {default : α}

theorem required_written (hx : lastUnder name entries = some x) (ha : check x = .pass a) :
    required name check (.obj entries) = .pass a := by
  rw [required, get?, hx]
  exact Check.under_eq_pass.mpr ha

theorem optional_written (hx : lastUnder name entries = some x)
    (ha : check x = .pass a) : Json.optional name default check (.obj entries) = .pass a := by
  rw [Json.optional, get?, hx]
  exact Check.under_eq_pass.mpr ha

theorem checkBool_bool (b : Bool) : checkBool (.bool b) = .pass b := rfl

theorem checkString_str (s : String) : checkString (.str s) = .pass s := rfl

theorem checkNatural_ofNat (n : Nat) : checkNatural (ofNat n) = .pass n :=
  checkNatural_int.mpr rfl

theorem checkNaturalUpTo_ofNat {bound n : Nat} (h : n ≤ bound) :
    checkNaturalUpTo bound (ofNat n) = .pass n := by
  rw [checkNaturalUpTo, checkNatural_ofNat]
  exact if_pos h

end

end Json

namespace Slots

variable {α : Type}

theorem set_of_notMem {s : Slots α} {i : Int} (h : i ∉ s.map Prod.fst) (a : α) :
    s.set i a = s ++ [(i, a)] := by
  induction s with
  | nil => rfl
  | cons e s ih =>
    obtain ⟨j, b⟩ := e
    rw [List.map_cons, List.mem_cons, not_or] at h
    rw [set, if_neg (Ne.symm h.1), ih h.2, List.cons_append]

theorem foldl_set {s t : Slots α} (h : ((s ++ t).map Prod.fst).Nodup) :
    t.foldl (fun s e => set e.1 e.2 s) s = s ++ t := by
  induction t generalizing s with
  | nil => rw [List.foldl_nil, List.append_nil]
  | cons e t ih =>
    have hm : e.1 ∉ s.map Prod.fst := by
      rw [List.map_append, List.map_cons, List.nodup_append] at h
      intro hm
      exact h.2.2 _ hm _ List.mem_cons_self rfl
    have hs : (s ++ [(e.1, e.2)]) ++ t = s ++ e :: t := by simp
    rw [List.foldl_cons, set_of_notMem hm, ih (hs ▸ h), hs]

/-- Entries under different indices stay as they are. -/
theorem ofList_eq_self {s : Slots α} (h : (s.map Prod.fst).Nodup) : ofList s = s := foldl_set h

/-- The indices are different and may be written, and so may be the entries. -/
structure Storable (p : α → Prop) (s : Slots α) : Prop where
  indexed_once : (s.map Prod.fst).Nodup
  index : ∀ e ∈ s, Text.Short e.1
  value : ∀ e ∈ s, p e.2

namespace Storable

variable {p : α → Prop} {s : Slots α}

theorem nil : Storable p ([] : Slots α) := ⟨List.nodup_nil, nofun, nofun⟩

theorem set (h : s.Storable p) {i : Int} {a : α} (hi : Text.Short i) (ha : p a) :
    (s.set i a).Storable p where
  indexed_once := nodup_set h.indexed_once
  index e he := by
    rcases mem_set he with rfl | he
    · exact hi
    · exact h.index e he
  value e he := by
    rcases mem_set he with rfl | he
    · exact ha
    · exact h.value e he

theorem remove (h : s.Storable p) (i : Int) : (s.remove i).Storable p where
  indexed_once := nodup_remove h.indexed_once
  index e he := h.index e (List.mem_of_mem_filter he)
  value e he := h.value e (List.mem_of_mem_filter he)

theorem check_toJson (h : s.Storable p) {check : Json → Check α} {f : α → Json}
    (hc : ∀ a, p a → check (f a) = .pass a) : checkSlots check (s.toJson f) = .pass s := by
  have he := checkEntries_written (f := f) h.index fun e he => hc e.2 (h.value e he)
  rw [checkSlots, Slots.toJson, checkTable, he, Check.map, ofList_eq_self h.indexed_once]

end Storable

end Slots

/-! ## Storable wallets -/

/-- What may go into a file: integers whose numerals are not too long, and halves of 32 bytes. -/
def Given.storable : Given where
  number := Text.Short
  half b := b.length = 32
  number_of_lt n h := Text.short_of_lt (Nat.lt_trans h (by decide))
  half_of_length _ h := h

abbrev Utxo.Storable (u : Utxo) : Prop := u.Admitted .storable

structure DraftInput.Storable (i : DraftInput) : Prop where
  utxo : ∀ u ∈ i.utxo, u.Storable
  sequence : ∀ n ∈ i.sequence, n ≤ maxRelativeHeight

def DraftOutput.Storable (o : DraftOutput) : Prop := ∀ n ∈ o.value, Text.Short (n : Nat)

/-- The wallet is read back from its file as it is. -/
structure Wallet.Storable (w : Wallet) : Prop where
  store : w.store.Accepted
  utxos : ∀ u ∈ w.utxos, u.Storable
  inputs : w.draft.inputs.Storable DraftInput.Storable
  outputs : w.draft.outputs.Storable DraftOutput.Storable
  fee : Text.Short w.draft.fee
  locktime : ∀ n ∈ w.draft.locktime, Text.Short (n : Nat)

theorem HexText.Accepted.check_toJson {h : HexText} (ha : h.Accepted) :
    checkHex h.toJson = .pass h := checkHex_eq_pass.mpr ⟨h.text, rfl, ha⟩

/-! ## Parts of a wallet -/

theorem KeyPair.Accepted.check_toJson {p : KeyPair} (h : p.Accepted) :
    KeyPair.check p.toJson = .pass p := by
  have hsecret : checkNullable checkHex (ofOption HexText.toJson p.secret) = .pass p.secret :=
    checkNullable_written (fun _ => rfl) fun t ht => (h.2 t ht).check_toJson
  rw [KeyPair.check, KeyPair.toJson, checkObject, optional_written rfl hsecret,
    required_written rfl h.1.check_toJson, optional_written rfl (checkBool_bool _)]
  rfl

theorem ImagePair.Accepted.check_toJson {p : ImagePair} (h : p.Accepted) :
    ImagePair.check p.toJson = .pass p := by
  have hpreimage : checkNullable checkHex (ofOption HexText.toJson p.preimage) = .pass p.preimage :=
    checkNullable_written (fun _ => rfl) fun t ht => (h.2 t ht).check_toJson
  rw [ImagePair.check, ImagePair.toJson, checkObject, optional_written rfl hpreimage,
    required_written rfl h.1.check_toJson, optional_written rfl (checkBool_bool _)]
  rfl

theorem Store.Accepted.check_toJson {s : Store} (h : s.Accepted) :
    Store.check s.toJson = .pass s := by
  have hkeys := checkList_written fun p hp => (h.keys p hp).check_toJson
  have himages := checkList_written fun p hp => (h.images p hp).check_toJson
  rw [Store.check, Store.toJson, checkObject, optional_written rfl hkeys,
    optional_written rfl himages]
  rfl

theorem Utxo.Storable.check_toJson {u : Utxo} (h : u.Storable) : Utxo.check u.toJson = .pass u := by
  rw [Utxo.check, Utxo.toJson, checkObject, required_written rfl h.txid.check_toJson,
    required_written rfl (checkNatural_ofNat _), required_written rfl (checkNatural_ofNat _),
    required_written rfl (checkString_str _)]
  rfl

theorem DraftInput.Storable.check_toJson {i : DraftInput} (h : i.Storable) :
    DraftInput.check i.toJson = .pass i := by
  have hutxo : checkNullable Utxo.check (ofOption Utxo.toJson i.utxo) = .pass i.utxo :=
    checkNullable_written (fun _ => rfl) fun u hu => (h.utxo u hu).check_toJson
  have hsequence : checkNullable (checkNaturalUpTo maxRelativeHeight) (ofOption ofNat i.sequence) =
      .pass i.sequence :=
    checkNullable_written (fun _ => rfl) fun n hn => checkNaturalUpTo_ofNat (h.sequence n hn)
  rw [DraftInput.check, DraftInput.toJson, checkObject, optional_written rfl hutxo,
    optional_written rfl hsequence]
  rfl

theorem checkNullable_ofNat (o : Option Nat) :
    checkNullable checkNatural (ofOption ofNat o) = .pass o :=
  checkNullable_written (fun _ => rfl) fun n _ => checkNatural_ofNat n

theorem DraftOutput.check_toJson (o : DraftOutput) : DraftOutput.check o.toJson = .pass o := by
  rw [DraftOutput.check, DraftOutput.toJson, checkObject, required_written rfl (checkString_str _),
    optional_written rfl (checkNullable_ofNat _)]
  rfl

namespace Wallet.Storable

variable {w : Wallet}

theorem check_draft (h : w.Storable) : Draft.check w.draft.toJson = .pass w.draft := by
  have hinputs := h.inputs.check_toJson fun _ hi => hi.check_toJson
  have houtputs := h.outputs.check_toJson fun o _ => o.check_toJson
  rw [Draft.check, Draft.toJson, checkObject, optional_written rfl hinputs,
    optional_written rfl houtputs, optional_written rfl (checkNatural_ofNat _),
    optional_written rfl (checkNullable_ofNat _)]
  rfl

theorem check_toJson (h : w.Storable) : Wallet.check w.toJson = .pass w := by
  have hinbound : checkNullable checkString (ofOption .str w.inbound) = .pass w.inbound :=
    checkNullable_written (fun _ => rfl) fun s _ => checkString_str s
  have hutxos := checkList_written fun u hu => Utxo.Storable.check_toJson (h.utxos u hu)
  rw [Wallet.check, Wallet.toJson, checkObject, optional_written rfl h.store.check_toJson,
    optional_written rfl hinbound, optional_written rfl hutxos, optional_written rfl h.check_draft]
  rfl

end Wallet.Storable

/-! ## What fits into a file -/

namespace Json

variable {α : Type} {lim : Limits} {depth : Nat}

theorem Fits.ofNat {n : Nat} (h : (toString (n : Int)).length ≤ lim.digits) :
    Fits lim depth (.ofNat n) := .int h

theorem Fits.ofOption {f : α → Json} {o : Option α} (h : ∀ a ∈ o, Fits lim depth (f a)) :
    Fits lim depth (.ofOption f o) := by
  cases o with
  | none => exact .null
  | some a => exact h a rfl

theorem Fits.list {f : α → Json} {xs : List α} (hd : depth < lim.depth)
    (h : ∀ x ∈ xs, Fits lim (depth + 1) (f x)) : Fits lim depth (.arr (xs.map f)) := by
  refine .arr hd fun j hj => ?_
  obtain ⟨x, hx, rfl⟩ := List.mem_map.mp hj
  exact h x hx

theorem Fits.slots {f : α → Json} {s : Slots α} (hd : depth < lim.depth)
    (h : ∀ e ∈ s, Fits lim (depth + 1) (f e.2)) : Fits lim depth (s.toJson f) := by
  refine .obj hd fun j hj => ?_
  obtain ⟨e, he, rfl⟩ := List.mem_map.mp hj
  exact h e he

/-- An object is nested one deeper than its fields. -/
theorem Fits.fields {entries : List (String × Json)} (hd : depth < lim.depth)
    (h : (entries.map Prod.snd).Forall (Fits lim (depth + 1))) : Fits lim depth (.obj entries) :=
  .obj hd fun e he => List.forall_iff_forall_mem.mp h e.2 (List.mem_map.mpr ⟨e, he, rfl⟩)

end Json

theorem KeyPair.fits (p : KeyPair) : Fits .file 3 p.toJson :=
  .fields (by decide) ⟨.ofOption fun _ _ => .str _, .str _, .bool _⟩

theorem ImagePair.fits (p : ImagePair) : Fits .file 3 p.toJson :=
  .fields (by decide) ⟨.ofOption fun _ _ => .str _, .str _, .bool _⟩

theorem Store.fits (s : Store) : Fits .file 1 s.toJson :=
  .fields (by decide) ⟨.list (by decide) fun p _ => p.fits, .list (by decide) fun p _ => p.fits⟩

theorem Utxo.Storable.fits {u : Utxo} (h : u.Storable) {depth : Nat} (hd : depth < 200) :
    Fits .file depth u.toJson :=
  .fields hd ⟨.str _, .ofNat h.vout, .ofNat h.value, .str _⟩

theorem DraftInput.Storable.fits {i : DraftInput} (h : i.Storable) : Fits .file 3 i.toJson := by
  have hsequence : ∀ n ∈ i.sequence, Text.Short (n : Nat) :=
    fun n hn => Text.short_of_lt (Nat.lt_of_le_of_lt (h.sequence n hn) (by decide))
  exact .fields (by decide) ⟨.ofOption fun u hu => Utxo.Storable.fits (h.utxo u hu) (by decide),
    .ofOption fun n hn => .ofNat (hsequence n hn)⟩

theorem DraftOutput.Storable.fits {o : DraftOutput} (h : o.Storable) : Fits .file 3 o.toJson :=
  .fields (by decide) ⟨.str _, .ofOption fun n hn => .ofNat (h n hn)⟩

namespace Wallet.Storable

variable {w : Wallet}

theorem fits_draft (h : w.Storable) : Fits .file 1 w.draft.toJson :=
  .fields (by decide) ⟨.slots (by decide) fun e he => (h.inputs.value e he).fits,
    .slots (by decide) fun e he => DraftOutput.Storable.fits (h.outputs.value e he), .ofNat h.fee,
    .ofOption fun n hn => .ofNat (h.locktime n hn)⟩

theorem fits (h : w.Storable) : Fits .file 0 w.toJson :=
  .fields (by decide) ⟨w.store.fits, .ofOption fun _ _ => .str _,
    .list (by decide) fun u hu => Utxo.Storable.fits (h.utxos u hu) (by decide), h.fits_draft⟩

/-- The wallet is read back from the text of its file. -/
theorem ofFileText_fileText (h : w.Storable) : Wallet.ofFileText w.fileText = .ok w := by
  rw [Wallet.ofFileText, Wallet.fileText, read?_indented h.fits]
  exact Check.report_eq_ok.mpr h.check_toJson

theorem load (h : w.Storable) (path : String) :
    Wallet.load path (some w.fileText.toUTF8) = .ok w := by
  have htext : String.fromUTF8? w.fileText.toUTF8 = some w.fileText :=
    dif_pos w.fileText.isValidUTF8
  rw [Wallet.load, htext]
  dsimp only
  rw [h.ofFileText_fileText]
  rfl

/-! ## Changes -/

theorem empty : Wallet.Storable {} :=
  ⟨⟨nofun, nofun⟩, nofun, .nil, .nil, Text.short_of_lt (by decide), nofun⟩

theorem added (h : w.Storable) {u : Utxo} (hu : u.Storable) : (w.added u).Storable := by
  rcases w.added_cases u with ⟨ha, -⟩ | ⟨ha, -⟩
  · rwa [ha]
  · rw [ha]
    refine { h with utxos := fun v hv => ?_ }
    rcases List.mem_append.mp hv with hv | hv
    · exact h.utxos v hv
    · obtain rfl := List.mem_singleton.mp hv
      exact hu

/-- A change keeps the wallet storable, where the numbers that are given are not too long. -/
theorem change {w' : Wallet} (h : w.Storable) (hc : Change .storable w w') : w'.Storable := by
  cases hc with
  | store hs => exact { h with store := hs.accepted (fun _ hb => hb) h.store }
  | receive | close => exact { h with }
  | fund hi hu => exact added (w := { w with inbound := none }) { h with } hu
  | record hd ht hu => exact h.added hu
  | forget keeps => exact { h with utxos := fun u hu => h.utxos u (List.mem_of_mem_filter hu) }
  | @bind index u hi hu hs =>
    have hinput : DraftInput.Storable { utxo := some u } :=
      ⟨fun v hv => Option.some.inj hv ▸ h.utxos u hu, nofun⟩
    exact { h with inputs := h.inputs.set hi hinput }
  | unbind index => exact { h with inputs := h.inputs.remove index }
  | @delay index i height hi hh =>
    have hm := Slots.mem_of_get? hi
    have hinput := (h.inputs.value _ hm).utxo
    exact { h with inputs := h.inputs.set (h.inputs.index _ hm) ⟨hinput, hh⟩ }
  | pay hi hd ho hv hr => exact { h with outputs := h.outputs.set hi hv }
  | unpay index => exact { h with outputs := h.outputs.remove index }
  | lock hh =>
    have hshort := fun n hn => Text.short_of_lt (Nat.lt_trans (hh n hn) (by decide))
    exact { h with locktime := hshort }
  | charge hf => exact { h with fee := hf }
  | reset => exact { empty with store := h.store, utxos := h.utxos }

end Wallet.Storable

end Taproot
