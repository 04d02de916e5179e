import Taproot.Proofs.Hash.Collision
import Taproot.Proofs.Transaction.Encoding
import Taproot.Transaction.Digest

/-! # What a signature digest binds

The digest of an input is a hash over hashes of lists. Each list is told from its joined encodings:
the encoding of an item ends where it must, whatever follows it, so that neither a border between two
items nor an item itself can be moved. Two calls with one digest then agree on all that is signed,
unless two of the byte strings that they hash collide.
-/
namespace Taproot

/-! ## Fields and sizes -/

theorem length_of_unsignedLE {width : Nat} {v : Int} {b : Bytes} (h : unsignedLE width v = .ok b) :
    b.length = width := by
  obtain ⟨-, rfl⟩ := unsignedLE_eq_ok_iff.mp h
  exact Bytes.length_ofNatLE width _

/-- A field stands for one number. -/
theorem unsignedLE_inj {width : Nat} {v w : Int} {b : Bytes} (hv : unsignedLE width v = .ok b)
    (hw : unsignedLE width w = .ok b) : v = w := by
  obtain ⟨⟨hv₀, hv₁⟩, rfl⟩ := unsignedLE_eq_ok_iff.mp hv
  obtain ⟨⟨hw₀, hw₁⟩, he⟩ := unsignedLE_eq_ok_iff.mp hw
  have hvn : v.toNat < Bytes.bound width := by omega
  have hwn : w.toNat < Bytes.bound width := by omega
  have hn : v.toNat = w.toNat := by
    rw [← Bytes.toNatLE_ofNatLE hvn, he, Bytes.toNatLE_ofNatLE hwn]
  omega

/-- The first byte of a size tells its width, so that a size is read off the front in one way. -/
theorem CompactSize.ofNat_append_inj {n m : Nat} {r s : Bytes} (hn : n < Bytes.bound 8)
    (hm : m < Bytes.bound 8) (h : ofNat n ++ r = ofNat m ++ s) : n = m ∧ r = s := by
  obtain ⟨x, xs, hx, hxl, hxv, -⟩ := exists_ofNat hn
  obtain ⟨y, ys, hy, hyl, hyv, -⟩ := exists_ofNat hm
  rw [hx, hy, List.cons_append, List.cons_append] at h
  obtain ⟨rfl, ht⟩ := List.cons.inj h
  obtain ⟨rfl, hr⟩ := List.append_inj ht (hxl.trans hyl.symm)
  exact ⟨hxv.symm.trans hyv, hr⟩

theorem CompactSize.ofNat_ne_nil (n : Nat) : ofNat n ≠ [] := by
  unfold ofNat
  repeat' split
  all_goals exact List.cons_ne_nil _ _

theorem sized_ne_nil (b : Bytes) : sized b ≠ [] :=
  List.append_ne_nil_of_left_ne_nil (CompactSize.ofNat_ne_nil _) _

theorem sized_append_inj {a b r s : Bytes} (ha : a.length < Bytes.bound 8)
    (hb : b.length < Bytes.bound 8) (h : sized a ++ r = sized b ++ s) : a = b ∧ r = s := by
  rw [sized, sized, List.append_assoc, List.append_assoc] at h
  obtain ⟨hl, ht⟩ := CompactSize.ofNat_append_inj ha hb h
  exact List.append_inj ht hl

/-! ## Encodings that end where they must -/

section Delimits

variable {α β : Type} {good : α → Prop} {encode : α → Except EncodingError Bytes} {told : α → β}

/-- Whatever follows the encoding of a good item, what it tells of the item and its end are read off
it in one way. -/
structure Delimits (good : α → Prop) (encode : α → Except EncodingError Bytes) (told : α → β) :
    Prop where
  nonempty {x : α} {e : Bytes} : good x → encode x = .ok e → e ≠ []
  ends {x y : α} {e f r s : Bytes} : good x → good y → encode x = .ok e → encode y = .ok f →
    e ++ r = f ++ s → told x = told y ∧ r = s

/-- Encodings of one width end where they must. -/
theorem Delimits.of_width (width : Nat) (hpos : 0 < width)
    (hw : ∀ {x e}, good x → encode x = .ok e → e.length = width)
    (hinj : ∀ {x y e}, good x → good y → encode x = .ok e → encode y = .ok e → told x = told y) :
    Delimits good encode told where
  nonempty hx he hnil := by
    have hl := hw hx he
    rw [hnil, List.length_nil] at hl
    omega
  ends hx hy he hf h := by
    obtain ⟨rfl, hr⟩ := List.append_inj h ((hw hx he).trans (hw hy hf).symm)
    exact ⟨hinj hx hy he hf, hr⟩

/-- Lists with the same joined encodings have the same items, as far as an encoding tells them. -/
theorem Delimits.map_eq (h : Delimits good encode told) {xs ys : List α} {b : Bytes}
    (hxs : ∀ x ∈ xs, good x) (hys : ∀ y ∈ ys, good y) (hx : encodeAll encode xs = .ok b)
    (hy : encodeAll encode ys = .ok b) : xs.map told = ys.map told := by
  induction xs generalizing ys b with
  | nil =>
    cases hx
    cases ys with
    | nil => rfl
    | cons y ys =>
      simp only [encodeAll, bind_eq_ok, pure_eq_ok] at hy
      obtain ⟨e, he, rest, -, hnil⟩ := hy
      exact absurd (List.append_eq_nil_iff.mp hnil).1 (h.nonempty (hys y List.mem_cons_self) he)
  | cons x xs ih =>
    simp only [encodeAll, bind_eq_ok, pure_eq_ok] at hx
    obtain ⟨e, he, rest, hrest, rfl⟩ := hx
    cases ys with
    | nil =>
      have hnil : [] = e ++ rest := Except.ok.inj hy
      exact absurd (List.append_eq_nil_iff.mp hnil.symm).1 (h.nonempty (hxs x List.mem_cons_self) he)
    | cons y ys =>
      simp only [encodeAll, bind_eq_ok, pure_eq_ok] at hy
      obtain ⟨f, hf, rest', hrest', hb⟩ := hy
      obtain ⟨ht, rfl⟩ := h.ends (hxs x List.mem_cons_self) (hys y List.mem_cons_self) he hf hb.symm
      have hmap := ih (fun x' hx' => hxs x' (List.mem_cons_of_mem x hx'))
        (fun y' hy' => hys y' (List.mem_cons_of_mem y hy')) hrest hrest'
      rw [List.map_cons, List.map_cons, ht, hmap]

end Delimits

/-- A script whose length has a compact size. -/
def TxOut.HasSize (o : TxOut) : Prop := o.script.length < Bytes.bound 8

theorem TxIn.delimits_outpoint :
    Delimits (fun i : TxIn => i.txid.length = 32) encodeOutpoint fun i => (i.txid, i.vout) := by
  refine .of_width 36 (by decide) (fun {i e} hi he => ?_) fun {i j e} hi hj he hf => ?_
  · obtain ⟨v, hv, rfl⟩ := map_eq_ok.mp he
    rw [List.length_append, List.length_reverse, hi, length_of_unsignedLE hv]
  · obtain ⟨v, hv, rfl⟩ := map_eq_ok.mp he
    obtain ⟨w, hw, he⟩ := map_eq_ok.mp hf
    have htxid : j.txid.reverse.length = i.txid.reverse.length := by
      rw [List.length_reverse, List.length_reverse, hi, hj]
    obtain ⟨ht, rfl⟩ := List.append_inj he htxid
    exact Prod.ext (List.reverse_inj.mp ht).symm (unsignedLE_inj hv hw)

theorem TxIn.delimits_sequence : Delimits (fun _ => True) encodeSequence sequence :=
  .of_width 4 (by decide) (fun _ he => length_of_unsignedLE he)
    fun _ _ he hf => unsignedLE_inj he hf

theorem TxOut.delimits_value : Delimits (fun _ => True) encodeValue value :=
  .of_width 8 (by decide) (fun _ he => length_of_unsignedLE he)
    fun _ _ he hf => unsignedLE_inj he hf

theorem TxOut.delimits_script : Delimits HasSize (fun o => .ok (sized o.script)) script where
  nonempty _ he := by
    cases he
    exact sized_ne_nil _
  ends hx hy he hf h := by
    cases he
    cases hf
    exact sized_append_inj hx hy h

theorem TxOut.delimits_encode : Delimits HasSize encode id where
  nonempty _ he hnil := by
    obtain ⟨v, -, rfl⟩ := map_eq_ok.mp he
    exact sized_ne_nil _ (List.append_eq_nil_iff.mp hnil).2
  ends {x y e f r s} hx hy he hf h := by
    obtain ⟨v, hv, rfl⟩ := map_eq_ok.mp he
    obtain ⟨w, hw, rfl⟩ := map_eq_ok.mp hf
    rw [List.append_assoc, List.append_assoc] at h
    obtain ⟨rfl, htail⟩ :=
      List.append_inj h ((length_of_unsignedLE hv).trans (length_of_unsignedLE hw).symm)
    obtain ⟨hscript, hr⟩ := sized_append_inj hx hy htail
    have hvalue := unsignedLE_inj hv hw
    obtain ⟨value, script⟩ := x
    obtain ⟨value', script'⟩ := y
    obtain rfl : value = value' := hvalue
    obtain rfl : script = script' := hscript
    exact ⟨rfl, hr⟩

/-- Lists that agree in two projections agree in the pairs. -/
theorem map_pair_eq {α β γ : Type} {f : α → β} {g : α → γ} {xs ys : List α}
    (hf : xs.map f = ys.map f) (hg : xs.map g = ys.map g) :
    xs.map (fun x => (f x, g x)) = ys.map fun x => (f x, g x) := by
  rw [← List.zip_map', ← List.zip_map', hf, hg]

/-! ## Messages -/

namespace Transaction

/-- What a digest is asked for: an input of a transaction, the outputs that all its inputs spend, a
sighash type and a leaf. -/
structure DigestCall where
  transaction : Transaction
  index : Int
  spent : List TxOut
  type : Int
  leaf : Option Bytes

/-- The call is answered. Ids have 32 bytes, and only a script with a compact size is encoded. -/
structure DigestCall.Answers (c : DigestCall) (d : Bytes) : Prop where
  digest : c.transaction.digest c.index c.spent c.type c.leaf = .ok d
  txid : ∀ i ∈ c.transaction.inputs, i.txid.length = 32
  spent : ∀ o ∈ c.spent, o.HasSize
  outputs : ∀ o ∈ c.transaction.outputs, o.HasSize

/-- Both calls sign the same. -/
structure DigestCall.Agrees (c c' : DigestCall) : Prop where
  version : c.transaction.version = c'.transaction.version
  locktime : c.transaction.locktime = c'.transaction.locktime
  index : c.index = c'.index
  type : c.type = c'.type
  leaf : c.leaf = c'.leaf
  inputs : c.transaction.inputs.map (fun i => (i.txid, i.vout, i.sequence)) =
    c'.transaction.inputs.map fun i => (i.txid, i.vout, i.sequence)
  spent : c.spent = c'.spent
  outputs : c.transaction.outputs = c'.transaction.outputs

/-- The encoded fields of a message; the lists are hashed. -/
structure DigestFields where
  outpoints : Bytes
  values : Bytes
  scripts : Bytes
  sequences : Bytes
  outputs : Bytes
  version : Bytes
  locktime : Bytes
  position : Bytes

/-- The fields are those of the call. -/
structure DigestFields.Encode (f : DigestFields) (c : DigestCall) : Prop where
  outpoints : encodeAll TxIn.encodeOutpoint c.transaction.inputs = .ok f.outpoints
  values : encodeAll TxOut.encodeValue c.spent = .ok f.values
  scripts : encodeAll (fun o => .ok (sized o.script)) c.spent = .ok f.scripts
  sequences : encodeAll TxIn.encodeSequence c.transaction.inputs = .ok f.sequences
  outputs : encodeAll TxOut.encode c.transaction.outputs = .ok f.outputs
  version : unsignedLE 4 c.transaction.version = .ok f.version
  locktime : unsignedLE 4 c.transaction.locktime = .ok f.locktime
  position : unsignedLE 4 c.index = .ok f.position

def DigestFields.message (f : DigestFields) (type : Int) (leaf : Option Bytes) : Bytes :=
  [0x00, UInt8.ofNat type.toNat] ++ f.version ++ f.locktime ++ sha256 f.outpoints ++
    sha256 f.values ++ sha256 f.scripts ++ sha256 f.sequences ++ sha256 f.outputs ++
    [spendType leaf] ++ f.position ++ leafExtension leaf

/-- The fields that are hashed on their own. -/
def DigestFields.lists : List (DigestFields → Bytes) :=
  [outpoints, values, scripts, sequences, outputs]

def DigestFields.hashInputs (f : DigestFields) (type : Int) (leaf : Option Bytes) : List HashInput :=
  ⟨some .tapSighash, f.message type leaf⟩ :: lists.map fun field => ⟨none, field f⟩

/-- The input is hashed on the way to the digest of the call. -/
def DigestCall.Hashes (c : DigestCall) (i : HashInput) : Prop :=
  ∃ f : DigestFields, f.Encode c ∧ i ∈ f.hashInputs c.type c.leaf

theorem digestMessage_eq_ok {tx : Transaction} {index : Int} {spent : List TxOut} {type : Int}
    {leaf : Option Bytes} {m : Bytes} : tx.digestMessage index spent type leaf = .ok m ↔
      ∃ f : DigestFields, f.Encode ⟨tx, index, spent, type, leaf⟩ ∧ m = f.message type leaf := by
  simp only [digestMessage, bind_eq_ok, pure_eq_ok]
  constructor
  · rintro ⟨outpoints, ho, values, hv, sequences, hs, outputs, hout, version, hver, locktime, hl,
      position, hp, rfl⟩
    exact ⟨⟨outpoints, values, _, sequences, outputs, version, locktime, position⟩,
      ⟨ho, hv, Cursor.encodeAll_ok _ _, hs, hout, hver, hl, hp⟩, rfl⟩
  · rintro ⟨f, hf, rfl⟩
    have hscripts : spent.flatMap (fun o => sized o.script) = f.scripts :=
      Except.ok.inj ((Cursor.encodeAll_ok _ _).symm.trans hf.scripts)
    exact ⟨_, hf.outpoints, _, hf.values, _, hf.sequences, _, hf.outputs, _, hf.version, _,
      hf.locktime, _, hf.position, by rw [hscripts]; rfl⟩

/-- An extension of 32 bytes and more is told from none. -/
theorem leafExtension_inj {leaf leaf' : Option Bytes}
    (h : leafExtension leaf = leafExtension leaf') : leaf = leaf' := by
  cases leaf with
  | none =>
    cases leaf' with
    | none => rfl
    | some k => simp [leafExtension] at h
  | some k =>
    cases leaf' with
    | none => simp [leafExtension] at h
    | some k' => rw [(List.append_inj' h rfl).1]

theorem sighashType_inj {type type' : Int} (h : isSighashType type = true)
    (h' : isSighashType type' = true) (he : UInt8.ofNat type.toNat = UInt8.ofNat type'.toNat) :
    type = type' := by
  have ht : type = 0 ∨ type = 1 := by simpa [isSighashType] using h
  have ht' : type' = 0 ∨ type' = 1 := by simpa [isSighashType] using h'
  rcases ht with rfl | rfl <;> rcases ht' with rfl | rfl
  · rfl
  · exact absurd he (by decide)
  · exact absurd he (by decide)
  · rfl

/-- A message is taken apart from the front: all its parts but the last have a fixed width. -/
theorem DigestFields.message_inj {f f' : DigestFields} {c c' : DigestCall} (hf : f.Encode c)
    (hf' : f'.Encode c') (h : f.message c.type c.leaf = f'.message c'.type c'.leaf) :
    UInt8.ofNat c.type.toNat = UInt8.ofNat c'.type.toNat ∧ f.version = f'.version ∧
      f.locktime = f'.locktime ∧ f.position = f'.position ∧ c.leaf = c'.leaf ∧
      ∀ field ∈ lists, sha256 (field f) = sha256 (field f') := by
  have hwidth {v v' : Int} {b b' : Bytes} (hb : unsignedLE 4 v = .ok b)
      (hb' : unsignedLE 4 v' = .ok b') : b.length = b'.length :=
    (length_of_unsignedLE hb).trans (length_of_unsignedLE hb').symm
  have hsha (a b : Bytes) : (sha256 a).length = (sha256 b).length :=
    (length_sha256 a).trans (length_sha256 b).symm
  simp only [message, List.append_assoc] at h
  obtain ⟨htype, h⟩ := List.append_inj h rfl
  obtain ⟨hversion, h⟩ := List.append_inj h (hwidth hf.version hf'.version)
  obtain ⟨hlocktime, h⟩ := List.append_inj h (hwidth hf.locktime hf'.locktime)
  obtain ⟨houtpoints, h⟩ := List.append_inj h (hsha _ _)
  obtain ⟨hvalues, h⟩ := List.append_inj h (hsha _ _)
  obtain ⟨hscripts, h⟩ := List.append_inj h (hsha _ _)
  obtain ⟨hsequences, h⟩ := List.append_inj h (hsha _ _)
  obtain ⟨houtputs, h⟩ := List.append_inj h (hsha _ _)
  obtain ⟨-, h⟩ := List.append_inj h rfl
  obtain ⟨hposition, hleaf⟩ := List.append_inj h (hwidth hf.position hf'.position)
  refine ⟨(List.cons.inj (List.cons.inj htype).2).1, hversion, hlocktime, hposition,
    leafExtension_inj hleaf, ?_⟩
  simp [lists, houtpoints, hvalues, hscripts, hsequences, houtputs]

theorem digest_eq_ok {c : DigestCall} {d : Bytes}
    (h : c.transaction.digest c.index c.spent c.type c.leaf = .ok d) : isSighashType c.type = true ∧
      ∃ f : DigestFields, f.Encode c ∧ d = HashTag.tapSighash.hash (f.message c.type c.leaf) := by
  obtain ⟨htype, h⟩ := ite_error_eq_ok.mp h
  obtain ⟨-, h⟩ := ite_error_eq_ok.mp h
  obtain ⟨-, h⟩ := ite_error_eq_ok.mp h
  split at h
  · rename_i m hm
    obtain ⟨f, hf, rfl⟩ := digestMessage_eq_ok.mp hm
    exact ⟨by simpa using htype, f, hf, (Except.ok.inj h).symm⟩
  · cases h

/-- Calls with one digest sign the same, or of what they hash two different byte strings have one
digest under the same hash function. -/
theorem digest_binds {c c' : DigestCall} {d : Bytes} (h : c.Answers d) (h' : c'.Answers d) :
    c.Agrees c' ∨ ∃ i j, c.Hashes i ∧ c'.Hashes j ∧ i.tag = j.tag ∧ i.Collides j := by
  obtain ⟨htype, f, hf, rfl⟩ := digest_eq_ok h.digest
  obtain ⟨htype', f', hf', hd⟩ := digest_eq_ok h'.digest
  by_cases hclash : ∃ i j, c.Hashes i ∧ c'.Hashes j ∧ i.tag = j.tag ∧ i.Collides j
  · exact .inr hclash
  have hsame {i j : HashInput} (hi : i ∈ f.hashInputs c.type c.leaf)
      (hj : j ∈ f'.hashInputs c'.type c'.leaf) (ht : i.tag = j.tag) (he : i.digest = j.digest) :
      i = j :=
    Classical.byContradiction fun hne => hclash ⟨i, j, ⟨f, hf, hi⟩, ⟨f', hf', hj⟩, ht, hne, he⟩
  -- the messages agree first, and with them the digests of the lists
  have hmessage := hsame List.mem_cons_self List.mem_cons_self rfl hd
  obtain ⟨ht, hversion, hlocktime, hposition, hleaf, hlists⟩ :=
    DigestFields.message_inj hf hf' (congrArg HashInput.data hmessage)
  have hfield : ∀ field ∈ DigestFields.lists, field f = field f' := by
    intro field hm
    have hi : (⟨none, field f⟩ : HashInput) ∈ f.hashInputs c.type c.leaf :=
      List.mem_cons_of_mem _ (List.mem_map_of_mem hm)
    have hj : (⟨none, field f'⟩ : HashInput) ∈ f'.hashInputs c'.type c'.leaf :=
      List.mem_cons_of_mem _ (List.mem_map_of_mem hm)
    exact congrArg HashInput.data (hsame hi hj rfl (hlists field hm))
  simp only [DigestFields.lists, List.forall_mem_cons] at hfield
  obtain ⟨houtpoints, hvalues, hscripts, hsequences, houtputs, -⟩ := hfield
  have hinputs := map_pair_eq
    (TxIn.delimits_outpoint.map_eq h.txid h'.txid hf.outpoints (houtpoints ▸ hf'.outpoints))
    (TxIn.delimits_sequence.map_eq (fun _ _ => trivial) (fun _ _ => trivial) hf.sequences
      (hsequences ▸ hf'.sequences))
  have hspent := map_pair_eq
    (TxOut.delimits_value.map_eq (fun _ _ => trivial) (fun _ _ => trivial) hf.values
      (hvalues ▸ hf'.values))
    (TxOut.delimits_script.map_eq h.spent h'.spent hf.scripts (hscripts ▸ hf'.scripts))
  have houts := TxOut.delimits_encode.map_eq h.outputs h'.outputs hf.outputs (houtputs ▸ hf'.outputs)
  refine .inl ⟨unsignedLE_inj hf.version (hversion ▸ hf'.version),
    unsignedLE_inj hf.locktime (hlocktime ▸ hf'.locktime),
    unsignedLE_inj hf.position (hposition ▸ hf'.position), sighashType_inj htype htype' ht, hleaf,
    ?_, ?_, by simpa using houts⟩
  · have he := congrArg (List.map fun p : (Bytes × Int) × Int => (p.1.1, p.1.2, p.2)) hinputs
    simpa only [List.map_map, Function.comp_def] using he
  · have he := congrArg (List.map fun p : Int × Bytes => TxOut.mk p.1 p.2) hspent
    simpa [List.map_map, Function.comp_def] using he

end Transaction

namespace SignedAndBare

open Transaction

/-- Two inputs, of which the second one signs for a leaf. -/
def bare : DigestCall where
  transaction := {
    inputs := [
      { txid := Bytes.ofNatBE 32 1, vout := 0, sequence := 0xffffffff },
      { txid := Bytes.ofNatBE 32 2, vout := 7, sequence := 0 }]
    outputs := [⟨1000, 0x51 :: 0x20 :: Bytes.ofNatBE 32 3⟩, ⟨0, []⟩]
    locktime := 499999999 }
  index := 1
  spent := [⟨600, 0x51 :: 0x20 :: Bytes.ofNatBE 32 4⟩, ⟨500, []⟩]
  type := 1
  leaf := some (Bytes.ofNatBE 32 5)

/-- The same with the first input signed. -/
def signed : DigestCall :=
  { bare with
    transaction := { bare.transaction with
      inputs := bare.transaction.inputs.map fun i => { i with witness := [Bytes.ofNatBE 64 6] } } }

theorem answered : (bare.transaction.digest bare.index bare.spent bare.type
    bare.leaf).toOption.isSome = true := rfl

def digest : Bytes :=
  (bare.transaction.digest bare.index bare.spent bare.type bare.leaf).toOption.get answered

theorem bare_answers : bare.Answers digest where
  digest := eq_ok_get answered
  txid := by decide
  spent := show ∀ o ∈ bare.spent, o.script.length < Bytes.bound 8 by decide
  outputs := show ∀ o ∈ bare.transaction.outputs, o.script.length < Bytes.bound 8 by decide

theorem signed_answers : signed.Answers digest where
  digest := eq_ok_get answered
  txid := by decide
  spent := bare_answers.spent
  outputs := bare_answers.outputs

theorem agree : bare.Answers digest ∧ signed.Answers digest ∧ (bare.Agrees signed ∨
    ∃ i j, bare.Hashes i ∧ signed.Hashes j ∧ i.tag = j.tag ∧ i.Collides j) :=
  ⟨bare_answers, signed_answers, digest_binds bare_answers signed_answers⟩

end SignedAndBare
end Taproot
