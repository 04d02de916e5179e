import Taproot.Proofs.Transaction.Readers

/-! # Reading back transactions

Encoding writes the spellings of the wire format whose sizes are shortest, and the reader takes every
spelling. The fields of a transaction are recovered one after the other, and the marker tells whether
witnesses follow: without it comes the number of inputs, whose first byte is not zero.
-/
namespace Taproot

/-! ## Compact sizes -/

/-- The first byte of a size tells how many bytes follow, and is zero for zero only. -/
theorem CompactSize.exists_ofNat {n : Nat} (h : n < Bytes.bound 8) : ∃ first tail,
    ofNat n = first :: tail ∧ tail.length = tailWidth first ∧ value first tail = n ∧
      (n ≠ 0 → first ≠ 0) := by
  obtain ⟨first, tail, he, hl, hv⟩ := form_ofNat h
  refine ⟨first, tail, he, hl, hv, fun h0 hz => ?_⟩
  have hhead := (form_ofNat h).head_ne_zero h0
  rw [he, hz] at hhead
  exact hhead rfl

theorem lt_bound_of_lt_indexLimit {n : Nat} (h : n < Cursor.indexLimit) : n < Bytes.bound 8 := by
  simp only [Cursor.indexLimit, Bytes.bound] at h ⊢
  omega

theorem unsignedLE_eq_ok {width : Nat} {v : Int} (h : 0 ≤ v ∧ v < Bytes.bound width) :
    unsignedLE width v = .ok (Bytes.ofNatLE width v.toNat) := if_pos h

theorem unsignedLE_eq_ok_iff {width : Nat} {v : Int} {b : Bytes} : unsignedLE width v = .ok b ↔
    (0 ≤ v ∧ v < Bytes.bound width) ∧ b = Bytes.ofNatLE width v.toNat := by
  unfold unsignedLE
  split
  · rename_i h
    simp [h, eq_comm]
  · rename_i h
    simp [h]

theorem exists_unsignedLE {width : Nat} {v : Int} :
    (∃ b, unsignedLE width v = .ok b) ↔ 0 ≤ v ∧ v < Bytes.bound width := by
  simp only [unsignedLE_eq_ok_iff]
  exact ⟨fun ⟨_, h, _⟩ => h, fun h => ⟨_, h, rfl⟩⟩

/-! ## Encoders and the wire format -/

open CompactSize (Form Shortest)

theorem Format.number_iff {width : Nat} {v : Int} {b : Bytes} :
    Format.number width v b ↔ unsignedLE width v = .ok b := by
  rw [unsignedLE_eq_ok_iff]
  constructor
  · intro h
    refine ⟨h.range, ?_⟩
    obtain ⟨hl, rfl⟩ := h
    rw [Int.toNat_natCast, Bytes.ofNatLE_toNatLE hl]
  · rintro ⟨h, rfl⟩
    have hv : v.toNat < Bytes.bound width := by omega
    refine ⟨Bytes.length_ofNatLE width v.toNat, ?_⟩
    rw [Bytes.toNatLE_ofNatLE hv, Int.toNat_of_nonneg h.1]

theorem Format.sized_iff {x b : Bytes} (h : x.length < Bytes.bound 8) :
    Format.sized Shortest x b ↔ b = Taproot.sized x := by
  simp only [Format.sized, CompactSize.shortest_iff]
  constructor
  · rintro ⟨s, ⟨-, rfl⟩, rfl⟩
    rfl
  · rintro rfl
    exact ⟨_, ⟨h, rfl⟩, rfl⟩

theorem Format.counted_iff {α : Type} {F : Format α} {encode : α → Except EncodingError Bytes}
    {xs : List α} {b : Bytes} (hl : xs.length < Bytes.bound 8)
    (h : ∀ x ∈ xs, ∀ e, F x e ↔ encode x = .ok e) : Format.counted Shortest F xs b ↔
      ∃ e, encodeAll encode xs = .ok e ∧ b = CompactSize.ofNat xs.length ++ e := by
  simp only [Format.counted, CompactSize.shortest_iff, Format.joined_iff_encodeAll h]
  constructor
  · rintro ⟨s, e, ⟨-, rfl⟩, he, rfl⟩
    exact ⟨e, he, rfl⟩
  · rintro ⟨e, he, rfl⟩
    exact ⟨_, e, ⟨hl, rfl⟩, he, rfl⟩

theorem Cursor.encodeAll_ok {α : Type} (encode : α → Bytes) (xs : List α) :
    encodeAll (fun x => .ok (encode x)) xs = .ok (xs.flatMap encode) := by
  induction xs with
  | nil => rfl
  | cons x xs ih =>
    rw [encodeAll, ih]
    rfl

theorem exists_encodeAll {α : Type} {encode : α → Except EncodingError Bytes} {xs : List α} :
    (∃ b, encodeAll encode xs = .ok b) ↔ ∀ x ∈ xs, ∃ e, encode x = .ok e := by
  induction xs with
  | nil => exact ⟨fun _ => nofun, fun _ => ⟨[], rfl⟩⟩
  | cons x xs ih =>
    rw [List.forall_mem_cons, ← ih]
    simp only [encodeAll, bind_eq_ok, pure_eq_ok]
    constructor
    · rintro ⟨_, e, he, b, hb, -⟩
      exact ⟨⟨e, he⟩, b, hb⟩
    · rintro ⟨⟨e, he⟩, b, hb⟩
      exact ⟨_, e, he, b, hb, rfl⟩

theorem TxIn.exists_encode {i : TxIn} : (∃ e, i.encode = .ok e) ↔
    (0 ≤ i.vout ∧ i.vout < Bytes.bound 4) ∧ (0 ≤ i.sequence ∧ i.sequence < Bytes.bound 4) := by
  rw [← exists_unsignedLE, ← exists_unsignedLE]
  simp only [encode, encodeOutpoint, encodeSequence, bind_eq_ok, map_eq_ok, pure_eq_ok]
  constructor
  · rintro ⟨_, _, ⟨v, hv, -⟩, s, hs, -⟩
    exact ⟨⟨v, hv⟩, s, hs⟩
  · rintro ⟨⟨v, hv⟩, s, hs⟩
    exact ⟨_, _, ⟨v, hv, rfl⟩, s, hs, rfl⟩

theorem TxOut.exists_encode {o : TxOut} :
    (∃ e, o.encode = .ok e) ↔ 0 ≤ o.value ∧ o.value < Bytes.bound 8 := by
  rw [← exists_unsignedLE]
  simp only [encode, encodeValue, map_eq_ok]
  constructor
  · rintro ⟨_, v, hv, -⟩
    exact ⟨v, hv⟩
  · rintro ⟨v, hv⟩
    exact ⟨_, v, hv, rfl⟩

theorem TxIn.format_iff {i : TxIn} (h : i.InRange) {b : Bytes} :
    TxIn.format Shortest i b ↔ i.encode = .ok b := by
  simp only [format, encode, encodeOutpoint, encodeSequence, bind_eq_ok, map_eq_ok, pure_eq_ok,
    Format.number_iff, Format.sized_iff h.scriptSig]
  constructor
  · rintro ⟨txid, vout, _, sequence, -, htxid, hv, rfl, hs, rfl⟩
    refine ⟨_, ⟨vout, hv, rfl⟩, sequence, hs, ?_⟩
    rw [htxid, List.reverse_reverse, List.append_assoc]
  · rintro ⟨_, ⟨vout, hv, rfl⟩, sequence, hs, rfl⟩
    exact ⟨i.txid.reverse, vout, _, sequence, by rw [List.length_reverse, h.txid],
      (List.reverse_reverse _).symm, hv, rfl, hs, List.append_assoc _ _ _⟩

theorem TxOut.format_iff {o : TxOut} (h : o.InRange) {b : Bytes} :
    TxOut.format Shortest o b ↔ o.encode = .ok b := by
  simp only [format, encode, encodeValue, map_eq_ok, Format.number_iff, Format.sized_iff h.script]
  constructor
  · rintro ⟨value, _, hv, rfl, rfl⟩
    exact ⟨value, hv, rfl⟩
  · rintro ⟨value, hv, rfl⟩
    exact ⟨value, _, hv, rfl, rfl⟩

theorem TxIn.witnessFormat_iff {i : TxIn} (h : i.InRange) {b : Bytes} :
    TxIn.witnessFormat Shortest i b ↔ b = i.encodeWitness := by
  have hitems : ∀ item ∈ i.witness, ∀ e,
      Format.sized Shortest item e ↔ (.ok (sized item) : Except EncodingError Bytes) = .ok e := by
    intro item hitem e
    rw [Format.sized_iff (h.items item hitem), Except.ok.injEq, eq_comm]
  rw [witnessFormat, Format.counted_iff h.count hitems, Cursor.encodeAll_ok]
  simp [encodeWitness]

theorem TxIn.joined_witnessFormat_iff {is : List TxIn} (h : ∀ i ∈ is, i.InRange) {b : Bytes} :
    Format.joined (TxIn.witnessFormat Shortest) is b ↔ b = is.flatMap TxIn.encodeWitness := by
  have hitems : ∀ i ∈ is, ∀ e, TxIn.witnessFormat Shortest i e ↔
      (.ok i.encodeWitness : Except EncodingError Bytes) = .ok e := by
    intro i hi e
    rw [TxIn.witnessFormat_iff (h i hi), Except.ok.injEq, eq_comm]
  rw [Format.joined_iff_encodeAll hitems, Cursor.encodeAll_ok, Except.ok.injEq, eq_comm]

/-! ## Inputs and outputs -/

open Cursor

/-- Every number fits its field, and every length and count is an index. -/
structure TxIn.Fits (i : TxIn) : Prop where
  txid : i.txid.length = 32
  vout : 0 ≤ i.vout ∧ i.vout < Bytes.bound 4
  sequence : 0 ≤ i.sequence ∧ i.sequence < Bytes.bound 4
  scriptSig : i.scriptSig.length < indexLimit
  count : i.witness.length < indexLimit
  items : ∀ item ∈ i.witness, item.length < indexLimit

structure TxOut.Fits (o : TxOut) : Prop where
  value : 0 ≤ o.value ∧ o.value < Bytes.bound 8
  script : o.script.length < indexLimit

theorem TxIn.Fits.inRange {i : TxIn} (h : i.Fits) : i.InRange where
  txid := h.txid
  vout := h.vout
  sequence := h.sequence
  scriptSig := lt_bound_of_lt_indexLimit h.scriptSig
  count := lt_bound_of_lt_indexLimit h.count
  items item hitem := lt_bound_of_lt_indexLimit (h.items item hitem)

theorem TxIn.Fits.encode_eq {i : TxIn} (h : i.Fits) : i.encode =
    .ok (i.txid.reverse ++ Bytes.ofNatLE 4 i.vout.toNat ++
      (Taproot.sized i.scriptSig ++ Bytes.ofNatLE 4 i.sequence.toNat)) := by
  rw [encode, encodeOutpoint, encodeSequence, unsignedLE_eq_ok h.vout, unsignedLE_eq_ok h.sequence]
  rfl

theorem TxOut.Fits.inRange {o : TxOut} (h : o.Fits) : o.InRange where
  value := h.value
  script := lt_bound_of_lt_indexLimit h.script

theorem TxOut.Fits.encode_eq {o : TxOut} (h : o.Fits) :
    o.encode = .ok (Bytes.ofNatLE 8 o.value.toNat ++ Taproot.sized o.script) := by
  rw [encode, encodeValue, unsignedLE_eq_ok h.value]
  rfl

theorem recovers_witnesses {is : List TxIn} (h : ∀ i ∈ is, i.Fits) :
    Recovers (witnesses (is.map TxIn.bare)) (is.flatMap TxIn.encodeWitness) is := by
  have hj := (TxIn.joined_witnessFormat_iff fun i hi => (h i hi).inRange).mpr rfl
  exact (reads_witnesses _).complete ⟨(map_bare_map_bare is).symm,
    hj.mono fun _ _ hi => TxIn.witnessFormat.mono CompactSize.form_of_shortest hi⟩

/-! ## Transactions -/

namespace Transaction

variable {tx : Transaction}

structure Fits (tx : Transaction) : Prop where
  nonempty : tx.inputs ≠ []
  version : 0 ≤ tx.version ∧ tx.version < Bytes.bound 4
  locktime : 0 ≤ tx.locktime ∧ tx.locktime < Bytes.bound 4
  inputCount : tx.inputs.length < indexLimit
  outputCount : tx.outputs.length < indexLimit
  input : ∀ i ∈ tx.inputs, i.Fits
  output : ∀ o ∈ tx.outputs, o.Fits

theorem number_append {width : Nat} {v : Int} (h : 0 ≤ v ∧ v < Bytes.bound width) (rest : Bytes)
    (offset : Nat) : number width ⟨Bytes.ofNatLE width v.toNat ++ rest, offset⟩ =
      (v.toNat, ⟨rest, offset + width⟩) := by
  have hv : v.toNat < Bytes.bound width := by omega
  have hr := (reads_number width).complete ⟨Bytes.length_ofNatLE width v.toNat, rfl⟩ rest offset
  rw [Bytes.toNatLE_ofNatLE hv, Bytes.length_ofNatLE] at hr
  exact Except.ok.inj hr

/-- What follows the version is read as the marker says. -/
theorem marker_witnessMarker (rest : Bytes) (offset : Nat) :
    marker ⟨witnessMarker ++ rest, offset⟩ = .ok (true, ⟨rest, offset + 2⟩) := rfl

theorem marker_ofNat {n : Nat} (hn : n < indexLimit) (h0 : n ≠ 0) (rest : Bytes) (offset : Nat) :
    marker ⟨CompactSize.ofNat n ++ rest, offset⟩ =
      .ok (false, ⟨CompactSize.ofNat n ++ rest, offset⟩) := by
  obtain ⟨first, tail, he, -, -, hz⟩ := CompactSize.exists_ofNat (lt_bound_of_lt_indexLimit hn)
  have hfirst : first ≠ 0 := hz h0
  rw [he, List.cons_append, marker]
  split
  · contradiction
  · rename_i heq
    exact absurd (List.cons.inj heq).1 hfirst
  · rename_i heq
    exact absurd (List.cons.inj heq).1 hfirst
  · rfl

/-- Without a witness the inputs are the bare ones. -/
theorem map_bare_of_not_hasWitness (h : tx.hasWitness = false) :
    tx.inputs.map TxIn.bare = tx.inputs := by
  rw [map_bare_eq_self]
  intro i hi
  simpa using List.any_eq_false.mp h i hi

/-- An id is computed exactly where every number fits its field. -/
theorem exists_txid : (∃ id, tx.txid = .ok id) ↔
    (0 ≤ tx.version ∧ tx.version < Bytes.bound 4) ∧
    (∀ i ∈ tx.inputs, (0 ≤ i.vout ∧ i.vout < Bytes.bound 4) ∧
      (0 ≤ i.sequence ∧ i.sequence < Bytes.bound 4)) ∧
    (∀ o ∈ tx.outputs, 0 ≤ o.value ∧ o.value < Bytes.bound 8) ∧
    (0 ≤ tx.locktime ∧ tx.locktime < Bytes.bound 4) := by
  simp only [← TxIn.exists_encode, ← TxOut.exists_encode, ← exists_encodeAll]
  simp only [← exists_unsignedLE, txid, encodeBase, encodeWith, map_eq_ok, bind_eq_ok, pure_eq_ok]
  constructor
  · rintro ⟨_, _, ⟨v, hv, is, hi, os, ho, l, hl, -⟩, -⟩
    exact ⟨⟨v, hv⟩, ⟨is, hi⟩, ⟨os, ho⟩, l, hl⟩
  · rintro ⟨⟨v, hv⟩, ⟨is, hi⟩, ⟨os, ho⟩, l, hl⟩
    exact ⟨_, _, ⟨v, hv, is, hi, os, ho, l, hl, rfl⟩, rfl⟩

namespace Fits

theorem encodeWith_eq_ok (h : tx.Fits) (marker witnesses : Bytes) : ∃ is os,
    encodeAll TxIn.encode tx.inputs = .ok is ∧ encodeAll TxOut.encode tx.outputs = .ok os ∧
      tx.encodeWith marker witnesses = .ok (Bytes.ofNatLE 4 tx.version.toNat ++ (marker ++
        (CompactSize.ofNat tx.inputs.length ++ (is ++ (CompactSize.ofNat tx.outputs.length ++
          (os ++ (witnesses ++ Bytes.ofNatLE 4 tx.locktime.toNat))))))) := by
  obtain ⟨is, hi⟩ := exists_encodeAll.mpr fun i hi => ⟨_, (h.input i hi).encode_eq⟩
  obtain ⟨os, ho⟩ := exists_encodeAll.mpr fun o ho => ⟨_, (h.output o ho).encode_eq⟩
  refine ⟨is, os, hi, ho, ?_⟩
  rw [encodeWith, unsignedLE_eq_ok h.version, unsignedLE_eq_ok h.locktime, hi, ho]
  rfl

/-- The bytes behind the marker, up to the witnesses. -/
theorem recovers_inputs (h : tx.Fits) {is : Bytes}
    (hi : encodeAll TxIn.encode tx.inputs = .ok is) :
    Recovers (counted txIn) (CompactSize.ofNat tx.inputs.length ++ is)
      (tx.inputs.map TxIn.bare) := by
  have hc := (Format.counted_iff (lt_bound_of_lt_indexLimit h.inputCount) fun i hi _ =>
    TxIn.format_iff (h.input i hi).inRange).mpr ⟨is, hi, rfl⟩
  have hform := hc.mono CompactSize.form_of_shortest fun _ _ hi => TxIn.format.mono CompactSize.form_of_shortest hi
  exact reads_txIn.counted.complete (counted_format_and_bare.mpr
    ⟨map_bare_map_bare tx.inputs, counted_format_map_bare.mpr hform⟩)

theorem recovers_outputs (h : tx.Fits) {os : Bytes}
    (ho : encodeAll TxOut.encode tx.outputs = .ok os) :
    Recovers (counted txOut) (CompactSize.ofNat tx.outputs.length ++ os) tx.outputs := by
  have hc := (Format.counted_iff (lt_bound_of_lt_indexLimit h.outputCount) fun o ho _ =>
    TxOut.format_iff (h.output o ho).inRange).mpr ⟨os, ho, rfl⟩
  exact reads_txOut.counted.complete
    (hc.mono CompactSize.form_of_shortest fun _ _ ho => TxOut.format.mono CompactSize.form_of_shortest ho)

/-- The reader on an encoding: `tail` stands for the witnesses. -/
theorem read_eq_ok (h : tx.Fits) {is os tail : Bytes} (m : Bytes) (marked : Bool)
    (hi : encodeAll TxIn.encode tx.inputs = .ok is)
    (ho : encodeAll TxOut.encode tx.outputs = .ok os)
    (hm : ∀ rest offset, marker ⟨m ++ (CompactSize.ofNat tx.inputs.length ++ rest), offset⟩ =
      .ok (marked, ⟨CompactSize.ofNat tx.inputs.length ++ rest, offset + m.length⟩))
    (ht : Recovers (fun c => if marked then witnesses (tx.inputs.map TxIn.bare) c
      else .ok (tx.inputs.map TxIn.bare, c)) tail tx.inputs) :
    read (Bytes.ofNatLE 4 tx.version.toNat ++ (m ++ (CompactSize.ofNat tx.inputs.length ++
      (is ++ (CompactSize.ofNat tx.outputs.length ++ (os ++
        (tail ++ Bytes.ofNatLE 4 tx.locktime.toNat))))))) = .ok tx := by
  have hins := h.recovers_inputs hi
  have houts := h.recovers_outputs ho
  have hlock := number_append h.locktime []
  simp only [List.append_nil] at hlock
  rw [read, start]
  simp only [number_append h.version]
  rw [bind_eq_ok]
  refine ⟨_, hm _ _, ?_⟩
  rw [bind_eq_ok]
  refine ⟨_, by rw [← List.append_assoc]; exact hins _ _, ?_⟩
  rw [bind_eq_ok]
  refine ⟨_, by rw [← List.append_assoc]; exact houts _ _, ?_⟩
  -- the choice of the reader of witnesses stands in front of all that follows it
  cases marked <;>
  · simp only [Bool.false_eq_true, ↓reduceIte] at ht ⊢
    rw [bind_eq_ok]
    refine ⟨_, ht _ _, ?_⟩
    simp only [hlock]
    rw [if_neg]
    · rw [pure_eq_ok, Int.toNat_of_nonneg h.version.1, Int.toNat_of_nonneg h.locktime.1]
    · simp only [List.length_append, Bytes.length_ofNatLE]
      omega

end Fits

/-- A transaction whose parts fit is encoded, and its encoding is decoded to it. -/
theorem decode_encoded (h : tx.Fits) : ∃ b, tx.encode = .ok b ∧ decode b = .ok tx := by
  have hcount : tx.inputs.length ≠ 0 := by simpa using h.nonempty
  cases hw : tx.hasWitness with
  | true =>
    obtain ⟨is, os, hi, ho, he⟩ :=
      h.encodeWith_eq_ok witnessMarker (tx.inputs.flatMap TxIn.encodeWitness)
    have hr := h.read_eq_ok witnessMarker true hi ho
      (fun rest offset => marker_witnessMarker _ offset) (recovers_witnesses h.input)
    refine ⟨_, by rw [encode, if_pos hw]; exact he, ?_⟩
    rw [decode, hr]
  | false =>
    obtain ⟨is, os, hi, ho, he⟩ := h.encodeWith_eq_ok [] []
    have hbare : Recovers (fun c => .ok (tx.inputs.map TxIn.bare, c)) [] tx.inputs := by
      rw [map_bare_of_not_hasWitness hw]
      exact fun rest offset => rfl
    have hr := h.read_eq_ok [] false hi ho
      (fun rest offset => marker_ofNat h.inputCount hcount rest offset) hbare
    refine ⟨_, by rw [encode, hw]; exact he, ?_⟩
    rw [decode, hr]

end Transaction

namespace MixedWitnesses

/-- The first input has a witness with an empty item in it, the second one has none. -/
def transaction : Transaction where
  inputs := [
    { txid := Bytes.ofNatBE 32 1, vout := 0, sequence := 0xffffffff, witness := [[], [1, 2], []] },
    { txid := Bytes.ofNatBE 32 2, vout := 0xffffffff, sequence := 0, scriptSig := [0x51] }]
  outputs := [{ value := 0xffffffffffffffff, script := List.replicate 300 0x6a }]
  locktime := 499999999

theorem fits : transaction.Fits where
  nonempty := List.cons_ne_nil _ _
  version := by decide
  locktime := by decide
  inputCount := by decide
  outputCount := by decide
  input i hi := by
    rcases List.mem_cons.mp hi with rfl | hi
    · exact ⟨by decide, by decide, by decide, by decide, by decide, by decide⟩
    · rw [List.mem_singleton.mp hi]
      exact ⟨by decide, by decide, by decide, by decide, by decide, by decide⟩
  output o ho := by
    rw [List.mem_singleton.mp ho]
    exact ⟨by decide, by rw [List.length_replicate]; decide⟩

theorem decoded : ∃ b, transaction.encode = .ok b ∧ Transaction.decode b = .ok transaction :=
  Transaction.decode_encoded fits

end MixedWitnesses
end Taproot
