import Taproot.Proofs.Transaction.Encoding

/-! # What a decoded transaction says of its bytes

Bytes are decoded to a transaction exactly where they are a spelling of it that has the marker where
they have it. Encoding writes one of these spellings, the one with the shortest sizes and with the
marker where there is a witness. Apart from longer sizes, and a marker before inputs without a
witness, decoding is therefore undone by encoding.
-/
namespace Taproot
namespace Transaction

open Cursor
open CompactSize (Form Shortest)

variable {tx : Transaction} {b : Bytes} {marked : Bool}

theorem decode_eq_ok : decode b = .ok tx ↔ read b = .ok tx := by
  unfold decode
  split
  · rename_i he
    rw [he, Except.ok.injEq, Except.ok.injEq]
  · rename_i he
    rw [he]
    exact ⟨nofun, nofun⟩

theorem decode_eq_ok_iff : decode b = .ok tx ↔ format Form (isMarked b) tx b :=
  decode_eq_ok.trans read_eq_ok_iff_format

/-- The bytes behind the outputs. -/
def witnessBytes (tx : Transaction) : (marked : Bool) → Bytes
  | true => tx.inputs.flatMap TxIn.encodeWitness
  | false => []

theorem encode_eq (tx : Transaction) : tx.encode =
    tx.encodeWith (markerBytes tx.hasWitness) (tx.witnessBytes tx.hasWitness) := by
  rw [encode]
  cases tx.hasWitness <;> rfl

theorem witnessesFormat_iff (h : tx.InRange) (hm : marked = false → tx.hasWitness = false) :
    TxIn.witnessesFormat Shortest marked tx.inputs b ↔ b = tx.witnessBytes marked := by
  cases marked with
  | true => exact TxIn.joined_witnessFormat_iff h.input
  | false =>
    have hbare := map_bare_eq_self.mp (map_bare_of_not_hasWitness (hm rfl))
    exact and_iff_right hbare

/-- Encoding writes the shortest spelling, with the marker or without. -/
theorem format_shortest_iff (h : tx.InRange) (hm : marked = false → tx.hasWitness = false) :
    format Shortest marked tx b ↔
      tx.encodeWith (markerBytes marked) (tx.witnessBytes marked) = .ok b := by
  simp only [format, encodeWith, bind_eq_ok, pure_eq_ok, Format.number_iff,
    Format.counted_iff h.inputCount fun i hi _ => TxIn.format_iff (h.input i hi),
    Format.counted_iff h.outputCount fun o ho _ => TxOut.format_iff (h.output o ho),
    witnessesFormat_iff h hm]
  constructor
  · rintro ⟨version, _, _, _, locktime, hv, ⟨is, hi, rfl⟩, ⟨os, ho, rfl⟩, rfl, hl, rfl⟩
    exact ⟨version, hv, is, hi, os, ho, locktime, hl, by simp only [List.append_assoc]⟩
  · rintro ⟨version, hv, is, hi, os, ho, locktime, hl, rfl⟩
    exact ⟨version, _, _, _, locktime, hv, ⟨is, hi, rfl⟩, ⟨os, ho, rfl⟩, rfl, hl,
      by simp only [List.append_assoc]⟩

theorem encode_eq_ok_iff (h : tx.InRange) :
    tx.encode = .ok b ↔ format Shortest tx.hasWitness tx b := by
  rw [format_shortest_iff h id, encode_eq]

theorem InRange.exists_encode (h : tx.InRange) : ∃ b, tx.encode = .ok b := by
  obtain ⟨version, hv⟩ := exists_unsignedLE.mpr h.version
  obtain ⟨locktime, hl⟩ := exists_unsignedLE.mpr h.locktime
  obtain ⟨is, hi⟩ := exists_encodeAll.mpr fun i hi =>
    TxIn.exists_encode.mpr ⟨(h.input i hi).vout, (h.input i hi).sequence⟩
  obtain ⟨os, ho⟩ := exists_encodeAll.mpr fun o ho => TxOut.exists_encode.mpr (h.output o ho).value
  rw [encode_eq, encodeWith, hv, hi, ho, hl]
  exact ⟨_, rfl⟩

/-- With an input, what stands behind the version is the marker or no zero. -/
theorem isMarked_of_format (h : format Form marked tx b) (hi : tx.inputs ≠ []) :
    isMarked b = marked := by
  obtain ⟨version, inputs, outputs, witnesses, locktime, ⟨hl, -⟩, ⟨s, e, hs, -, rfl⟩, -, -, -,
    rfl⟩ := h
  rw [isMarked, ← hl, List.drop_left]
  cases marked with
  | true => rfl
  | false =>
    obtain ⟨first, tail, rfl, -, hvalue⟩ := hs
    rw [decide_eq_false_iff_not]
    intro hmarker
    obtain rfl : first = 0 := (List.cons.inj hmarker).1
    exact hi (List.length_eq_zero_iff.mp hvalue.symm)

theorem decode_of_encode (h : tx.InRange) (hi : tx.inputs ≠ []) (he : tx.encode = .ok b) :
    decode b = .ok tx := by
  have hf : format Form tx.hasWitness tx b :=
    format.mono CompactSize.form_of_shortest ((encode_eq_ok_iff h).mp he)
  rw [decode_eq_ok_iff, isMarked_of_format hf hi]
  exact hf

/-- Every byte is read once: the bytes are one spelling of the transaction, whose fields are all in
range. They are its encoding where all sizes are shortest and the marker is there only for a witness;
and what has an input is read back from its encoding. -/
theorem decode_reads_all (h : decode b = .ok tx) :
    format Form (isMarked b) tx b ∧ tx.InRange ∧
      (format Shortest (isMarked b) tx b → isMarked b = tx.hasWitness → tx.encode = .ok b) ∧
      (tx.inputs ≠ [] → ∃ b', tx.encode = .ok b' ∧ decode b' = .ok tx) := by
  have hf := decode_eq_ok_iff.mp h
  refine ⟨hf, hf.inRange, ?_, ?_⟩
  · intro hs hm
    rw [hm] at hs
    exact (encode_eq_ok_iff hf.inRange).mpr hs
  · intro hi
    obtain ⟨b', he⟩ := hf.inRange.exists_encode
    exact ⟨b', he, decode_of_encode hf.inRange hi he⟩

end Transaction

namespace OverlongCount

/-- The number of inputs is spelled in three bytes, where one would do. -/
def bytes : Bytes :=
  [2, 0, 0, 0] ++ Transaction.witnessMarker ++ [0xfd, 1, 0] ++ List.replicate 32 0xab ++
    [1, 0, 0, 0] ++ [0] ++ [0xfe, 0xff, 0xff, 0xff] ++ [1] ++ [0x10, 0x27, 0, 0, 0, 0, 0, 0] ++
    [2, 0x51, 0x20] ++ [2, 1, 7, 0] ++ [0x65, 0xcd, 0x1d, 0]

def transaction : Transaction where
  inputs := [{
    txid := List.replicate 32 0xab, vout := 1, sequence := 0xfffffffe, witness := [[7], []] }]
  outputs := [{ value := 10000, script := [0x51, 0x20] }]
  locktime := 1953125

theorem reencoded : Transaction.decode bytes = .ok transaction ∧
    Transaction.format CompactSize.Form true transaction bytes ∧ transaction.InRange ∧
    ∃ b, transaction.encode = .ok b ∧ Transaction.decode b = .ok transaction := by
  have h : Transaction.decode bytes = .ok transaction := by decide
  obtain ⟨hformat, hrange, -, hagain⟩ := Transaction.decode_reads_all h
  exact ⟨h, hformat, hrange, hagain (List.cons_ne_nil _ _)⟩

end OverlongCount
end Taproot
