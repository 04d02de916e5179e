import Mathlib.Data.List.Forall2
import Taproot.Proofs.Result
import Taproot.Transaction.Basic

/-! # The wire format of transactions

A format relates values to the byte strings that stand for them. A size has up to four spellings, and
how sizes are spelled is a parameter of the formats: a reader takes every spelling, and the encoder
writes the shortest one.
-/
namespace Taproot

variable {α : Type}

/-- Values and the byte strings that stand for them. -/
abbrev Format (α : Type) := α → Bytes → Prop

/-! ## Numbers -/

theorem Bytes.ofNatLE_toNatLE {w : Nat} {b : Bytes} (h : b.length = w) : ofNatLE w b.toNatLE = b := by
  induction w generalizing b with
  | zero =>
    obtain rfl := List.eq_nil_of_length_eq_zero h
    rfl
  | succ w ih =>
    obtain ⟨x, xs, rfl⟩ := List.exists_cons_of_length_eq_add_one h
    have hx := x.toNat_lt
    have hlow : UInt8.ofNat (x.toNat + 256 * toNatLE xs) = x := by
      apply UInt8.toNat_inj.mp
      rw [UInt8.toNat_ofNat']
      omega
    have hhigh : (x.toNat + 256 * toNatLE xs) / 256 = toNatLE xs := by omega
    rw [toNatLE, ofNatLE, hlow, hhigh, ih (Nat.succ.inj h)]

/-- A number of so many bytes, least significant first. -/
def Format.number (width : Nat) : Format Int := fun v b => b.length = width ∧ v = b.toNatLE

theorem Format.number.range {width : Nat} {v : Int} {b : Bytes} (h : Format.number width v b) :
    0 ≤ v ∧ v < Bytes.bound width := by
  obtain ⟨rfl, rfl⟩ := h
  exact ⟨Int.natCast_nonneg _, Int.ofNat_lt.mpr (Bytes.toNatLE_lt b)⟩

/-! ## Sizes -/

namespace CompactSize

/-- Every spelling of a size: a first byte, and behind it as many as the first one tells. -/
def Form : Format Nat := fun n s =>
  ∃ first tail, s = first :: tail ∧ tail.length = tailWidth first ∧ value first tail = n

/-- The spellings of a size that no other one is shorter than. -/
def Shortest : Format Nat := fun n s => Form n s ∧ ∀ s', Form n s' → s.length ≤ s'.length

theorem tailWidth_cases (first : UInt8) : (first < 0xfd ∧ tailWidth first = 0) ∨
    (first = 0xfd ∧ tailWidth first = 2) ∨ (first = 0xfe ∧ tailWidth first = 4) ∨
    (first = 0xff ∧ tailWidth first = 8) := by
  unfold tailWidth
  split
  · rename_i h
    exact .inl ⟨h, rfl⟩
  · split
    · rename_i h
      exact .inr (.inl ⟨h, rfl⟩)
    · split
      · rename_i h
        exact .inr (.inr (.inl ⟨h, rfl⟩))
      · rename_i hlt hfd hfe
        refine .inr (.inr (.inr ⟨?_, rfl⟩))
        rw [UInt8.lt_iff_toNat_lt] at hlt
        rw [← UInt8.toNat_inj] at hfd hfe ⊢
        have hfirst := first.toNat_lt
        simp only [UInt8.reduceToNat] at hlt hfd hfe ⊢
        omega

theorem form_of_shortest (n : Nat) (s : Bytes) (h : Shortest n s) : Form n s := h.1

theorem form_small {n : Nat} (h : n < 0xfd) : Form n [UInt8.ofNat n] := by
  have hv : (UInt8.ofNat n).toNat = n := by
    rw [UInt8.toNat_ofNat']
    omega
  have hlt : UInt8.ofNat n < 0xfd := by
    rw [UInt8.lt_iff_toNat_lt, hv]
    exact h
  exact ⟨UInt8.ofNat n, [], rfl, by simp [tailWidth, hlt], by simp [value, hlt, hv]⟩

theorem form_wide {n w : Nat} {first : UInt8} (hw : tailWidth first = w) (h0 : ¬first < 0xfd)
    (h : n < Bytes.bound w) : Form n (first :: Bytes.ofNatLE w n) := by
  refine ⟨first, _, rfl, by rw [Bytes.length_ofNatLE, hw], ?_⟩
  rw [value, if_neg h0, Bytes.toNatLE_ofNatLE h]

theorem wide_of_form {first : UInt8} {tail : Bytes} {w : Nat} (hl : tail.length = w)
    (h0 : ¬first < 0xfd) : value first tail < Bytes.bound w ∧
      first :: tail = first :: Bytes.ofNatLE w (value first tail) := by
  rw [value, if_neg h0, Bytes.ofNatLE_toNatLE hl, ← hl]
  exact ⟨Bytes.toNatLE_lt tail, rfl⟩

/-- A size has one spelling of each width that it fits into. -/
theorem form_iff {n : Nat} {s : Bytes} : Form n s ↔
    (n < 0xfd ∧ s = [UInt8.ofNat n]) ∨ (n < Bytes.bound 2 ∧ s = 0xfd :: Bytes.ofNatLE 2 n) ∨
      (n < Bytes.bound 4 ∧ s = 0xfe :: Bytes.ofNatLE 4 n) ∨
      (n < Bytes.bound 8 ∧ s = 0xff :: Bytes.ofNatLE 8 n) := by
  constructor
  · rintro ⟨first, tail, rfl, hl, rfl⟩
    obtain ⟨hlt, hw⟩ | ⟨rfl, hw⟩ | ⟨rfl, hw⟩ | ⟨rfl, hw⟩ := tailWidth_cases first
    · obtain rfl := List.eq_nil_of_length_eq_zero (hl.trans hw)
      rw [value, if_pos hlt, UInt8.ofNat_toNat]
      exact .inl ⟨UInt8.lt_iff_toNat_lt.mp hlt, rfl⟩
    · exact .inr (.inl (wide_of_form hl (by decide)))
    · exact .inr (.inr (.inl (wide_of_form hl (by decide))))
    · exact .inr (.inr (.inr (wide_of_form hl (by decide))))
  · rintro (⟨h, rfl⟩ | ⟨h, rfl⟩ | ⟨h, rfl⟩ | ⟨h, rfl⟩)
    · exact form_small h
    · exact form_wide rfl (by decide) h
    · exact form_wide rfl (by decide) h
    · exact form_wide rfl (by decide) h

theorem Form.lt_bound {n : Nat} {s : Bytes} (h : Form n s) : n < Bytes.bound 8 := by
  obtain ⟨h, -⟩ | ⟨h, -⟩ | ⟨h, -⟩ | ⟨h, -⟩ := form_iff.mp h
  all_goals simp only [Bytes.bound] at h ⊢; omega

theorem form_ofNat {n : Nat} (h : n < Bytes.bound 8) : Form n (ofNat n) := by
  unfold ofNat
  split
  · exact form_small ‹_›
  · split
    · exact form_wide rfl (by decide) (by simp only [Bytes.bound]; omega)
    · split
      · exact form_wide rfl (by decide) (by simp only [Bytes.bound]; omega)
      · exact form_wide rfl (by decide) h

/-- A spelling is the one that is written, or it is longer. -/
theorem Form.eq_or_lt {n : Nat} {s : Bytes} (h : Form n s) :
    s = ofNat n ∨ (ofNat n).length < s.length := by
  obtain ⟨hn, rfl⟩ | ⟨hn, rfl⟩ | ⟨hn, rfl⟩ | ⟨hn, rfl⟩ := form_iff.mp h
  · exact .inl (if_pos hn).symm
  all_goals
    simp only [Bytes.bound] at hn
    unfold ofNat
    split_ifs <;> simp <;> omega

theorem shortest_iff {n : Nat} {s : Bytes} :
    Shortest n s ↔ n < Bytes.bound 8 ∧ s = ofNat n := by
  constructor
  · rintro ⟨h, hmin⟩
    refine ⟨h.lt_bound, h.eq_or_lt.resolve_right ?_⟩
    exact Nat.not_lt.mpr (hmin _ (form_ofNat h.lt_bound))
  · rintro ⟨hn, rfl⟩
    refine ⟨form_ofNat hn, fun s' h => ?_⟩
    obtain rfl | hlt := h.eq_or_lt
    · exact Nat.le_refl _
    · exact Nat.le_of_lt hlt

theorem Form.length_pos {n : Nat} {s : Bytes} (h : Form n s) : 0 < s.length := by
  obtain ⟨first, tail, rfl, -⟩ := h
  exact Nat.succ_pos _

theorem Form.head_ne_zero {n : Nat} {s : Bytes} (h : Form n s) (h0 : n ≠ 0) : s.head? ≠ some 0 := by
  obtain ⟨first, tail, rfl, -, rfl⟩ := h
  rintro ⟨⟩
  exact h0 rfl

end CompactSize

/-! ## The formats -/

namespace Format

/-- Items one behind the other. -/
def joined (F : Format α) : Format (List α) := fun xs b => ∃ es, List.Forall₂ F xs es ∧ b = es.flatten

variable {F G : Format α} {x : α} {xs : List α} {b : Bytes}

@[simp] theorem joined_nil : joined F [] b ↔ b = [] := by
  constructor
  · rintro ⟨es, hes, rfl⟩
    cases hes
    rfl
  · rintro rfl
    exact ⟨[], .nil, rfl⟩

theorem joined_cons : joined F (x :: xs) b ↔ ∃ e rest, F x e ∧ joined F xs rest ∧ b = e ++ rest := by
  constructor
  · rintro ⟨es, hes, rfl⟩
    cases hes with
    | cons hx hes => exact ⟨_, _, hx, ⟨_, hes, rfl⟩, rfl⟩
  · rintro ⟨e, rest, hx, ⟨es, hes, rfl⟩, rfl⟩
    exact ⟨e :: es, .cons hx hes, rfl⟩

theorem joined.mono (h : joined F xs b) (hFG : ∀ y e, F y e → G y e) : joined G xs b := by
  obtain ⟨es, hes, rfl⟩ := h
  exact ⟨es, hes.imp hFG, rfl⟩

theorem joined.exists_of_mem (h : joined F xs b) (hx : x ∈ xs) : ∃ e, F x e := by
  obtain ⟨es, hes, -⟩ := h
  induction hes with
  | nil => cases hx
  | cons hy _ ih =>
    obtain rfl | hx := List.mem_cons.mp hx
    · exact ⟨_, hy⟩
    · exact ih hx

/-- The spellings are those that are written, where this holds of each item. -/
theorem joined_iff_encodeAll {encode : α → Except EncodingError Bytes}
    (h : ∀ y ∈ xs, ∀ e, F y e ↔ encode y = .ok e) : joined F xs b ↔ encodeAll encode xs = .ok b := by
  induction xs generalizing b with
  | nil =>
    rw [joined_nil, encodeAll, Except.ok.injEq, eq_comm]
  | cons y ys ih =>
    simp only [joined_cons, encodeAll, bind_eq_ok, pure_eq_ok, h y List.mem_cons_self,
      ih fun z hz => h z (List.mem_cons_of_mem y hz)]
    constructor
    · rintro ⟨e, rest, he, hrest, rfl⟩
      exact ⟨e, he, rest, hrest, rfl⟩
    · rintro ⟨e, he, rest, hrest, rfl⟩
      exact ⟨e, rest, he, hrest, rfl⟩

variable (S : Format Nat)

/-- Bytes behind their length. -/
def sized : Format Bytes := fun x b => ∃ s, S x.length s ∧ b = s ++ x

/-- Items behind their number. -/
def counted (F : Format α) : Format (List α) := fun xs b =>
  ∃ s e, S xs.length s ∧ joined F xs e ∧ b = s ++ e

end Format

section Formats

variable (S : Format Nat)

/-- The witness is spelled elsewhere. -/
def TxIn.format : Format TxIn := fun i b => ∃ txid vout script sequence,
  txid.length = 32 ∧ i.txid = txid.reverse ∧ Format.number 4 i.vout vout ∧
  Format.sized S i.scriptSig script ∧ Format.number 4 i.sequence sequence ∧
  b = txid ++ (vout ++ (script ++ sequence))

def TxIn.witnessFormat : Format TxIn := fun i => Format.counted S (Format.sized S) i.witness

def TxOut.format : Format TxOut := fun o b => ∃ value script,
  Format.number 8 o.value value ∧ Format.sized S o.script script ∧ b = value ++ script

/-- The witnesses of all inputs; without the marker there are none. -/
def TxIn.witnessesFormat : (marked : Bool) → Format (List TxIn)
  | true, is, b => Format.joined (TxIn.witnessFormat S) is b
  | false, is, b => (∀ i ∈ is, i.witness = []) ∧ b = []

/-- What stands before the inputs. -/
def Transaction.markerBytes : (marked : Bool) → Bytes
  | true => witnessMarker
  | false => []

def Transaction.format (marked : Bool) : Format Transaction := fun tx b =>
  ∃ version inputs outputs witnesses locktime,
    Format.number 4 tx.version version ∧
    Format.counted S (TxIn.format S) tx.inputs inputs ∧
    Format.counted S (TxOut.format S) tx.outputs outputs ∧
    TxIn.witnessesFormat S marked tx.inputs witnesses ∧
    Format.number 4 tx.locktime locktime ∧
    b = version ++ (markerBytes marked ++ (inputs ++ (outputs ++ (witnesses ++ locktime))))

end Formats

/-! ## More spellings of sizes -/

section Mono

variable {S T : Format Nat} (hST : ∀ n s, S n s → T n s)
include hST

theorem Format.sized.mono {x b : Bytes} (h : Format.sized S x b) : Format.sized T x b := by
  obtain ⟨s, hs, rfl⟩ := h
  exact ⟨s, hST _ _ hs, rfl⟩

theorem Format.counted.mono {F G : Format α} (hFG : ∀ x e, F x e → G x e) {xs : List α} {b : Bytes}
    (h : Format.counted S F xs b) : Format.counted T G xs b := by
  obtain ⟨s, e, hs, he, rfl⟩ := h
  exact ⟨s, e, hST _ _ hs, he.mono hFG, rfl⟩

theorem TxIn.format.mono {i : TxIn} {b : Bytes} (h : TxIn.format S i b) : TxIn.format T i b := by
  obtain ⟨txid, vout, script, sequence, ht, hi, hv, hs, hq, rfl⟩ := h
  exact ⟨txid, vout, script, sequence, ht, hi, hv, hs.mono hST, hq, rfl⟩

theorem TxOut.format.mono {o : TxOut} {b : Bytes} (h : TxOut.format S o b) :
    TxOut.format T o b := by
  obtain ⟨value, script, hv, hs, rfl⟩ := h
  exact ⟨value, script, hv, hs.mono hST, rfl⟩

theorem TxIn.witnessFormat.mono {i : TxIn} {b : Bytes} (h : TxIn.witnessFormat S i b) :
    TxIn.witnessFormat T i b :=
  Format.counted.mono hST (fun _ _ hx => Format.sized.mono hST hx) h

theorem TxIn.witnessesFormat.mono {marked : Bool} {is : List TxIn} {b : Bytes}
    (h : TxIn.witnessesFormat S marked is b) : TxIn.witnessesFormat T marked is b := by
  cases marked with
  | true => exact Format.joined.mono h fun _ _ hi => TxIn.witnessFormat.mono hST hi
  | false => exact h

theorem Transaction.format.mono {marked : Bool} {tx : Transaction} {b : Bytes}
    (h : Transaction.format S marked tx b) : Transaction.format T marked tx b := by
  obtain ⟨version, inputs, outputs, witnesses, locktime, hv, hin, hout, hwit, hlock, rfl⟩ := h
  exact ⟨version, inputs, outputs, witnesses, locktime, hv,
    hin.mono hST fun _ _ hi => TxIn.format.mono hST hi,
    hout.mono hST fun _ _ ho => TxOut.format.mono hST ho, hwit.mono hST, hlock, rfl⟩

end Mono

/-! ## What has a spelling -/

/-- Every number fits its field, and every length and count fits a size. -/
structure TxIn.InRange (i : TxIn) : Prop where
  txid : i.txid.length = 32
  vout : 0 ≤ i.vout ∧ i.vout < Bytes.bound 4
  sequence : 0 ≤ i.sequence ∧ i.sequence < Bytes.bound 4
  scriptSig : i.scriptSig.length < Bytes.bound 8
  count : i.witness.length < Bytes.bound 8
  items : ∀ item ∈ i.witness, item.length < Bytes.bound 8

structure TxOut.InRange (o : TxOut) : Prop where
  value : 0 ≤ o.value ∧ o.value < Bytes.bound 8
  script : o.script.length < Bytes.bound 8

structure Transaction.InRange (tx : Transaction) : Prop where
  version : 0 ≤ tx.version ∧ tx.version < Bytes.bound 4
  locktime : 0 ≤ tx.locktime ∧ tx.locktime < Bytes.bound 4
  inputCount : tx.inputs.length < Bytes.bound 8
  outputCount : tx.outputs.length < Bytes.bound 8
  input : ∀ i ∈ tx.inputs, i.InRange
  output : ∀ o ∈ tx.outputs, o.InRange

section InRange

open CompactSize (Form)

theorem Format.sized.lt_bound {x b : Bytes} (h : Format.sized Form x b) :
    x.length < Bytes.bound 8 := by
  obtain ⟨s, hs, -⟩ := h
  exact hs.lt_bound

theorem Format.counted.lt_bound {F : Format α} {xs : List α} {b : Bytes}
    (h : Format.counted Form F xs b) : xs.length < Bytes.bound 8 := by
  obtain ⟨s, e, hs, -⟩ := h
  exact hs.lt_bound

theorem Format.counted.exists_of_mem {F : Format α} {xs : List α} {b : Bytes}
    (h : Format.counted Form F xs b) {x : α} (hx : x ∈ xs) : ∃ e, F x e := by
  obtain ⟨s, e, -, he, -⟩ := h
  exact he.exists_of_mem hx

theorem Format.counted.length_pos {F : Format α} {xs : List α} {b : Bytes}
    (h : Format.counted Form F xs b) : 0 < b.length := by
  obtain ⟨s, es, hs, -, rfl⟩ := h
  rw [List.length_append]
  exact Nat.add_pos_left hs.length_pos _

theorem TxIn.witnessesFormat.lt_bound {marked : Bool} {is : List TxIn} {b : Bytes}
    (h : TxIn.witnessesFormat Form marked is b) {i : TxIn} (hi : i ∈ is) :
    i.witness.length < Bytes.bound 8 ∧ ∀ item ∈ i.witness, item.length < Bytes.bound 8 := by
  cases marked with
  | true =>
    obtain ⟨e, he⟩ := Format.joined.exists_of_mem h hi
    refine ⟨Format.counted.lt_bound he, fun item hitem => ?_⟩
    obtain ⟨e', he'⟩ := Format.counted.exists_of_mem he hitem
    exact he'.lt_bound
  | false =>
    rw [h.1 i hi]
    exact ⟨by decide, nofun⟩

theorem TxIn.format.inRange {i : TxIn} {b : Bytes} (h : TxIn.format Form i b)
    (hcount : i.witness.length < Bytes.bound 8)
    (hitems : ∀ item ∈ i.witness, item.length < Bytes.bound 8) : i.InRange := by
  obtain ⟨txid, vout, script, sequence, ht, hi, hv, hs, hq, -⟩ := h
  exact ⟨by rw [hi, List.length_reverse, ht], hv.range, hq.range, hs.lt_bound, hcount, hitems⟩

theorem TxOut.format.inRange {o : TxOut} {b : Bytes} (h : TxOut.format Form o b) : o.InRange := by
  obtain ⟨value, script, hv, hs, -⟩ := h
  exact ⟨hv.range, hs.lt_bound⟩

theorem Transaction.format.inRange {marked : Bool} {tx : Transaction} {b : Bytes}
    (h : Transaction.format Form marked tx b) : tx.InRange := by
  obtain ⟨version, inputs, outputs, witnesses, locktime, hv, hin, hout, hwit, hlock, -⟩ := h
  refine ⟨hv.range, hlock.range, hin.lt_bound, hout.lt_bound, ?_, ?_⟩
  · intro i hi
    obtain ⟨e, he⟩ := hin.exists_of_mem hi
    obtain ⟨hcount, hitems⟩ := hwit.lt_bound hi
    exact he.inRange hcount hitems
  · intro o ho
    obtain ⟨e, he⟩ := hout.exists_of_mem ho
    exact he.inRange

end InRange

/-! ## Inputs without their witnesses -/

/-- The input as it is read before its witness. -/
def TxIn.bare (i : TxIn) : TxIn := { i with witness := [] }

theorem TxIn.eq_of_bare_eq {i j : TxIn} (h : j.bare = i.bare) :
    j = { i with witness := j.witness } := by
  cases i
  cases j
  cases h
  rfl

theorem TxIn.bare_eq_self {i : TxIn} : i.bare = i ↔ i.witness = [] := by
  cases i
  simp [bare, eq_comm]

theorem map_bare_eq_self {is : List TxIn} :
    is.map TxIn.bare = is ↔ ∀ i ∈ is, i.witness = [] := by
  simp only [← TxIn.bare_eq_self]
  have h := List.map_inj_left (l := is) (f := TxIn.bare) (g := id)
  rwa [List.map_id] at h

theorem map_bare_map_bare (is : List TxIn) :
    (is.map TxIn.bare).map TxIn.bare = is.map TxIn.bare := by
  rw [List.map_map]
  rfl

theorem counted_format_map_bare {S : Format Nat} {is : List TxIn} {b : Bytes} :
    Format.counted S (TxIn.format S) (is.map TxIn.bare) b ↔
      Format.counted S (TxIn.format S) is b := by
  simp only [Format.counted, Format.joined, List.length_map, List.forall₂_map_left_iff]
  rfl

theorem counted_format_and_bare {S : Format Nat} {is : List TxIn} {b : Bytes} :
    Format.counted S (fun i e => i.witness = [] ∧ TxIn.format S i e) is b ↔
      is.map TxIn.bare = is ∧ Format.counted S (TxIn.format S) is b := by
  simp only [Format.counted, Format.joined, List.forall₂_and_left, map_bare_eq_self]
  constructor
  · rintro ⟨s, _, hs, ⟨es, ⟨hbare, hes⟩, rfl⟩, rfl⟩
    exact ⟨hbare, s, _, hs, ⟨es, hes, rfl⟩, rfl⟩
  · rintro ⟨hbare, s, _, hs, ⟨es, hes, rfl⟩, rfl⟩
    exact ⟨s, _, hs, ⟨es, ⟨hbare, hes⟩, rfl⟩, rfl⟩

end Taproot
