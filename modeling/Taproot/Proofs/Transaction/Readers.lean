import Taproot.Proofs.Result
import Taproot.Proofs.Transaction.WireFormat
import Taproot.Transaction.Decode

/-! # What the reader of transactions reads

A reader reads a format when whatever it answers is spelled by the bytes that it passed over, as long
as they are all there, and when it takes every spelling of a value from the front, wherever it
stands. Both carry over to readers one behind the other. A transaction is answered only where the
last offset is the length of the bytes, so nothing was cut short and nothing is left.
-/
namespace Taproot

variable {α β : Type}

/-! ## Readers of a format -/

/-- The spellings of a value and of what follows it, joined. -/
def Format.followedBy (F : Format α) (G : α → Format β) : Format β := fun y b =>
  ∃ x b₁ b₂, F x b₁ ∧ G x y b₂ ∧ b = b₁ ++ b₂

namespace Cursor

/-- Behind so many bytes more. -/
def skip (n : Nat) (c : Cursor) : Cursor := ⟨c.rest.drop n, c.offset + n⟩

@[simp] theorem skip_skip (m n : Nat) (c : Cursor) : (c.skip m).skip n = c.skip (m + n) := by
  simp only [skip, List.drop_drop, Nat.add_assoc]

/-- Wherever the bytes stand, the reader takes them and answers `x`. -/
def Recovers (item : Cursor → Except ParseFault (α × Cursor)) (b : Bytes) (x : α) : Prop :=
  ∀ rest offset, item ⟨b ++ rest, offset⟩ = .ok (x, ⟨rest, offset + b.length⟩)

structure Reads (item : Cursor → Except ParseFault (α × Cursor)) (F : Format α) : Prop where
  sound : ∀ {c x c'}, item c = .ok (x, c') →
    ∃ n, c' = c.skip n ∧ (n ≤ c.rest.length → F x (c.rest.take n))
  complete : ∀ {x b}, F x b → Recovers item b x

variable {item : Cursor → Except ParseFault (α × Cursor)} {F F' : Format α}

theorem Reads.congr (h : Reads item F) (he : ∀ x b, F x b ↔ F' x b) : Reads item F' where
  sound := by
    intro c x c' hc
    obtain ⟨n, hn, hF⟩ := h.sound hc
    exact ⟨n, hn, fun hle => (he _ _).mp (hF hle)⟩
  complete hF := h.complete ((he _ _).mpr hF)

theorem Reads.bind (h : Reads item F) {next : α → Cursor → Except ParseFault (β × Cursor)}
    {G : α → Format β} (hnext : ∀ x, Reads (next x) (G x)) :
    Reads (fun c => item c >>= fun p => next p.1 p.2) (Format.followedBy F G) where
  sound := by
    intro c y c' hc
    obtain ⟨⟨x, c₁⟩, hx, hy⟩ := bind_eq_ok.mp hc
    obtain ⟨m, rfl, hF⟩ := h.sound hx
    obtain ⟨n, rfl, hG⟩ := (hnext x).sound hy
    refine ⟨m + n, skip_skip m n c, fun hle => ?_⟩
    have hrest : n ≤ (c.skip m).rest.length := by
      rw [skip, List.length_drop]
      omega
    exact ⟨x, _, _, hF (by omega), hG hrest, List.take_add⟩
  complete := by
    rintro y b ⟨x, b₁, b₂, hF, hG, rfl⟩ rest offset
    rw [bind_eq_ok]
    refine ⟨_, by rw [List.append_assoc]; exact h.complete hF _ _, ?_⟩
    rw [List.length_append, ← Nat.add_assoc]
    exact (hnext x).complete hG rest _

theorem reads_pure (v : α) : Reads (fun c => .ok (v, c)) fun x b => x = v ∧ b = [] where
  sound := by
    rintro c x c' ⟨⟩
    exact ⟨0, rfl, fun _ => ⟨rfl, rfl⟩⟩
  complete := by
    rintro x b ⟨rfl, rfl⟩
    exact fun rest offset => rfl

theorem reads_take (n : Nat) : Reads (fun c => .ok (c.take n)) fun x b => b.length = n ∧ x = b where
  sound := by
    rintro c x c' ⟨⟩
    exact ⟨n, rfl, fun hle => ⟨List.length_take_of_le hle, rfl⟩⟩
  complete := by
    rintro x b ⟨rfl, rfl⟩ rest offset
    simp [take]

theorem reads_number (width : Nat) :
    Reads (fun c => .ok (c.number width)) fun v b => b.length = width ∧ v = b.toNatLE where
  sound := by
    rintro c x c' ⟨⟩
    exact ⟨width, rfl, fun hle => ⟨List.length_take_of_le hle, rfl⟩⟩
  complete := by
    rintro x b ⟨rfl, rfl⟩ rest offset
    simp [number, take]

theorem reads_size : Reads size CompactSize.Form where
  sound := by
    rintro ⟨rest, offset⟩ n c' h
    cases rest with
    | nil => cases h
    | cons first rest =>
      cases h
      refine ⟨1 + CompactSize.tailWidth first, ?_, fun hle => ?_⟩
      · simp [skip, Nat.add_comm 1, Nat.add_assoc]
      · rw [List.length_cons] at hle
        refine ⟨first, rest.take (CompactSize.tailWidth first), ?_, ?_, rfl⟩
        · rw [Nat.add_comm, List.take_succ_cons]
        · exact List.length_take_of_le (by omega)
  complete := by
    rintro n s ⟨first, tail, rfl, hl, rfl⟩ rest offset
    rw [List.cons_append, size]
    simp only [take, ← hl, List.take_left, List.drop_left, List.length_cons]
    rw [Nat.add_assoc, Nat.add_comm 1]

end Cursor

/-! ## The parts of a transaction -/

namespace Cursor

open CompactSize (Form)

variable {item : Cursor → Except ParseFault (α × Cursor)} {F F' : Format α}

theorem reads_sized : Reads sized (Format.sized Form) := by
  refine (reads_size.bind reads_take).congr fun x b => ?_
  constructor
  · rintro ⟨n, s, x, hs, ⟨rfl, rfl⟩, rfl⟩
    exact ⟨s, hs, rfl⟩
  · rintro ⟨s, hs, rfl⟩
    exact ⟨_, s, x, hs, ⟨rfl, rfl⟩, rfl⟩

theorem Reads.repeated (h : Reads item F) (n : Nat) : Reads (repeated item n)
    fun xs b => xs.length = n ∧ Format.joined F xs b := by
  induction n with
  | zero =>
    refine (reads_pure []).congr fun xs b => ?_
    constructor
    · rintro ⟨rfl, rfl⟩
      exact ⟨rfl, Format.joined_nil.mpr rfl⟩
    · rintro ⟨hl, hb⟩
      obtain rfl := List.eq_nil_of_length_eq_zero hl
      exact ⟨rfl, Format.joined_nil.mp hb⟩
  | succ n ih =>
    refine (h.bind fun x => ih.bind fun xs => reads_pure (x :: xs)).congr fun ys b => ?_
    constructor
    · rintro ⟨x, e, _, hx, ⟨xs, rest, _, ⟨rfl, hrest⟩, ⟨rfl, rfl⟩, rfl⟩, rfl⟩
      exact ⟨rfl, Format.joined_cons.mpr ⟨e, rest, hx, hrest, by simp⟩⟩
    · rintro ⟨hl, hb⟩
      obtain ⟨x, xs, rfl⟩ := List.exists_cons_of_length_eq_add_one hl
      obtain ⟨e, rest, hx, hrest, rfl⟩ := Format.joined_cons.mp hb
      exact ⟨x, e, _, hx, ⟨xs, rest, [], ⟨Nat.succ.inj hl, hrest⟩, ⟨rfl, rfl⟩, rfl⟩, by simp⟩

theorem Reads.counted (h : Reads item F) : Reads (counted item) (Format.counted Form F) := by
  refine (reads_size.bind h.repeated).congr fun xs b => ?_
  constructor
  · rintro ⟨n, s, e, hs, ⟨rfl, he⟩, rfl⟩
    exact ⟨s, e, hs, he, rfl⟩
  · rintro ⟨s, e, hs, he, rfl⟩
    exact ⟨_, s, e, hs, ⟨rfl, he⟩, rfl⟩

theorem reads_txIn : Reads txIn fun i b => i.witness = [] ∧ TxIn.format Form i b := by
  refine ((reads_take 32).bind fun txid => (reads_number 4).bind fun vout => reads_sized.bind
    fun scriptSig => (reads_number 4).bind fun sequence =>
      reads_pure ({ txid := txid.reverse, vout, sequence, scriptSig } : TxIn)).congr fun i b => ?_
  constructor
  · rintro ⟨txid, _, _, ⟨ht, rfl⟩, ⟨_, vout, _, ⟨hv, rfl⟩, ⟨x, script, _, hx,
      ⟨_, sequence, _, ⟨hs, rfl⟩, ⟨rfl, rfl⟩, rfl⟩, rfl⟩, rfl⟩, rfl⟩
    exact ⟨rfl, txid, vout, script, sequence, ht, rfl, ⟨hv, rfl⟩, hx, ⟨hs, rfl⟩, by simp⟩
  · obtain ⟨_, _, _, scriptSig, _⟩ := i
    rintro ⟨rfl, txid, vout, script, sequence, ht, rfl, ⟨hv, rfl⟩, hx, ⟨hs, rfl⟩, rfl⟩
    exact ⟨txid, txid, _, ⟨ht, rfl⟩, ⟨_, vout, _, ⟨hv, rfl⟩, ⟨scriptSig, script, _, hx,
      ⟨_, sequence, [], ⟨hs, rfl⟩, ⟨rfl, rfl⟩, rfl⟩, rfl⟩, rfl⟩, by simp⟩

theorem reads_txOut : Reads txOut (TxOut.format Form) := by
  refine ((reads_number 8).bind fun value => reads_sized.bind fun script =>
      reads_pure ({ value, script } : TxOut)).congr fun o b => ?_
  constructor
  · rintro ⟨_, value, _, ⟨hv, rfl⟩, ⟨x, script, _, hx, ⟨rfl, rfl⟩, rfl⟩, rfl⟩
    exact ⟨value, script, ⟨hv, rfl⟩, hx, by simp⟩
  · obtain ⟨_, bytes⟩ := o
    rintro ⟨value, script, ⟨hv, rfl⟩, hx, rfl⟩
    exact ⟨_, value, _, ⟨hv, rfl⟩, ⟨bytes, script, [], hx, ⟨rfl, rfl⟩, rfl⟩, by simp⟩

/-- Witnesses are read into inputs, of which nothing else changes. -/
theorem reads_witnesses (is : List TxIn) : Reads (witnesses is) fun js b =>
    js.map TxIn.bare = is.map TxIn.bare ∧ TxIn.witnessesFormat Form true js b := by
  induction is with
  | nil =>
    refine (reads_pure []).congr fun js b => ?_
    constructor
    · rintro ⟨rfl, rfl⟩
      exact ⟨rfl, Format.joined_nil.mpr rfl⟩
    · rintro ⟨hbare, hb⟩
      obtain rfl := List.map_eq_nil_iff.mp hbare
      exact ⟨rfl, Format.joined_nil.mp hb⟩
  | cons i is ih =>
    refine (reads_sized.counted.bind fun items => ih.bind fun rest =>
      reads_pure ({ i with witness := items } :: rest)).congr fun js b => ?_
    constructor
    · rintro ⟨items, e, _, hitems, ⟨js, rest, _, ⟨hbare, hrest⟩, ⟨rfl, rfl⟩, rfl⟩, rfl⟩
      exact ⟨congrArg (i.bare :: ·) hbare,
        Format.joined_cons.mpr ⟨e, rest, hitems, hrest, by simp⟩⟩
    · rintro ⟨hbare, hb⟩
      obtain ⟨j, js, rfl, hj, hjs⟩ := List.map_eq_cons_iff.mp hbare
      obtain ⟨e, rest, hitems, hrest, rfl⟩ := Format.joined_cons.mp hb
      exact ⟨_, e, _, hitems, ⟨js, rest, [], ⟨hjs, hrest⟩,
        ⟨congrArg (· :: js) (TxIn.eq_of_bare_eq hj), rfl⟩, rfl⟩, by simp⟩

/-- The witnesses where they are marked, and nothing otherwise. -/
def markedWitnesses (marked : Bool) (is : List TxIn) (c : Cursor) :
    Except ParseFault (List TxIn × Cursor) :=
  if marked then witnesses is c else .ok (is, c)

theorem reads_markedWitnesses (marked : Bool) (is : List TxIn) :
    Reads (markedWitnesses marked is) fun js b =>
      if marked then js.map TxIn.bare = is.map TxIn.bare ∧ TxIn.witnessesFormat Form true js b
      else js = is ∧ b = [] := by
  cases marked with
  | true => exact reads_witnesses is
  | false => exact reads_pure is

theorem markedWitnesses_format {marked : Bool} {is js : List TxIn} {b : Bytes}
    (his : is.map TxIn.bare = is) :
    (if marked then js.map TxIn.bare = is.map TxIn.bare ∧ TxIn.witnessesFormat Form true js b
      else js = is ∧ b = []) ↔
      js.map TxIn.bare = is ∧ TxIn.witnessesFormat Form marked js b := by
  cases marked with
  | true => rw [if_pos rfl, his]
  | false =>
    rw [if_neg Bool.false_ne_true, TxIn.witnessesFormat, ← map_bare_eq_self]
    constructor
    · rintro ⟨rfl, rfl⟩
      exact ⟨his, his, rfl⟩
    · rintro ⟨rfl, hbare, rfl⟩
      exact ⟨hbare.symm, rfl⟩

/-- What follows the marker. -/
def body (version : Int) (marked : Bool) (c : Cursor) : Except ParseFault (Transaction × Cursor) := do
  let (inputs, c) ← c.counted txIn
  let (outputs, c) ← c.counted txOut
  let (inputs, c) ← markedWitnesses marked inputs c
  let (locktime, c) := c.number 4
  return ({ version, inputs, outputs, locktime }, c)

theorem reads_body (version : Int) (marked : Bool) : Reads (body version marked) fun tx b =>
    tx.version = version ∧ ∃ inputs outputs witnesses locktime,
      Format.counted Form (TxIn.format Form) tx.inputs inputs ∧
      Format.counted Form (TxOut.format Form) tx.outputs outputs ∧
      TxIn.witnessesFormat Form marked tx.inputs witnesses ∧
      Format.number 4 tx.locktime locktime ∧
      b = inputs ++ (outputs ++ (witnesses ++ locktime)) := by
  refine (reads_txIn.counted.bind fun is => reads_txOut.counted.bind fun os =>
    (reads_markedWitnesses marked is).bind fun js => (reads_number 4).bind fun n =>
      reads_pure (Transaction.mk version js os n)).congr fun tx b => ?_
  constructor
  · rintro ⟨is, inputs, _, hin, ⟨os, outputs, _, hout, ⟨js, witnesses, _, hwit,
      ⟨n, locktime, _, hlock, ⟨rfl, rfl⟩, rfl⟩, rfl⟩, rfl⟩, rfl⟩
    obtain ⟨his, hin⟩ := counted_format_and_bare.mp hin
    obtain ⟨rfl, hjs⟩ := (markedWitnesses_format his).mp hwit
    exact ⟨rfl, inputs, outputs, witnesses, locktime, counted_format_map_bare.mp hin, hout, hjs,
      ⟨hlock.1, congrArg _ hlock.2⟩, by simp⟩
  · obtain ⟨_, is, os, _⟩ := tx
    rintro ⟨rfl, inputs, outputs, witnesses, locktime, hin, hout, hwit, ⟨hl, rfl⟩, rfl⟩
    have his := map_bare_map_bare is
    exact ⟨is.map TxIn.bare, inputs, _,
      counted_format_and_bare.mpr ⟨his, counted_format_map_bare.mpr hin⟩, ⟨os, outputs, _, hout,
        ⟨is, witnesses, _, (markedWitnesses_format his).mpr ⟨rfl, hwit⟩,
          ⟨_, locktime, [], ⟨hl, rfl⟩, ⟨rfl, rfl⟩, rfl⟩, rfl⟩, rfl⟩, by simp⟩

end Cursor

/-! ## The reader of transactions -/

namespace Transaction

open Cursor
open CompactSize (Form)

variable {tx : Transaction} {b : Bytes}

/-- The marker stands behind the version. -/
def isMarked (b : Bytes) : Bool := (b.drop 4).take 2 = witnessMarker

/-- The reader looks at two bytes and passes over them only if they are the marker. -/
theorem marker_eq_ok {c c' : Cursor} {marked : Bool} (h : marker c = .ok (marked, c')) :
    marked = decide (c.rest.take 2 = witnessMarker) ∧ c' = c.skip (markerBytes marked).length := by
  obtain ⟨rest, offset⟩ := c
  unfold marker at h
  split at h
  · cases h
  · cases h
  · rename_i rest' he
    cases h
    dsimp only at he
    subst he
    exact ⟨rfl, rfl⟩
  · rename_i hnil hzero hmarker
    cases h
    refine ⟨?_, rfl⟩
    symm
    rw [decide_eq_false_iff_not]
    intro he
    have hsplit := List.take_append_drop 2 rest
    rw [he] at hsplit
    exact hmarker _ hsplit.symm

theorem exists_marker {c : Cursor} (h : 2 ≤ c.rest.length) : ∃ r, marker c = .ok r := by
  unfold marker
  split
  · rename_i he
    rw [he] at h
    cases h
  · rename_i he
    rw [he] at h
    contradiction
  · exact ⟨_, rfl⟩
  · exact ⟨_, rfl⟩

/-- With two bytes to look at, it answers. -/
theorem marker_start (h : 6 ≤ b.length) : marker ((start b).skip 4) =
    .ok (isMarked b, ((start b).skip 4).skip (markerBytes (isMarked b)).length) := by
  have hrest : 2 ≤ ((start b).skip 4).rest.length := by
    simp only [skip, start, List.length_drop]
    omega
  obtain ⟨⟨marked, c'⟩, hc⟩ := exists_marker hrest
  obtain ⟨hmarked, rfl⟩ := marker_eq_ok hc
  obtain rfl : marked = isMarked b := hmarked
  exact hc

theorem take_markerBytes (b : Bytes) :
    (b.drop 4).take (markerBytes (isMarked b)).length = markerBytes (isMarked b) := by
  cases hm : isMarked b with
  | true => exact of_decide_eq_true hm
  | false => rfl

theorem read_eq (b : Bytes) : read b = (do
    let (marked, c) ← marker ((start b).skip 4)
    let (tx, c) ← body (Bytes.toNatLE (b.take 4)) marked c
    if b.length ≠ c.offset then throw .unexpectedLength
    return tx) := by
  unfold read body
  simp only [bind_assoc, pure_bind]
  refine bind_congr fun p => ?_
  refine bind_congr fun q => ?_
  refine bind_congr fun r => ?_
  cases p.1
  · rfl
  · rfl

theorem read_eq_ok_iff_body : read b = .ok tx ↔ ∃ marked c c',
    marker ((start b).skip 4) = .ok (marked, c) ∧
    body (Bytes.toNatLE (b.take 4)) marked c = .ok (tx, c') ∧ b.length = c'.offset := by
  rw [read_eq]
  constructor
  · intro h
    obtain ⟨⟨marked, c⟩, hm, h⟩ := bind_eq_ok.mp h
    obtain ⟨⟨tx', c'⟩, hb, h⟩ := bind_eq_ok.mp h
    dsimp only at h
    split at h
    · cases h
    · rename_i hlen
      cases h
      exact ⟨marked, c, c', hm, hb, not_not.mp hlen⟩
  · rintro ⟨marked, c, c', hm, hb, hlen⟩
    rw [bind_eq_ok]
    refine ⟨_, hm, ?_⟩
    rw [bind_eq_ok]
    refine ⟨_, hb, ?_⟩
    simp only [hlen, ne_eq, not_true, if_false]
    rfl

/-- What is read is all of the bytes: no field ends behind them and none are left. -/
theorem format_of_read (h : read b = .ok tx) : Transaction.format Form (isMarked b) tx b := by
  obtain ⟨marked, c, c', hm, hb, hlen⟩ := read_eq_ok_iff_body.mp h
  obtain ⟨hmarked, rfl⟩ := marker_eq_ok hm
  obtain ⟨n, rfl, hformat⟩ := (reads_body _ _).sound hb
  obtain rfl : marked = isMarked b := hmarked
  simp only [skip, start, Nat.zero_add] at hlen hformat
  have hrest : ((b.drop 4).drop (markerBytes (isMarked b)).length).length = n := by
    rw [List.length_drop, List.length_drop]
    omega
  obtain ⟨hversion, inputs, outputs, witnesses, locktime, hin, hout, hwit, hlock, he⟩ :=
    hformat (Nat.le_of_eq hrest.symm)
  rw [List.take_of_length_le (Nat.le_of_eq hrest)] at he
  refine ⟨b.take 4, inputs, outputs, witnesses, locktime,
    ⟨List.length_take_of_le (by omega), hversion⟩, hin, hout, hwit, hlock, ?_⟩
  calc b = b.take 4 ++ b.drop 4 := (List.take_append_drop 4 b).symm
    _ = b.take 4 ++ ((b.drop 4).take (markerBytes (isMarked b)).length ++
        (b.drop 4).drop (markerBytes (isMarked b)).length) := by
      rw [List.take_append_drop _ (b.drop 4)]
    _ = b.take 4 ++ (markerBytes (isMarked b) ++
        (inputs ++ (outputs ++ (witnesses ++ locktime)))) := by rw [take_markerBytes, he]

theorem read_of_format (h : Transaction.format Form (isMarked b) tx b) : read b = .ok tx := by
  generalize hm : isMarked b = marked at h
  obtain ⟨version, inputs, outputs, witnesses, locktime, ⟨hl, hversion⟩, hin, hout, hwit, hlock,
    rfl⟩ := h
  generalize hrest : inputs ++ (outputs ++ (witnesses ++ locktime)) = rest at hm
  have hlen : 6 ≤ (version ++ (markerBytes marked ++ rest)).length := by
    have hpos := hin.length_pos
    have hpos' := hout.length_pos
    rw [← hrest]
    simp only [List.length_append, hl]
    omega
  have htake : (version ++ (markerBytes marked ++ rest)).take 4 = version := by
    rw [← hl, List.take_left]
  have hskip : ((start (version ++ (markerBytes marked ++ rest))).skip 4).skip
      (markerBytes marked).length = ⟨rest, 4 + (markerBytes marked).length⟩ := by
    simp only [skip, start, ← hl, List.drop_left, Nat.zero_add]
  have hmarker := marker_start hlen
  rw [hm, hskip] at hmarker
  have hbody := (reads_body tx.version marked).complete
    ⟨rfl, inputs, outputs, witnesses, locktime, hin, hout, hwit, hlock, hrest.symm⟩ []
    (4 + (markerBytes marked).length)
  rw [List.append_nil, hversion] at hbody
  refine read_eq_ok_iff_body.mpr ⟨_, _, _, hmarker, by rw [htake]; exact hbody, ?_⟩
  simp only [List.length_append, hl, Nat.add_assoc]

theorem read_eq_ok_iff_format : read b = .ok tx ↔ Transaction.format Form (isMarked b) tx b :=
  ⟨format_of_read, read_of_format⟩

end Transaction
end Taproot
