import Taproot.Proofs.Draft.Indices
import Taproot.Proofs.Hash.Windows
import Taproot.Proofs.Script.Execution
import Taproot.Proofs.Wallet.Preparation

/-! # Timelocks and consensus

What an input answers about a height is what the opcodes find in the transaction: the sequence number
of the input and the locktime are chosen so that both agree, whichever inputs have a relative
timelock.
-/
namespace Taproot

/-- What a script of an input sees of the transaction. -/
def Transaction.scriptContext (tx : Transaction) (x : TxIn)
    (verifies : (key signature : Bytes) → Bool) : ScriptContext :=
  ⟨tx.version.toNat, tx.locktime.toNat, x.sequence.toNat, verifies⟩

namespace ScriptContext

variable {c : ScriptContext} {n : Int}

/-- The opcode passes with the number on top of the stack. -/
def checkSequencePasses (c : ScriptContext) (n : Int) (stack : List Bytes) : Prop :=
  c.onStack .checkSequenceVerify (ScriptNumber.encode n :: stack) =
    some (ScriptNumber.encode n :: stack)

def checkLockTimePasses (c : ScriptContext) (n : Int) (stack : List Bytes) : Prop :=
  c.onStack .checkLockTimeVerify (ScriptNumber.encode n :: stack) =
    some (ScriptNumber.encode n :: stack)

theorem checkReached_encode {reached : Int → Bool} {stack : List Bytes} :
    StackOp.checkReached reached (ScriptNumber.encode n :: stack) =
      some (ScriptNumber.encode n :: stack) ↔ reached n = true := by
  simp [StackOp.checkReached, ScriptNumber.decode_encode]

theorem checkSequencePasses_iff (stack : List Bytes) :
    c.checkSequencePasses n stack ↔ c.sequenceReached n = true := checkReached_encode

theorem checkLockTimePasses_iff (stack : List Bytes) :
    c.checkLockTimePasses n stack ↔ c.lockTimeReached n = true := checkReached_encode

theorem testBit_of_lt {m k : Nat} (hm : m < 65536) (hk : 16 ≤ k) : m.testBit k = false := by
  refine Nat.testBit_lt_two_pow (Nat.lt_of_lt_of_le hm ?_)
  calc 65536 = 2 ^ 16 := rfl
    _ ≤ 2 ^ k := Nat.pow_le_pow_right (by omega) hk

/-- A sequence number that is a height has come to the heights up to it. -/
theorem sequenceReached_height (hv : 2 ≤ c.version) (hs : c.sequence ≤ 65535) (h₁ : 1 ≤ n)
    (h₂ : n ≤ 65535) : c.sequenceReached n = true ↔ n ≤ c.sequence := by
  have hn : n.toNat < 65536 := by omega
  have hs' : c.sequence < 65536 := by omega
  have h0 : 0 ≤ n := by omega
  simp only [sequenceReached, testBit_of_lt hn (k := 31) (by omega),
    testBit_of_lt hn (k := 22) (by omega), testBit_of_lt hs' (k := 31) (by omega),
    testBit_of_lt hs' (k := 22) (by omega), Nat.mod_eq_of_lt hn, Nat.mod_eq_of_lt hs', h0, hv]
  simp only [decide_true, Bool.false_or, Bool.not_false, Bool.and_self, beq_self_eq_true,
    Bool.true_and, decide_eq_true_eq]
  omega

/-- A sequence number without a relative timelock has come to no height. -/
theorem sequenceReached_disabled (hs : c.sequence.testBit 31 = true) (h₂ : n ≤ 65535) :
    c.sequenceReached n = false := by
  have hn : n.toNat < 65536 := by omega
  simp [sequenceReached, testBit_of_lt hn (k := 31) (by omega), hs]

theorem lockTimeReached_iff (hl : c.lockTime < 500000000) (h₁ : 1 ≤ n) (h₂ : n < 500000000) :
    c.lockTimeReached n = true ↔ n ≤ c.lockTime ∧ c.sequence ≠ 0xffffffff := by
  simp only [lockTimeReached, decide_eq_true_eq]
  constructor
  · rintro ⟨-, -, h, hs⟩
    exact ⟨h, hs⟩
  · rintro ⟨h, hs⟩
    exact ⟨by omega, by simp [hl, h₂], h, hs⟩

end ScriptContext

/-! ## The timelocks of a draft -/

namespace Draft

variable {d : Draft} {t : Timelocks}

theorem timelocks?_eq_some (h : d.timelocks? = some t) :
    t.active = d.hasRelativeTimelock ∧ t.locktime = d.locktime ∧
      (∀ i, t.heightOf i = (d.inputs.get? i).bind DraftInput.sequence) ∧
      (t.locktime.isSome = true → t.active = true) := by
  unfold timelocks? at h
  split at h
  · cases h
  · rename_i hl
    cases h
    refine ⟨rfl, rfl, fun i => ?_, fun hs => ?_⟩
    · rw [Timelocks.heightOf, Slots.get?_mapValues]
      cases d.inputs.get? i <;> rfl
    · have hs : d.locktime.isSome = true := hs
      simpa [hs] using hl

theorem active_of_heightOf (h : d.timelocks? = some t) {i : Int} {height : Nat}
    (hi : t.heightOf i = some height) : t.active = true := by
  obtain ⟨ha, -, hh, -⟩ := timelocks?_eq_some h
  rw [hh] at hi
  obtain ⟨x, hx, hs⟩ := Option.bind_eq_some_iff.mp hi
  rw [ha, hasRelativeTimelock, List.any_eq_true]
  exact ⟨(i, x), Slots.mem_of_get? hx, by rw [hs]; rfl⟩

/-- The heights and the locktime are within their bounds. -/
structure InRange (d : Draft) : Prop where
  locktime : ∀ l, d.locktime = some l → l < heightLimit
  sequence : ∀ e ∈ d.inputs, ∀ h, e.2.sequence = some h → h ≤ maxRelativeHeight

theorem InRange.heightOf_le (hr : d.InRange) (h : d.timelocks? = some t) {i : Int} {height : Nat}
    (hi : t.heightOf i = some height) : height ≤ 65535 := by
  obtain ⟨-, -, hh, -⟩ := timelocks?_eq_some h
  rw [hh] at hi
  obtain ⟨x, hx, hs⟩ := Option.bind_eq_some_iff.mp hi
  exact hr.sequence _ (Slots.mem_of_get? hx) height hs

variable {c : ScriptContext} {i : Int}

/-- Where the inputs are as resolved, none is final once a timelock is active. -/
theorem InRange.sequence_ne_final (hr : d.InRange) (h : d.timelocks? = some t) :
    t.sequence i ≠ finalSequence ↔ t.active = true := by
  unfold Timelocks.sequence
  cases hi : t.heightOf i with
  | some height =>
    have hle := hr.heightOf_le h hi
    have ha := active_of_heightOf h hi
    simp only [finalSequence, ha, iff_true]
    omega
  | none =>
    cases ha : t.active with
    | true => simp [locktimeSequence, finalSequence]
    | false => simp [finalSequence]

theorem InRange.sequence_le (hr : d.InRange) (h : d.timelocks? = some t) :
    t.sequence i ≤ finalSequence := by
  unfold Timelocks.sequence
  cases hi : t.heightOf i with
  | some height =>
    have hle := hr.heightOf_le h hi
    simp only [finalSequence]
    omega
  | none => cases t.active <;> decide

theorem InRange.olderMet_iff (hr : d.InRange) (h : d.timelocks? = some t) (hv : 2 ≤ c.version)
    (hs : c.sequence = t.sequence i) {n : Int} (h₁ : 1 ≤ n) (h₂ : n ≤ 65535) :
    (t.forInput i).olderMet n = true ↔ c.sequenceReached n = true := by
  cases hi : t.heightOf i with
  | some height =>
    have hle := hr.heightOf_le h hi
    have ha := active_of_heightOf h hi
    have hc : c.sequence = height := by
      rw [hs, Timelocks.sequence, hi]
    rw [ScriptContext.sequenceReached_height hv (by omega) h₁ h₂, hc]
    simp [InputTimelock.olderMet, Timelocks.forInput, ha, hi]
  | none =>
    have hbit : c.sequence.testBit 31 = true := by
      rw [hs, Timelocks.sequence, hi]
      cases t.active <;> decide
    rw [ScriptContext.sequenceReached_disabled hbit h₂]
    simp [InputTimelock.olderMet, Timelocks.forInput, hi]

theorem InRange.nLockTime_lt (hr : d.InRange) (h : d.timelocks? = some t) :
    t.nLockTime < 500000000 := by
  obtain ⟨-, hl, -, -⟩ := timelocks?_eq_some h
  unfold Timelocks.nLockTime
  split
  · cases hx : t.locktime with
    | none => simp
    | some l => exact hr.locktime l (hl.symm.trans hx)
  · omega

theorem InRange.afterMet_iff (hr : d.InRange) (h : d.timelocks? = some t)
    (hs : c.sequence = t.sequence i) (hl : c.lockTime = t.nLockTime) {n : Int} (h₁ : 1 ≤ n)
    (h₂ : n < 500000000) : (t.forInput i).afterMet n = true ↔ c.lockTimeReached n = true := by
  have hlt : c.lockTime < 500000000 := hl ▸ hr.nLockTime_lt h
  have hfinal := hr.sequence_ne_final (i := i) h
  rw [ScriptContext.lockTimeReached_iff hlt h₁ h₂, hs, hl, ← finalSequence, hfinal]
  cases ha : t.active with
  | false => simp [InputTimelock.afterMet, Timelocks.forInput, ha]
  | true =>
    cases hx : t.locktime with
    | none =>
      simp [InputTimelock.afterMet, Timelocks.forInput, Timelocks.nLockTime, ha, hx]
      omega
    | some l => simp [InputTimelock.afterMet, Timelocks.forInput, Timelocks.nLockTime, ha, hx]

end Draft

/-! ## Prepared transactions -/

namespace Operation

/-- In a prepared transaction each input answers about heights as the opcodes do, and a locktime of
the draft is enforced by every input. -/
theorem timelocks_agree {s t : Session} {u : Unsigned} (h : Answers prepare s u t)
    (hr : s.wallet.draft.InRange) :
    (∀ (i : Nat) (x : TxIn), u.transaction.inputs[i]? = some x →
      ∀ (verifies : (key signature : Bytes) → Bool) (stack : List Bytes) (n : Int),
        (1 ≤ n ∧ n ≤ 65535 → ((u.spending.timelocks.forInput i).olderMet n = true ↔
          (u.transaction.scriptContext x verifies).checkSequencePasses n stack)) ∧
        (1 ≤ n ∧ n < 500000000 → ((u.spending.timelocks.forInput i).afterMet n = true ↔
          (u.transaction.scriptContext x verifies).checkLockTimePasses n stack))) ∧
    ∀ l, s.wallet.draft.locktime = some l → u.transaction.locktime = l ∧
      ∀ x ∈ u.transaction.inputs, x.sequence ≠ finalSequence := by
  obtain ⟨-, hp⟩ := h.prepared
  have ht := hp.resolves.timelocks
  have hsequence : ∀ (i : Nat) (x : TxIn), u.transaction.inputs[i]? = some x →
      x.sequence = u.spending.timelocks.sequence i := by
    intro i x hx
    rw [hp.getElem?_inputs] at hx
    obtain ⟨v, -, rfl⟩ := Option.map_eq_some_iff.mp hx
    rfl
  refine ⟨fun i x hx verifies stack n => ⟨fun hn => ?_, fun hn => ?_⟩, fun l hl => ⟨?_, ?_⟩⟩
  · rw [ScriptContext.checkSequencePasses_iff]
    refine hr.olderMet_iff ht ?_ ?_ hn.1 hn.2
    · simp [Transaction.scriptContext, hp.version_eq]
    · simp [Transaction.scriptContext, hsequence i x hx]
  · rw [ScriptContext.checkLockTimePasses_iff]
    refine hr.afterMet_iff ht ?_ ?_ hn.1 hn.2
    · simp [Transaction.scriptContext, hsequence i x hx]
    · simp [Transaction.scriptContext, hp.locktime_eq]
  · obtain ⟨-, hlock, -, ha⟩ := Draft.timelocks?_eq_some ht
    have hactive := ha (by rw [hlock, hl]; rfl)
    rw [hp.locktime_eq, Timelocks.nLockTime, if_pos hactive, hlock, hl]
    rfl
  · intro x hx
    obtain ⟨-, hlock, -, ha⟩ := Draft.timelocks?_eq_some ht
    have hactive := ha (by rw [hlock, hl]; rfl)
    obtain ⟨i, hi, rfl⟩ := List.mem_iff_getElem.mp hx
    have hseq := hsequence i _ (List.getElem?_eq_getElem hi)
    have hne := (hr.sequence_ne_final (i := (i : Int)) ht).mpr hactive
    rw [hseq]
    exact_mod_cast hne

end Operation

namespace TwoHeights

def key : Bytes :=
  Bytes.ofNatBE 32 0xf9308a019258c31049344f85f89d5229b531c845836f99b08601f113bce036f9

def keyOnly : String := "tr(f9308a019258c31049344f85f89d5229b531c845836f99b08601f113bce036f9)"

def utxo (n : Nat) : Utxo := ⟨.ofBytes (Bytes.ofNatBE 32 n), n, 60000, keyOnly⟩

/-- The first input has no relative timelock. -/
def draft : Draft where
  inputs := [(1, ⟨some (utxo 1), some 10⟩), (0, ⟨some (utxo 0), none⟩)]
  outputs := [(0, ⟨keyOnly, none⟩)]
  fee := 500
  locktime := some 800000

def session : Session where
  wallet := { store := { keys := [{ publicKey := .ofBytes key }] }, draft }

theorem inputs_sorted :
    draft.inputs.sorted = [(0, ⟨some (utxo 0), none⟩), (1, ⟨some (utxo 1), some 10⟩)] := by
  simp [Slots.sorted, draft, List.mergeSort]

theorem outputs_sorted : draft.outputs.sorted = [(0, ⟨keyOnly, none⟩)] := by
  simp [Slots.sorted, draft]

theorem reads : (Descriptor.read session.wallet.store keyOnly).toOption.isSome = true := by
  decide +kernel

def descriptor : Descriptor := (Descriptor.read session.wallet.store keyOnly).toOption.get reads

theorem commits : descriptor.commit.toOption.isSome = true := by
  simp only [Descriptor.commit, PublicKey.tweak, tapTweak, HashTag.hash_eq_by]
  decide +kernel

def spending : Spending where
  timelocks := ⟨true, some 800000, [(1, some 10), (0, none)]⟩
  utxos := [utxo 0, utxo 1]
  inputs := [descriptor, descriptor]
  outputs := [descriptor]

theorem resolves : spending.Resolves session.wallet where
  timelocks := rfl
  indices := by
    simp [Draft.checkIndices, Slots.firstGap, session, inputs_sorted, outputs_sorted,
      Slots.firstGapFrom]
    rfl
  utxos := by
    rw [session, inputs_sorted]
    exact .cons rfl (.cons rfl .nil)
  inputs := .cons (eq_ok_get reads) (.cons (eq_ok_get reads) .nil)
  outputs := by
    rw [session, outputs_sorted]
    exact .cons (eq_ok_get reads) .nil

def commitment : Commitment := descriptor.commit.toOption.get commits

def unsigned : Unsigned := spending.toUnsigned [119500] [commitment, commitment] [commitment]

theorem prepares : ∃ t, Operation.Answers Operation.prepare session unsigned t := by
  have hc : descriptor.commit = .ok commitment := eq_ok_get commits
  refine ⟨_, Operation.answers_prepare.mpr ⟨spending, [commitment, commitment], [commitment],
    [119500], resolves, .cons hc (.cons hc .nil), .cons hc .nil, ?_, rfl, rfl⟩⟩
  have hg : draft.givenValues = [none] := by
    rw [Draft.givenValues, outputs_sorted]
    rfl
  simp only [session, Draft.outputValues, Draft.required, hg]
  rfl

theorem in_range : session.wallet.draft.InRange where
  locktime l hl := by
    obtain rfl : 800000 = l := Option.some.inj hl
    decide
  sequence e he h hs := by
    rcases List.mem_cons.mp he with rfl | he
    · obtain rfl : 10 = h := Option.some.inj hs
      decide
    · obtain rfl := List.mem_singleton.mp he
      cases hs

/-- The second input has come to height 10, and no input is final. -/
theorem enforced : unsigned.transaction.locktime = 800000 ∧
    (∀ x ∈ unsigned.transaction.inputs, x.sequence ≠ finalSequence) ∧
    ∀ x, unsigned.transaction.inputs[1]? = some x →
      (unsigned.transaction.scriptContext x fun _ _ => false).checkSequencePasses 10 [] := by
  obtain ⟨t, ht⟩ := prepares
  obtain ⟨hin, hlock⟩ := Operation.timelocks_agree ht in_range
  obtain ⟨hl, hs⟩ := hlock 800000 rfl
  refine ⟨hl, hs, fun x hx => ((hin 1 x hx _ [] 10).1 (by decide)).mp ?_⟩
  decide

end TwoHeights

end Taproot
